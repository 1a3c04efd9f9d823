import Zeos.Counters
import Zeos.Properties.Queues

set_option autoImplicit false

/-! Semaphores: conservation and first-come grants, how a wait ends, and who owns
what. -/

namespace Zeos

open CircularList (Ring)
open History

variable {k k' : Kernel} {r : Roster} {task : TaskId} {sem : SemId}

/-- The tasks on the blocked queue of a semaphore in use. -/
theorem Refines.blocked_ring (ref : Refines k r) (sound : Roster.Sound r)
    (used : (r.sem sem).used = true) :
    Ring k.links (.blocked sem) ((r.queue (.waiters sem)).map .anchor) := by
  have started : Started r (.waiters sem) := by
    rintro s same
    cases same
    exact sound.owners.started sem used
  exact ref.lists.ring (family_head (q := .waiters sem) started)

/-! ### Conservation -/

/-- Within the present lifetime of a semaphore in use: conservation, no counter
left while somebody waits, and the waiters blocked but for those dequeued, in
the same order. -/
theorem semaphore_conserves {k : Kernel} (reached : Reachable anyAction k) (sem : SemId)
    (used : (k.semaphores sem).used = true) :
    ∃ life waiters, lifetime sem k.trace = some life ∧
      Ring k.links (.blocked sem) (waiters.map .anchor) ∧
      (life.value.toNat + life.signals < 2 ^ 31 →
        (k.semaphores sem).count + life.granted = life.value.toNat + life.signals) ∧
      (waiters ≠ [] → (k.semaphores sem).count = 0) ∧
      life.blocked = life.served ++ waiters := by
  obtain ⟨r, ref, sound⟩ := reachable_sound reached
  rw [ref.sems] at used ⊢
  obtain ⟨life, metered⟩ := sound.meter sem used
  refine ⟨life, r.queue (.waiters sem), ?_, ref.blocked_ring sound used, ?_, metered.empty,
    metered.order⟩
  · rw [ref.trace]
    exact metered.present
  · intro small
    have positive : life.value.toInt = life.value.toNat := by
      rw [BitVec.toInt_eq_toNat_of_lt]
      omega
    rw [metered.balance, positive]

/-- Task 1 blocks on its semaphore, and a child has signalled it. -/
theorem semaphore_conserves_signalled :
    let k := Kernel.after everyStep [some (.call .fork), some (.call (.semInit 3 0)),
      some (.call (.semWait 3)), none, some (.call (.semSignal 3))]
    ∃ life waiters, lifetime 3 k.trace = some life ∧
      Ring k.links (.blocked 3) (waiters.map .anchor) ∧
      (life.value.toNat + life.signals < 2 ^ 31 →
        (k.semaphores 3).count + life.granted = life.value.toNat + life.signals) ∧
      (waiters ≠ [] → (k.semaphores 3).count = 0) ∧
      life.blocked = life.served ++ waiters :=
  semaphore_conserves (reached_after (by decide +kernel)).any 3 (by decide +kernel)

/-! ### How a wait ends -/

theorem semWaitResumed_result :
    k.semWaitResumed.2 = if k.currentTask.semDeleted then -1 else 0 := by
  unfold Kernel.semWaitResumed
  split <;> rfl

/-- The waits of the history are the real ones: its waiters are on the blocked
queues and have no outcome yet, a wait that is dispatched again returns its
outcome, and every wait that returned did. -/
structure Kernel.Answers (k : Kernel) : Prop where
  waiting : ∀ sem task, task ∈ (waits k.trace).waiting sem ↔
    k.onList (.blocked sem) (.anchor task)
  undecided : ∀ sem, ∀ task ∈ (waits k.trace).waiting sem, (waits k.trace).outcome task = none
  destroyed : ∀ sem, k.mode = .switching → k.currentTask.kernelEsp = .semWait sem →
    (k.semWaitResumed.2 = -1 ↔ (waits k.trace).outcome k.current = some (-1))
  granted : ∀ sem, k.mode = .switching → k.currentTask.kernelEsp = .semWait sem →
    (k.semWaitResumed.2 = 0 ↔ (waits k.trace).outcome k.current = some 0)
  returned : (waits k.trace).answered = true

/-- The flag of a dispatched waiter is its outcome. -/
theorem Refines.outcome (ref : Refines k r) (sound : Roster.Sound r)
    (switching : k.mode = .switching) (resume : k.currentTask.kernelEsp = .semWait sem) :
    (waits k.trace).outcome k.current = some k.semWaitResumed.2 := by
  have saved : (r.task r.current).resume = .semWait sem := by
    rw [← ref.core, ← ref.current]
    exact resume
  have owed : r.Owed r.current sem := ⟨Or.inr ⟨ref.mode.symm.trans switching, rfl⟩, saved⟩
  have flag : k.currentTask.semDeleted = (r.task r.current).aborted := by
    rw [← ref.core, ← ref.current]
    rfl
  rw [semWaitResumed_result, flag, ref.trace, ref.current]
  exact sound.waits.due owed

theorem blocked_wait_answers {k : Kernel} (reached : Reachable anyAction k) : k.Answers := by
  obtain ⟨r, ref, sound⟩ := reachable_sound reached
  refine ⟨?_, ?_, ?_, ?_, ?_⟩
  · intro sem task
    rw [ref.trace, sound.waits.waiting]
    exact (ref.onQueue_iff sound (q := .waiters sem)).symm
  · intro sem task member
    rw [ref.trace] at member ⊢
    rw [sound.waits.waiting] at member
    by_contra decided
    obtain ⟨s, ready | ⟨_, mine⟩, _⟩ := sound.waits.fulfilled decided
    · cases sound.queues.apart member ready
    · exact sound.running.out ⟨_, mine ▸ member⟩
  · intro sem switching resume
    rw [ref.outcome sound switching resume, Option.some.injEq]
  · intro sem switching resume
    rw [ref.outcome sound switching resume, Option.some.injEq]
  · rw [ref.trace]
    exact sound.waits.answered

/-- The owner destroys the semaphore its child waits for, makes it again and waits
itself; the child is dispatched and its wait is about to return. -/
theorem blocked_wait_answers_destroyed :
    (Kernel.after everyStep [some (.call .fork), some (.call (.semInit 3 0)),
      some (.call (.read 0 0x108000 1)), none, some (.call (.semWait 3)), none,
      some (.keyboard 0x1e), none, some (.call (.semDestroy 3)),
      some (.call (.semInit 3 0)), some (.call (.semWait 3))]).Answers :=
  blocked_wait_answers (reached_after (by decide +kernel)).any

/-! ### Counters -/

/-- No counter leaves its range: a `sem_init` that succeeds starts with at most the largest
`int`, and no signal raises that number. -/
def countersFit (k : Kernel) : Option Action → Bool
  | some (.call (.semInit nSem value)) => (semAt nSem.toInt).all fun sem =>
      (k.semaphores sem).used || decide (value.toNat < 2 ^ 31)
  | some (.call (.semSignal nSem)) => (semAt nSem.toInt).all fun sem =>
      !(k.semaphores sem).used || !listEmpty k.links (.blocked sem) ||
        decide ((k.semaphores sem).count < intMax)
  | _ => true

/-- The counter as the `int` it is stored in. -/
def Semaphore.stored (sem : Semaphore) : Int := (BitVec.ofInt 32 sem.count).toInt

/-- No counter of a semaphore in use is negative, it is zero when no unit is left, and then
a wait blocks. -/
structure Kernel.CountersSane (k : Kernel) : Prop where
  nonneg : ∀ sem, (k.semaphores sem).used = true → 0 ≤ (k.semaphores sem).stored
  test : ∀ sem, (k.semaphores sem).used = true →
    ((k.semaphores sem).count = 0 ↔ ¬ 0 < (k.semaphores sem).stored)
  blocks : ∀ nSem sem k', semAt nSem.toInt = some sem → (k.semaphores sem).used = true →
    ¬ 0 < (k.semaphores sem).stored → k.step (some (.call (.semWait nSem))) = some k' →
    k'.onList (.blocked sem) (.anchor k.current)

theorem Refines.countersFit (ref : Refines k r) (sound : Roster.Sound r)
    {label : Option Action} (fits : Zeos.countersFit k label = true) : r.CountsFit label := by
  unfold Zeos.countersFit at fits
  unfold Roster.CountsFit
  rw [ref.sems] at fits
  split
  · intro sem place unused
    simpa [place, unused] using fits
  · intro sem place used idle
    have started : Started r (.waiters sem) := by
      intro s same
      cases same
      exact sound.owners.started sem used
    have empty : listEmpty k.links (.blocked sem) = true := by
      have stored := family_head (q := .waiters sem) started
      rw [idle] at stored
      exact (listEmpty_iff ref.lists stored).mpr rfl
    simpa [place, used, empty] using fits
  · trivial

/-- A wait that finds no unit. -/
theorem Refines.wait_blocks (ref : Refines k r) (sound : Roster.Sound r) {nSem : DWord}
    (place : semAt nSem.toInt = some sem) (used : (k.semaphores sem).used = true)
    (none : (k.semaphores sem).count = 0)
    (stepped : k.step (some (.call (.semWait nSem))) = some k') :
    k'.onList (.blocked sem) (.anchor k.current) := by
  rw [ref.sems] at used none
  obtain ⟨user, enabled, delivered⟩ := step_action stepped
  have busy : r.current ≠ r.idle := by
    rw [← ref.current, ← ref.idle]
    simpa [Kernel.enabled] using enabled
  have entered : Refines k.updateEnteringSys r := ref.of_view view_updateEnteringSys
  have after : Refines k' (r.semBlock sem) := by
    rw [delivered]
    exact (entered.semBlock sound busy place used none).of_view view_leave
  have still : Roster.Sound (r.semBlock sem) :=
    sound.step (@Roster.Step.semBlock k.seen r nSem sem (ref.mode.symm.trans user) busy place used none)
  rw [ref.current]
  apply (after.onQueue_iff still (q := .waiters sem)).mpr
  have apart : Queue.waiters sem ≠ .ready := by simp
  rw [Roster.semBlock, Roster.schedNext_queue, Function.update_of_ne apart]
  simp [Roster.place, Roster.setQueue, Roster.setState, Roster.setTask, Roster.note]

theorem reachable_counted (reached : Reachable (fun k label => countersFit k label = true) k) :
    ∃ r, Refines k r ∧ Roster.Sound r ∧ r.Counted := by
  apply reached.invariant fun k => ∃ r, Refines k r ∧ Roster.Sound r ∧ r.Counted
  · intro k booted
    obtain ⟨image, rfl⟩ := booted
    refine ⟨Roster.boot, boot_refines image, Roster.boot_sound, fun s used => ?_⟩
    cases used
  · intro k label k' holds fits stepped
    obtain ⟨r, ref, sound, counted⟩ := holds
    obtain ⟨r', step, after, _⟩ := ref.step sound stepped
    exact ⟨r', after, sound.step step, counted.step (ref.countersFit sound fits) step⟩

/-- While the counters fit an `int`, they are not negative, zero says that no unit is left, and
a wait without a unit blocks. -/
theorem counters_sane {k : Kernel}
    (reached : Reachable (fun k label => countersFit k label = true) k) : k.CountersSane := by
  obtain ⟨r, ref, sound, counted⟩ := reachable_counted reached
  have stored : ∀ s, (k.semaphores s).used = true →
      (k.semaphores s).stored = (k.semaphores s).count ∧ 0 ≤ (k.semaphores s).count := by
    intro s used
    rw [ref.sems] at used ⊢
    obtain ⟨low, high⟩ := counted s used
    refine ⟨?_, low⟩
    rw [Semaphore.stored, BitVec.toInt_ofInt]
    simp only [intMax] at high
    apply Int.bmod_eq_of_le
    · omega
    · omega
  constructor
  · intro s used
    obtain ⟨same, low⟩ := stored s used
    omega
  · intro s used
    obtain ⟨same, low⟩ := stored s used
    omega
  · intro nSem s k' place used without stepped
    obtain ⟨same, low⟩ := stored s used
    exact ref.wait_blocks sound place used (by omega) stepped

/-- A semaphore with one unit, which its owner takes. -/
theorem counters_sane_taken :
    (Kernel.after countersFit [some (.call (.semInit 3 1)), some (.call (.semWait 3))]).CountersSane :=
  counters_sane (reached_after (by decide +kernel))

/-- `sem_init` accepts `2^31`, which the counter stores as a negative number, and a wait does
not block. -/
theorem counters_sane_counterexample :
    let k := Kernel.after everyStep [some (.call (.semInit 3 0x80000000))]
    Reachable anyAction k ∧ (k.semaphores 3).used = true ∧ (k.semaphores 3).stored < 0 ∧
      ¬ k.CountersSane := by
  intro k
  have negative : (k.semaphores 3).stored < 0 := by decide +kernel
  have used : (k.semaphores 3).used = true := by decide +kernel
  refine ⟨(reached_after (by decide +kernel)).any, used, negative, fun sane => ?_⟩
  have := sane.nonneg 3 used
  omega

end Zeos
