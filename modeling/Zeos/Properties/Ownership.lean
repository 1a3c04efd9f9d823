import Zeos.Properties.Queues

set_option autoImplicit false

/-! Semaphores and the tasks that own them, over task death and the reuse of task
structs. -/

namespace Zeos

open CircularList (Ring)

namespace Roster

variable {r r' : Roster} {task : TaskId} {sem : SemId}

/-! ### In the abstract scheduler -/

theorem popKeys_sem (size : Nat) (buffer : DWord) (count : Nat) :
    (r.popKeys size buffer count).1.sem = r.sem := by
  obtain ⟨pending, trace, shape, _⟩ := popKeys_shape size buffer count r
  rw [shape]

theorem foldl_sem {owner : TaskId} (sems : List SemId) : ∀ r : Roster, ∀ s,
    (((sems.foldl (Roster.semDestroy owner) r).sem s).used = true → (r.sem s).used = true) ∧
      ((sems.foldl (Roster.semDestroy owner) r).sem s).owner = (r.sem s).owner := by
  induction sems with
  | nil => exact fun r s => ⟨id, rfl⟩
  | cons first rest ih =>
      intro r s
      obtain ⟨used, owner⟩ := ih (Roster.semDestroy _ r first) s
      rw [List.foldl_cons, owner]
      simp only [semDestroy_eq, Function.update_apply] at used ⊢
      grind

/-- A semaphore in use after a step was in use before, with the same owner, or the
running task has just created it. -/
theorem Step.owned {label : Option Action} {seen : Seen} (step : Step seen r label r')
    (used : (r'.sem sem).used = true) :
    (r.sem sem).used = true ∧ (r'.sem sem).owner = (r.sem sem).owner ∨
      (r'.sem sem).owner = some r.current := by
  have kept : r'.sem = r.sem → (r.sem sem).used = true ∧
      (r'.sem sem).owner = (r.sem sem).owner ∨ (r'.sem sem).owner = some r.current := by
    intro same
    rw [same] at used
    exact Or.inl ⟨used, by rw [same]⟩
  cases step with
  | quiet => exact kept rfl
  | preempt => exact kept yield_sem
  | press => exact kept rfl
  | wake => exact kept yield_sem
  | fork => exact kept rfl
  | clone => exact kept rfl
  | exit =>
      rw [exit_eq] at used ⊢
      obtain ⟨before, owner⟩ := @foldl_sem r.current (r.owned r.current) r.retire sem
      have same : r.retire.sem = r.sem := by rw [retire_eq]
      rw [same] at before owner
      exact Or.inl ⟨before used, owner⟩
  | read fd buffer size =>
      refine kept ?_
      unfold Roster.read readFirst
      dsimp only
      split
      · exact readLoop_sem.trans (popKeys_sem _ _ _)
      · rfl
  | semInit nSem value sem' =>
      simp only [Roster.semCreate, note, Function.update_apply] at used ⊢
      grind
  | semTake nSem sem' =>
      simp only [Roster.semTake, Roster.semCount, note, Function.update_apply] at used ⊢
      grind
  | semBlock => exact kept rfl
  | semRaise nSem sem' =>
      simp only [Roster.semRaise, Roster.semCount, note, Function.update_apply] at used ⊢
      grind
  | semGrant => exact kept rfl
  | semDestroy nSem sem' owner =>
      simp only [semDestroy_eq, Function.update_apply] at used ⊢
      grind
  | resume => exact kept rfl
  | resumeWait =>
      refine kept ?_
      unfold waitReturn
      split <;> rfl
  | resumeFirst => exact kept (readLoop_sem.trans (popKeys_sem _ _ _))
  | resumeLoop => exact kept (readLoop_sem.trans (popKeys_sem _ _ _))

/-- A task struct that comes to life owns no semaphore. -/
theorem Sound.newborn (sound : Sound r) {label : Option Action} {seen : Seen}
    (step : Step seen r label r')
    (dead : ¬ r.live task) (used : (r'.sem sem).used = true) :
    (r'.sem sem).owner ≠ some task := by
  intro mine
  rcases step.owned used with ⟨before, same⟩ | current
  · obtain ⟨owner, owned, fine, _⟩ := sound.owners.owner sem before
    rw [same, owned, Option.some.injEq] at mine
    exact dead (mine ▸ fine.1)
  · rw [current, Option.some.injEq] at mine
    exact dead (mine ▸ live_of_running sound.running)

/-- The semaphores of a dying task and those who wait for them. -/
structure Orphaned (r s : Roster) (sem : SemId) : Prop where
  owner : (s.sem sem).owner = (r.sem sem).owner
  fate : sem ∈ s.owned r.current ∧ (∀ t ∈ r.queue (.waiters sem), t ∈ s.queue (.waiters sem)) ∨
    (s.sem sem).used = false ∧
      ∀ t ∈ r.queue (.waiters sem), t ∈ s.queue .ready ∧ (s.task t).aborted = true

theorem Orphaned.semDestroy {s : Roster} (orphaned : Orphaned r s sem) {other : SemId} :
    Orphaned r (Roster.semDestroy r.current s other) sem := by
  have aborted : ∀ t, (s.task t).aborted = true ∨ t ∈ s.queue (.waiters other) →
      ((Roster.semDestroy r.current s other).task t).aborted = true := by
    intro t flag
    rw [semDestroy_eq]
    simp only
    split
    · rfl
    · rename_i outside
      exact flag.resolve_right outside
  refine ⟨?_, ?_⟩
  · rw [← orphaned.owner]
    simp only [semDestroy_eq, Function.update_apply]
    grind
  · rcases orphaned.fate with ⟨owned, waiting⟩ | ⟨unused, woken⟩
    · by_cases same : sem = other
      · right
        subst same
        refine ⟨by simp [semDestroy_eq], fun t member => ⟨?_, aborted t (Or.inr (waiting t member))⟩⟩
        exact mem_semDestroy.mpr (Or.inl ⟨rfl, waiting t member⟩)
      · left
        refine ⟨?_, fun t member => mem_semDestroy.mpr (Or.inr ⟨waiting t member, by simpa using same⟩)⟩
        rw [semDestroy_eq]
        simp only [Function.update_self]
        exact (List.mem_erase_of_ne same).mpr owned
    · right
      refine ⟨?_, fun t member => ⟨?_, aborted t (Or.inl (woken t member).2)⟩⟩
      · simp only [semDestroy_eq, Function.update_apply]
        grind
      · exact mem_semDestroy.mpr (Or.inr ⟨(woken t member).1, by simp⟩)

/-- What `exit` does to a semaphore of the dying task. -/
theorem Sound.exit_orphaned (sound : Sound r) (user : r.mode = .user) (busy : r.current ≠ r.idle)
    (used : (r.sem sem).used = true) (mine : (r.sem sem).owner = some r.current) :
    (r.exit.sem sem).used = false ∧ ∀ t ∈ r.queue (.waiters sem),
      (r.exit.task t).aborted = true ∧ (t ∈ r.exit.queue .ready ∨ t = r.exit.current) := by
  have listed : sem ∈ r.owned r.current := (sound.owners.listed sem r.current).mpr ⟨used, mine⟩
  have owned : r.retire.owned r.current = r.owned r.current := by rw [retire_eq]
  have start : Dying r r.retire ∧ Orphaned r r.retire sem := by
    refine ⟨sound.dying user busy, ⟨by rw [retire_eq], Or.inl ⟨owned ▸ listed, ?_⟩⟩⟩
    intro t member
    rw [retire_eq]
    simpa using member
  obtain ⟨⟨dying, orphaned⟩, none⟩ := foldl_semDestroy
    (fun s => Dying r s ∧ Orphaned r s sem)
    (fun s other both member => ⟨both.1.semDestroy member, both.2.semDestroy⟩)
    (r.owned r.current) r.retire start owned
  rw [exit_eq]
  generalize (r.owned r.current).foldl (Roster.semDestroy r.current) r.retire = s at *
  rcases orphaned.fate with ⟨left, _⟩ | ⟨unused, woken⟩
  · rw [none] at left
    cases left
  · refine ⟨unused, fun t member => ?_⟩
    obtain ⟨ready, flagged⟩ := woken t member
    have queues : ({ s with owned := Function.update s.owned r.current [] } : Roster).QueueSound :=
      dying.steady.queues.congr rfl (fun _ => rfl) rfl
    refine ⟨?_, ?_⟩
    · simp only [schedNext, setState, setTask, setQueue, Function.update_apply]
      grind
    · rw [mem_schedNext queues]
      by_cases chosen : t = s.nextTask
      · exact Or.inr chosen
      · exact Or.inl ⟨ready, chosen⟩

end Roster

/-! ### In the kernel -/

variable {k k' : Kernel} {r : Roster} {task : TaskId} {sem : SemId}

/-- `sem` is in use and belongs to `task`. -/
def Kernel.Owns (k : Kernel) (task : TaskId) (sem : SemId) : Prop :=
  (k.semaphores sem).used = true ∧ (k.semaphores sem).owner = some task

/-- Every semaphore in use has a live owner, is on the list of this task once and
on no other list; the list of a live task holds its semaphores and no others; and
nobody waits for a semaphore that is not in use. -/
structure Kernel.OwnersConsistent (k : Kernel) : Prop where
  owner : ∀ sem, (k.semaphores sem).used = true → ∃ task, k.Owns task sem ∧
    (k.tasks task).state ≠ .invalid ∧ k.onList (.semaphores task) (.semAnchor sem)
  alone : ∀ sem head, head.isHead = true → k.onList head (.semAnchor sem) →
    ∃ task, head = .semaphores task ∧ k.Owns task sem
  list : ∀ task, (k.tasks task).state ≠ .invalid → ∃ sems : List SemId,
    Ring k.links (.semaphores task) (sems.map .semAnchor) ∧ ∀ sem, sem ∈ sems ↔ k.Owns task sem
  waited : ∀ sem task, k.onList (.blocked sem) (.anchor task) → (k.semaphores sem).used = true

theorem Refines.owns_iff (ref : Refines k r) (sound : Roster.Sound r) :
    k.Owns task sem ↔ sem ∈ r.owned task := by
  rw [sound.owners.listed, Kernel.Owns, ref.sems]

theorem Refines.ownersConsistent (ref : Refines k r) (sound : Roster.Sound r) :
    k.OwnersConsistent where
  owner sem used := by
    rw [ref.sems] at used
    obtain ⟨task, owner, fine, _⟩ := sound.owners.owner sem used
    have owns : k.Owns task sem := by
      rw [Kernel.Owns, ref.sems]
      exact ⟨used, owner⟩
    refine ⟨task, owns, ?_, ?_⟩
    · rw [ref.state_eq]
      exact fine.1
    · rw [ref.onList_iff rfl]
      exact ⟨_, family_semaphores (sound.identity.born task fine.1),
        List.mem_map.mpr ⟨sem, (ref.owns_iff sound).mp owns, rfl⟩⟩
  alone sem head isHead inside := by
    obtain ⟨members, stored, member⟩ := (ref.onList_iff isHead).mp inside
    rcases family_member stored member with ⟨_, _, _, same, _⟩ | ⟨_, _, same, _⟩ |
      ⟨task, s, rfl, same, owned⟩
    · cases same
    · cases same
    · cases same
      exact ⟨task, rfl, (ref.owns_iff sound).mpr owned⟩
  list task alive := by
    rw [ref.state_eq] at alive
    exact ⟨r.owned task, ref.lists.ring (family_semaphores (sound.identity.born task alive)),
      fun sem => (ref.owns_iff sound).symm⟩
  waited sem task inside := by
    have member := (ref.onQueue_iff sound (q := .waiters sem)).mp inside
    rw [ref.sems]
    by_contra unused
    rw [Bool.not_eq_true] at unused
    rw [sound.owners.unused sem unused] at member
    cases member

/-- Whoever did not create a semaphore cannot destroy it. -/
theorem Refines.destroy_refused (ref : Refines k r) (sound : Roster.Sound r) {nSem : Int}
    (index : semAt nSem = some sem)
    (stranger : History.creator sem k.trace ≠ some k.currentTask.pid) :
    (k.sysSemDestroy nSem).1 = k ∧ (k.sysSemDestroy nSem).2 < 0 := by
  unfold Kernel.sysSemDestroy
  rw [index]
  dsimp only
  split
  · exact ⟨rfl, show -EINVAL < 0 by decide⟩
  · rename_i notUnused
    have used : (r.sem sem).used = true := by simpa [ref.sems] using notUnused
    obtain ⟨owner, owned, _, made⟩ := sound.owners.owner sem used
    have pid : k.ownerPid sem = History.creator sem k.trace := by
      rw [Kernel.ownerPid, ref.sems, owned, ref.trace, made, ← ref.core]
      rfl
    rw [if_pos (by rw [pid]; exact stranger.symm)]
    exact ⟨rfl, show (-1 : Int) < 0 by decide⟩

theorem step_exit (stepped : k.step (some (.call .exit)) = some k') :
    k.mode = .user ∧ k.current ≠ k.idleTask ∧ k' = k.updateEnteringSys.sysExit.1.leave := by
  unfold Kernel.step at stepped
  split at stepped
  · cases stepped
  · split at stepped
    · rename_i action mode label
      cases label
      split at stepped
      · rename_i enabled
        exact ⟨mode, by simpa [Kernel.enabled] using enabled, (Option.some.inj stepped).symm⟩
      · cases stepped
    · rename_i none
      cases none
    · cases stepped

/-- After `sys_exit` no semaphore of the dead task is in use, and those who waited
for one are ready, or already chosen, with `sem_deleted` set. -/
theorem Refines.exit_orphans (ref : Refines k r) (sound : Roster.Sound r)
    (stepped : k.step (some (.call .exit)) = some k') (owns : k.Owns k.current sem) :
    (k'.semaphores sem).used = false ∧ ∀ task, k.onList (.blocked sem) (.anchor task) →
      (k'.tasks task).semDeleted = true ∧
        (k'.onList .readyqueue (.anchor task) ∨ task = k'.current) := by
  obtain ⟨mode, busy, rfl⟩ := step_exit stepped
  have user : r.mode = .user := ref.mode.symm.trans mode
  rw [ref.current, ref.idle] at busy
  have entered : Refines k.updateEnteringSys r := ref.of_view view_updateEnteringSys
  have after : Refines k.updateEnteringSys.sysExit.1.leave r.exit :=
    (entered.sysExit sound user busy).of_view view_leave
  have sound' : Roster.Sound r.exit := sound.step (@Roster.Step.exit k.seen r user busy)
  rw [ref.current, Kernel.Owns, ref.sems] at owns
  obtain ⟨unused, woken⟩ := sound.exit_orphaned user busy owns.1 owns.2
  refine ⟨by rw [after.sems]; exact unused, fun task waiting => ?_⟩
  have member := (ref.onQueue_iff sound (q := .waiters sem)).mp waiting
  obtain ⟨flagged, place⟩ := woken task member
  refine ⟨(congrArg TaskCore.aborted (after.core task)).trans flagged, ?_⟩
  rw [after.current]
  exact place.imp_left (after.onQueue_iff sound' (q := .ready)).mpr

/-- A new process owns no semaphore, whoever had its task struct before. -/
theorem Refines.newborn_owns_none (ref : Refines k r) (sound : Roster.Sound r)
    {label : Option Action} (stepped : k.step label = some k')
    (dead : (k.tasks task).state = .invalid) : ¬ k'.Owns task sem := by
  obtain ⟨r', step, after, _⟩ := ref.step sound stepped
  rintro ⟨used, mine⟩
  rw [after.sems] at used mine
  rw [ref.state_eq] at dead
  exact sound.newborn step (fun alive => alive dead) used mine

/-- Ownership in every state reached: it is consistent; an exit destroys what the
dying task owns and wakes those who waited; a task struct that was free owns
nothing after the next step; and a task that did not create a semaphore cannot
destroy it. -/
theorem semaphore_ownership {k : Kernel} (reached : Reachable anyAction k) :
    k.OwnersConsistent ∧
    (∀ k' sem, k.step (some (.call .exit)) = some k' → k.Owns k.current sem →
      (k'.semaphores sem).used = false ∧ ∀ task, k.onList (.blocked sem) (.anchor task) →
        (k'.tasks task).semDeleted = true ∧
          (k'.onList .readyqueue (.anchor task) ∨ task = k'.current)) ∧
    (∀ label k' task sem, k.step label = some k' → (k.tasks task).state = .invalid →
      ¬ k'.Owns task sem) ∧
    ∀ nSem sem, semAt nSem = some sem → History.creator sem k.trace ≠ some k.currentTask.pid →
      (k.sysSemDestroy nSem).1 = k ∧ (k.sysSemDestroy nSem).2 < 0 := by
  obtain ⟨r, ref, sound⟩ := reachable_sound reached
  exact ⟨ref.ownersConsistent sound, fun _ _ stepped owns => ref.exit_orphans sound stepped owns,
    fun _ _ _ _ stepped dead => ref.newborn_owns_none sound stepped dead,
    fun _ _ index stranger => ref.destroy_refused sound index stranger⟩

/-- A child waits for the semaphore of task 1, which is about to exit. -/
def orphanRun : List (Option Action) :=
  [some (.call .fork), some (.call (.semInit 3 0)), some (.call (.read 0 0x108000 1)), none,
    some (.call (.semWait 3)), none, some (.keyboard 0x1e), none]

theorem semaphore_ownership_orphan :
    let k := Kernel.after everyStep orphanRun
    k.OwnersConsistent ∧
    (∀ k' sem, k.step (some (.call .exit)) = some k' → k.Owns k.current sem →
      (k'.semaphores sem).used = false ∧ ∀ task, k.onList (.blocked sem) (.anchor task) →
        (k'.tasks task).semDeleted = true ∧
          (k'.onList .readyqueue (.anchor task) ∨ task = k'.current)) ∧
    (∀ label k' task sem, k.step label = some k' → (k.tasks task).state = .invalid →
      ¬ k'.Owns task sem) ∧
    ∀ nSem sem, semAt nSem = some sem → History.creator sem k.trace ≠ some k.currentTask.pid →
      (k.sysSemDestroy nSem).1 = k ∧ (k.sysSemDestroy nSem).2 < 0 :=
  semaphore_ownership (reached_after (by decide +kernel)).any

end Zeos
