import Zeos.Properties.Scheduling
import Zeos.Timing.Boot
import Zeos.Timing.Kept

set_option autoImplicit false

/-! The accounts of time: what the statistics of a task hold after every reading of the
clock, and where each interval between two readings went. -/

namespace Zeos

variable {k k' : Kernel} {label : Option Action} {task : TaskId}

/-! ### Runs -/

theorem boot_kept (clock : Nat → DWord) : (Timing.boot clock).Kept := by
  have state : (Timing.boot clock).state =
      Function.update (Function.update (fun _ => .invalid) 0 .ready) 1 .run := rfl
  have marks : ∃ mark, (Timing.boot clock).marks = [mark] ∧ mark.task = 1 ∧
      mark.event = .freeToReady ∧ mark.st = (Timing.boot clock).st 1 ∧
      mark.phases 1 = .user ∧ mark.value = clock 0 := ⟨_, rfl, rfl, rfl, rfl, rfl, rfl⟩
  obtain ⟨mark, only, mine, start, st, phase, value⟩ := marks
  have elapsed : ((Timing.boot clock).st 1).elapsedTotalTicks = clock 0 := rfl
  have dead : ∀ t, t ≠ 0 → t ≠ 1 → (Timing.boot clock).state t = .invalid := by
    intro t idle first
    rw [state, Function.update_of_ne first, Function.update_of_ne idle]
  have alive : ∀ t, t ≠ (Timing.boot clock).idle → (Timing.boot clock).state t ≠ .invalid →
      t = 1 := by
    intro t other lives
    by_contra first
    exact lives (dead t other first)
  have running : (Timing.boot clock).state 1 = .run := rfl
  refine ⟨⟨?_, ?_⟩, ?_, ?_, fun _ => running, fun _ _ => rfl, nofun, nofun⟩
  · intro t _
    rw [only]
    refine ⟨fun _ => ⟨?_, fun _ => ?_, fun later => absurd start later⟩, trivial⟩
    · rw [st, elapsed, value]
    · rw [st]
      rfl
  · intro t other lives
    cases alive t other lives
    refine ⟨mark, ?_, ?_, fun p => by rw [st], ?_⟩
    · rw [only]
      exact .here mine
    · exact phase
    · rw [elapsed, value]
  · intro t other run
    exact alive t other (by simp [run])
  · intro t other apart waits
    have first := alive t other (by rcases waits with ready | blocked <;> simp [*])
    exact absurd first apart

theorem reachable_kept (reached : Reachable anyAction k) :
    ∃ r, Refines k r ∧ Roster.Sound r ∧ k.timing.Kept := by
  induction reached with
  | start booted =>
      obtain ⟨image, rfl⟩ := booted
      refine ⟨Roster.boot, boot_refines image, Roster.boot_sound, ?_⟩
      rw [boot_timing]
      exact boot_kept image.clock
  | next label _ _ stepped ih =>
      obtain ⟨r, ref, sound, kept⟩ := ih
      obtain ⟨r', _, after, sound', _⟩ := ref.turn sound stepped
      exact ⟨r', after, sound', (ref.step_timing sound stepped).kept kept⟩

/-! ### Accounts -/

/-- A reading `mark` for a task, and `before` the one before it. -/
def Consecutive (marks : List Mark) (before : Mark) (between : List Mark) (mark : Mark) : Prop :=
  ∃ newer earlier, marks = newer ++ mark :: (between ++ before :: earlier) ∧
    before.task = mark.task ∧ ∀ other ∈ between, other.task ≠ mark.task

/-- What a task does in its situation: the running one is in the kernel from its dispatch to
the end of its handler. -/
def Situation.phase (mode : Mode) : Situation → Phase
  | .free => .dead
  | .ready => .ready
  | .reading | .waiting _ => .blocked
  | .running => if mode = .switching then .system else .user

/-- The account of a task is exact: each interval went to the bucket of what the task was
doing all through it, the buckets add up, and nothing was lost since the last reading. -/
structure Kernel.Accounts (k : Kernel) (task : TaskId) : Prop where
  interval : ∀ before between mark, Consecutive k.marks before between mark →
    mark.task = task → mark.event ≠ .freeToReady →
    (∀ other ∈ between, other.phases task = before.phases task) ∧
      Charged (before.phases task) (mark.value - before.value) before.st mark.st
  total : ∀ newer mark earlier, k.marks = newer ++ mark :: earlier → mark.task = task →
    ∃ since start older, mark :: earlier = since ++ start :: older ∧ start.task = task ∧
      start.event = .freeToReady ∧
      (∀ other ∈ since, other.task = task → other.event ≠ .freeToReady) ∧
      mark.st.sum = mark.st.elapsedTotalTicks - start.value
  place : ∃ s, k.Settled task s ∧ k.phase task = s.phase k.mode
  last : (k.tasks task).state ≠ .invalid → ∃ newer mark earlier,
    k.marks = newer ++ mark :: earlier ∧ mark.task = task ∧
      (∀ other ∈ newer, other.task ≠ task ∧ other.phases task = k.phase task) ∧
      mark.phases task = k.phase task ∧
      (∀ p, (k.tasks task).st.bucket p = mark.st.bucket p) ∧
      (k.tasks task).st.elapsedTotalTicks = mark.st.elapsedTotalTicks

/-- Time accounting is exact for every task but idle, whatever the clock reads. -/
theorem time_exact (reached : Reachable anyAction k) (other : task ≠ k.idleTask) :
    k.Accounts task := by
  obtain ⟨r, ref, sound, kept⟩ := reachable_kept reached
  have ledger : Ledger task k.marks := kept.books task other
  have rightMark : ∀ newer mark earlier, k.marks = newer ++ mark :: earlier → mark.task = task →
      mark.Right earlier := by
    intro newer mark earlier split mine
    rw [split] at ledger
    exact ledger.drop.1 mine
  refine ⟨?_, ?_, ?_, ?_⟩
  · rintro before between mark ⟨newer, earlier, split, same, apart⟩ mine later
    obtain ⟨found, latest, charged⟩ :=
      (rightMark newer mark _ split mine).next later
    rw [mine] at latest apart charged
    obtain ⟨rfl, phases⟩ := latest.unique apart (same.trans mine)
    exact ⟨phases, charged⟩
  · intro newer mark earlier split mine
    rw [split] at ledger
    have tail : Ledger task (mark :: earlier) := ledger.drop
    obtain ⟨since, start, older, whole, task, event, others, sum⟩ := tail.total (.here mine)
    exact ⟨since, start, older, whole, task, event, others, by rw [sum, (tail.1 mine).elapsed]⟩
  · obtain ⟨s, settled⟩ := (process_in_one_situation reached).1 task other
    refine ⟨s, settled, ?_⟩
    unfold Kernel.phase
    rw [settled.state]
    cases s with
    | free => rfl
    | ready => rfl
    | reading => rfl
    | waiting sem => rfl
    | running =>
        have mine : task = k.current := settled.inside.1
        have busy : k.current ≠ k.idleTask := mine ▸ other
        show (if k.handling = true then Phase.system else .user) =
          if k.mode = .switching then .system else .user
        cases mode : k.mode with
        | user =>
            rw [show k.handling = false from kept.user mode busy]
            rfl
        | switching =>
            rw [show k.handling = true from kept.switching mode]
            rfl
  · intro alive
    obtain ⟨mark, opened⟩ := kept.opened task other alive
    obtain ⟨newer, earlier, split, others⟩ := opened.latest.split
    have mine := opened.latest.task_eq
    refine ⟨newer, mark, earlier, split, mine, ?_, opened.phase, opened.bucket, ?_⟩
    · intro other inside
      exact ⟨(others other inside).1, (others other inside).2.trans opened.phase⟩
    · rw [(rightMark newer mark earlier split mine).elapsed]
      exact opened.elapsed

/-- The first task forks, and waits for the keyboard while its child runs. -/
theorem time_exact_blocked :
    (Kernel.after everyStep [some (.call .fork), some (.call (.read 0 0x108000 1)), none,
      some .clock]).Accounts 1 :=
  time_exact (reached_after (by decide +kernel)).any (by decide +kernel)

end Zeos
