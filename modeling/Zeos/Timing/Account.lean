import Zeos.Timing

set_option autoImplicit false

/-! The accounts of the tasks: every reading of the clock is charged to what the task was
doing since the one before. -/

namespace Zeos

/-- What the statistics hold for a phase. -/
def Stats.bucket (st : Stats) : Phase → DWord
  | .user => st.userTicks
  | .system => st.systemTicks
  | .ready => st.readyTicks
  | .blocked => st.blockedTicks
  | .dead => 0

/-- The time in all phases. -/
def Stats.sum (st : Stats) : DWord :=
  st.userTicks + st.systemTicks + st.blockedTicks + st.readyTicks

/-- An interval is added to the bucket of one phase, and to no other. -/
structure Charged (phase : Phase) (incr : DWord) (st st' : Stats) : Prop where
  lives : phase ≠ .dead
  bucket : ∀ p, st'.bucket p = if p = phase then st.bucket p + incr else st.bucket p

theorem Charged.sum {phase : Phase} {incr : DWord} {st st' : Stats}
    (charged : Charged phase incr st st') : st'.sum = st.sum + incr := by
  have user := charged.bucket .user
  have system := charged.bucket .system
  have ready := charged.bucket .ready
  have blocked := charged.bucket .blocked
  simp only [Stats.bucket] at user system ready blocked
  simp only [Stats.sum, user, system, ready, blocked]
  cases phase with
  | dead => exact absurd rfl charged.lives
  | user =>
      simp only [↓reduceIte, reduceCtorEq]
      ac_rfl
  | system =>
      simp only [↓reduceIte, reduceCtorEq]
      ac_rfl
  | ready =>
      simp only [↓reduceIte, reduceCtorEq]
      ac_rfl
  | blocked =>
      simp only [↓reduceIte, reduceCtorEq]
      ac_rfl

variable {task : TaskId} {mark older newest : Mark} {marks newer earlier : List Mark}

/-- The latest reading for a task; those after it find the task in the same phase. -/
inductive Latest (task : TaskId) : List Mark → Mark → Prop where
  | here {mark : Mark} {earlier : List Mark} : mark.task = task → Latest task (mark :: earlier) mark
  | later {mark newest : Mark} {earlier : List Mark} : newest.task ≠ task →
      newest.phases task = mark.phases task → Latest task earlier mark →
      Latest task (newest :: earlier) mark

/-- A reading is right, given those before it: it starts the account of the task, or
charges the time since the one before. -/
structure Mark.Right (mark : Mark) (earlier : List Mark) : Prop where
  elapsed : mark.st.elapsedTotalTicks = mark.value
  first : mark.event = .freeToReady → mark.st.sum = 0
  next : mark.event ≠ .freeToReady → ∃ before, Latest mark.task earlier before ∧
    Charged (before.phases mark.task) (mark.value - before.value) before.st mark.st

/-- All readings for a task are right. -/
def Ledger (task : TaskId) : List Mark → Prop
  | [] => True
  | mark :: earlier => (mark.task = task → mark.Right earlier) ∧ Ledger task earlier

theorem Ledger.drop (ledger : Ledger task (newer ++ earlier)) : Ledger task earlier := by
  induction newer with
  | nil => exact ledger
  | cons first rest ih => exact ih ledger.2

theorem Latest.task_eq (latest : Latest task marks mark) : mark.task = task := by
  induction latest with
  | here same => exact same
  | later _ _ _ ih => exact ih

/-- The latest reading of a list that shows it. -/
theorem Latest.unique (latest : Latest task (newer ++ older :: earlier) mark)
    (apart : ∀ other ∈ newer, other.task ≠ task) (mine : older.task = task) :
    mark = older ∧ ∀ other ∈ newer, other.phases task = older.phases task := by
  induction newer with
  | nil =>
      cases latest with
      | here _ => exact ⟨rfl, by simp⟩
      | later other _ _ => exact absurd mine other
  | cons first rest ih =>
      cases latest with
      | here same => exact absurd same (apart _ (by simp))
      | later _ phase latest =>
          obtain ⟨rfl, phases⟩ := ih latest fun other inside => apart other (by simp [inside])
          refine ⟨rfl, fun other inside => ?_⟩
          rcases List.mem_cons.mp inside with rfl | inside
          · exact phase
          · exact phases other inside

/-- Where the latest reading is in the list. -/
theorem Latest.split (latest : Latest task marks mark) : ∃ newer earlier,
    marks = newer ++ mark :: earlier ∧
      ∀ other ∈ newer, other.task ≠ task ∧ other.phases task = mark.phases task := by
  induction latest with
  | here _ => exact ⟨[], _, rfl, by simp⟩
  | @later mark newest earlier apart phase _ ih =>
      obtain ⟨newer, rest, rfl, others⟩ := ih
      refine ⟨newest :: newer, rest, rfl, fun other inside => ?_⟩
      rcases List.mem_cons.mp inside with rfl | inside
      · exact ⟨apart, phase⟩
      · exact others other inside

/-- The time accounted for since the account was started. -/
theorem Ledger.total (ledger : Ledger task marks) (latest : Latest task marks mark) :
    ∃ newer start earlier, marks = newer ++ start :: earlier ∧ start.task = task ∧
      start.event = .freeToReady ∧
      (∀ other ∈ newer, other.task = task → other.event ≠ .freeToReady) ∧
      mark.st.sum = mark.value - start.value := by
  induction marks generalizing mark with
  | nil => cases latest
  | cons first rest ih =>
      cases latest with
      | here mine =>
          have right := ledger.1 mine
          by_cases start : first.event = .freeToReady
          · refine ⟨[], first, rest, rfl, mine, start, by simp, ?_⟩
            rw [right.first start, BitVec.sub_self]
            rfl
          · obtain ⟨before, latest, charged⟩ := right.next start
            rw [mine] at latest
            obtain ⟨newer, begin, earlier, rfl, same, event, others, sum⟩ := ih ledger.2 latest
            refine ⟨first :: newer, begin, earlier, rfl, same, event, ?_, ?_⟩
            · intro other inside mine'
              rcases List.mem_cons.mp inside with rfl | inside
              · exact start
              · exact others other inside mine'
            · rw [charged.sum, sum]
              bv_omega
      | later apart _ latest =>
          obtain ⟨newer, begin, earlier, rfl, same, event, others, sum⟩ := ih ledger.2 latest
          refine ⟨first :: newer, begin, earlier, rfl, same, event, ?_, sum⟩
          intro other inside mine
          rcases List.mem_cons.mp inside with rfl | inside
          · exact absurd mine apart
          · exact others other inside mine

/-! ### The accounts in a run -/

namespace Timing

variable {c c' : Timing} {e : Event} {next : TaskId}

/-- The latest reading for a task tells what it is doing and what it has on its account. -/
structure Open (c : Timing) (task : TaskId) (mark : Mark) : Prop where
  latest : Latest task c.marks mark
  phase : mark.phases task = c.phase task
  bucket : ∀ p, (c.st task).bucket p = mark.st.bucket p
  elapsed : (c.st task).elapsedTotalTicks = mark.value

/-- The accounts of all tasks but idle. -/
structure Accounted (c : Timing) : Prop where
  books : ∀ t, t ≠ c.idle → Ledger t c.marks
  opened : ∀ t, t ≠ c.idle → c.state t ≠ .invalid → ∃ mark, c.Open t mark

/-- What is accounted for depends on these. -/
theorem Accounted.congr (accounted : Accounted c) (c' : Timing) (idle : c'.idle = c.idle)
    (marks : c'.marks = c.marks)
    (state : ∀ t, t ≠ c.idle → c'.state t ≠ .invalid →
      c.state t ≠ .invalid ∧ c'.phase t = c.phase t)
    (st : ∀ t, (c'.st t).elapsedTotalTicks = (c.st t).elapsedTotalTicks ∧
      ∀ p, (c'.st t).bucket p = (c.st t).bucket p) : Accounted c' := by
  constructor
  · intro t other
    rw [marks]
    exact accounted.books t (idle ▸ other)
  · intro t other alive
    rw [idle] at other
    obtain ⟨lives, phase⟩ := state t other alive
    obtain ⟨mark, opened⟩ := accounted.opened t other lives
    refine ⟨mark, ?_, ?_, ?_, ?_⟩
    · rw [marks]
      exact opened.latest
    · rw [phase]
      exact opened.phase
    · exact fun p => ((st t).2 p).trans (opened.bucket p)
    · exact (st t).1.trans opened.elapsed

/-- A reading for a task, while the others go on with what they do. -/
theorem Accounted.read (accounted : Accounted c) (c₁ : Timing) (idle : c₁.idle = c.idle)
    (marks : c₁.marks = c.marks)
    (others : ∀ t, t ≠ c.idle → t ≠ task → c₁.state t ≠ .invalid →
      c.state t ≠ .invalid ∧ c₁.phase t = c.phase t ∧ c₁.st t = c.st t)
    (right : task ≠ c.idle → Mark.Right ⟨task, e, c₁.clock c₁.reads, c₁.stamped task e, c₁.phase⟩
      c.marks) : Accounted (c₁.stamp task e) := by
  have history : (c₁.stamp task e).marks =
      ⟨task, e, c₁.clock c₁.reads, c₁.stamped task e, c₁.phase⟩ :: c.marks :=
    congrArg (List.cons _) marks
  constructor
  · intro t other
    have other' : t ≠ c.idle := idle ▸ other
    rw [history]
    refine ⟨fun mine => ?_, accounted.books t other'⟩
    cases mine
    exact right other'
  · intro t other alive
    have other' : t ≠ c.idle := idle ▸ other
    rw [idle] at *
    by_cases mine : t = task
    · subst mine
      refine ⟨⟨t, e, c₁.clock c₁.reads, c₁.stamped t e, c₁.phase⟩, ?_, rfl, ?_, ?_⟩
      · rw [history]
        exact .here rfl
      · intro p
        show (Function.update c₁.st t (c₁.stamped t e) t).bucket p = _
        rw [Function.update_self]
      · show (Function.update c₁.st t (c₁.stamped t e) t).elapsedTotalTicks = _
        rw [Function.update_self]
        rfl
    · obtain ⟨lives, phase, st⟩ := others t other' mine alive
      obtain ⟨mark, opened⟩ := accounted.opened t other' lives
      have kept : (c₁.stamp task e).st t = c.st t :=
        (Function.update_of_ne mine ..).trans st
      refine ⟨mark, ?_, ?_, ?_, ?_⟩
      · rw [history]
        exact .later (Ne.symm mine) (phase.trans opened.phase.symm) opened.latest
      · exact opened.phase.trans phase.symm
      · rw [kept]
        exact opened.bucket
      · rw [kept]
        exact opened.elapsed

/-- The phase that an event ends. -/
def ends : Event → Phase
  | .userToSys => .user
  | .sysToUser | .sysToReady | .sysToBlocked => .system
  | .readyToSys => .ready
  | .blockedToReady => .blocked
  | .freeToReady | .quantumUpdated | .currentTicksUpdated | .refresh => .dead

theorem charged_credit {incr : DWord} (lives : ends e ≠ .dead) :
    Charged (ends e) incr (c.st task) (c.credit task e incr) := by
  refine ⟨lives, fun p => ?_⟩
  cases e with
  | freeToReady => exact absurd rfl lives
  | quantumUpdated => exact absurd rfl lives
  | currentTicksUpdated => exact absurd rfl lives
  | refresh => exact absurd rfl lives
  | _ =>
      cases p <;> rfl

/-- A task that waits is charged for its wait. -/
theorem charged_refresh {incr : DWord} (waits : c.state task = .ready ∨ c.state task = .blocked) :
    Charged (c.phase task) incr (c.st task) (c.credit task .refresh incr) := by
  rcases waits with ready | blocked
  · simp only [phase, credit, ready]
    exact ⟨by simp, fun p => by cases p <;> rfl⟩
  · simp only [phase, credit, blocked]
    exact ⟨by simp, fun p => by cases p <;> rfl⟩

/-- The interval since the last reading is charged to the phase it was spent in. -/
theorem Accounted.charge (accounted : Accounted c) (c₁ : Timing) (idle : c₁.idle = c.idle)
    (marks : c₁.marks = c.marks) (st : c₁.st = c.st)
    (others : ∀ t, t ≠ c.idle → t ≠ task → c₁.state t ≠ .invalid →
      c.state t ≠ .invalid ∧ c₁.phase t = c.phase t)
    (later : e ≠ .freeToReady)
    (mine : task ≠ c.idle → c.state task ≠ .invalid ∧
      ∀ incr, Charged (c.phase task) incr (c₁.st task) (c₁.credit task e incr)) :
    Accounted (c₁.stamp task e) := by
  apply accounted.read c₁ idle marks
  · intro t other apart alive
    obtain ⟨lives, phase⟩ := others t other apart alive
    exact ⟨lives, phase, by rw [st]⟩
  · intro other
    obtain ⟨lives, charged⟩ := mine other
    obtain ⟨mark, opened⟩ := accounted.opened task other lives
    refine ⟨rfl, fun start => absurd start later, fun _ => ⟨mark, opened.latest, ?_⟩⟩
    have incr : c₁.clock c₁.reads - (c₁.st task).elapsedTotalTicks =
        c₁.clock c₁.reads - mark.value := by
      rw [st, opened.elapsed]
    have paid := charged (c₁.clock c₁.reads - mark.value)
    show Charged (mark.phases task) (c₁.clock c₁.reads - mark.value) mark.st (c₁.stamped task e)
    rw [opened.phase]
    refine ⟨paid.lives, fun p => ?_⟩
    have stamped : (c₁.stamped task e).bucket p =
        (c₁.credit task e (c₁.clock c₁.reads - mark.value)).bucket p := by
      rw [stamped, incr]
      cases p <;> rfl
    rw [stamped, paid.bucket p, st, opened.bucket p]

end Timing

end Zeos
