import Zeos.Properties.Semaphores

set_option autoImplicit false

/-! What semaphores give the programs that use them: tasks that wait before a section of code
and signal after it share no more permits than the semaphore was created with. -/

namespace Zeos

variable {k k' : Kernel} {r r' : Roster} {label : Option Action} {sem : SemId} {task : TaskId}

/-- The permits of a semaphore in its present lifetime: how many it was created with, and the
tasks that were granted one and have not signalled since. -/
structure Permits where
  total : DWord
  holders : List TaskId

/-- The permits of `sem` after an entry of the history, in a step that `running` takes. -/
def Permits.next (sem : SemId) (running : TaskId) (entry : Note) (p : Permits) : Permits :=
  match entry with
  | .semCreated s _ value => if s = sem then ⟨value, []⟩ else p
  | .semTaken s task => if s = sem then { p with holders := task :: p.holders } else p
  | .semRaised s => if s = sem then { p with holders := p.holders.erase running } else p
  | .semGranted s task =>
      if s = sem then { p with holders := task :: p.holders.erase running } else p
  | _ => p

/-- What a step added to the history. -/
def Kernel.newNotes (k k' : Kernel) : List Note := k'.trace.take (k'.trace.length - k.trace.length)

/-- A step of the kernel beside the permits of `sem`. -/
def permitStep (sem : SemId) (state : Kernel × Permits) (label : Option Action) :
    Option (Kernel × Permits) :=
  (state.1.step label).map fun k' =>
    (k', (state.1.newNotes k').foldr (Permits.next sem state.1.current) state.2)

/-- Only a task that holds a permit of `sem` signals it. -/
def holderSignals (sem : SemId) (state : Kernel × Permits) : Option Action → Bool
  | some (.call (.semSignal nSem)) => (semAt nSem.toInt).all fun s =>
      !decide (s = sem) || !(state.1.semaphores sem).used ||
        state.2.holders.any fun task => decide (task = state.1.current)
  | _ => true

/-- The states of a machine whose tasks use `sem` so, with its permits. -/
abbrev UsedAsPermits (sem : SemId) : Kernel × Permits → Prop :=
  Transition.Reachable (permitStep sem) (fun state label => holderSignals sem state label = true)
    fun state => Booted state.1 ∧ state.2 = ⟨0, []⟩

theorem newNotes_eq {notes : List Note} (grown : k'.trace = notes ++ k.trace) :
    k.newNotes k' = notes := by
  rw [Kernel.newNotes, grown, List.length_append, Nat.add_sub_cancel, List.take_left]

/-! ### What a step does to the permits -/

/-- An entry that is no business of the permits of `sem`. -/
def Note.passes (sem : SemId) : Note → Prop
  | .semCreated s _ _ | .semTaken s _ | .semRaised s | .semGranted s _ => s ≠ sem
  | _ => True

theorem next_of_passes {entry : Note} (passes : entry.passes sem) (running : TaskId)
    (p : Permits) : Permits.next sem running entry p = p := by
  cases entry <;> first | rfl | exact if_neg passes

theorem foldr_of_passes {notes : List Note} (passes : ∀ entry ∈ notes, entry.passes sem)
    (running : TaskId) (p : Permits) : notes.foldr (Permits.next sem running) p = p := by
  induction notes with
  | nil => rfl
  | cons entry rest ih =>
      rw [List.foldr_cons, ih fun entry member => passes entry (List.mem_cons_of_mem _ member)]
      exact next_of_passes (passes _ List.mem_cons_self) running p

namespace Roster

/-- `sem` keeps its counter, or is destroyed, and no permit moves. -/
structure Still (sem : SemId) (r r' : Roster) : Prop where
  kept : (r'.sem sem).used = true → r'.sem sem = r.sem sem
  trace : ∃ notes, r'.trace = notes ++ r.trace ∧ ∀ entry ∈ notes, entry.passes sem

theorem Still.of_eq (sems : r'.sem = r.sem) (trace : r'.trace = r.trace) : Still sem r r' :=
  ⟨fun _ => by rw [sems], [], trace, by simp⟩

theorem Still.trans {middle : Roster} (first : Still sem r middle) (second : Still sem middle r') :
    Still sem r r' := by
  obtain ⟨notes, grown, passes⟩ := first.trace
  obtain ⟨more, grownMore, passesMore⟩ := second.trace
  refine ⟨fun used => ?_, more ++ notes, ?_, ?_⟩
  · have same := second.kept used
    rw [same]
    exact first.kept (same ▸ used)
  · rw [grownMore, grown, List.append_assoc]
  · intro entry member
    rcases List.mem_append.mp member with late | early
    · exact passesMore entry late
    · exact passes entry early

/-- One entry more. -/
theorem Still.entry (entry : Note) (passes : entry.passes sem) (sems : r'.sem = r.sem)
    (trace : r'.trace = entry :: r.trace) : Still sem r r' :=
  ⟨fun _ => by rw [sems], [entry], trace, by simpa using passes⟩

theorem Still.note (entry : Note) (passes : entry.passes sem) : Still sem r (r.note entry) :=
  Still.entry entry passes rfl rfl

/-- What a step changes of `sem`, a semaphore in use: it keeps its counter, it is new, or a
permit is taken, given back, or handed on. -/
inductive Moves (sem : SemId) (r : Roster) (label : Option Action) (r' : Roster) : Prop where
  | still : Still sem r r' → Moves sem r label r'
  | create (creator : Int) (value : DWord) : r'.trace = .semCreated sem creator value :: r.trace →
      (r'.sem sem).count = value.toInt → Moves sem r label r'
  | take : (r.sem sem).used = true → (r.sem sem).count ≠ 0 →
      r'.trace = .semTaken sem r.current :: r.trace →
      (r'.sem sem).count = (r.sem sem).count - 1 → Moves sem r label r'
  | raise (nSem : DWord) : label = some (.call (.semSignal nSem)) → semAt nSem.toInt = some sem →
      (r.sem sem).used = true → r'.trace = .semRaised sem :: r.trace →
      (r'.sem sem).count = (r.sem sem).count + 1 → Moves sem r label r'
  | grant (nSem : DWord) (task : TaskId) : label = some (.call (.semSignal nSem)) →
      semAt nSem.toInt = some sem → (r.sem sem).used = true →
      r'.trace = .semGranted sem task :: r.trace → r'.sem sem = r.sem sem → Moves sem r label r'

theorem still_yield : Still sem r r.yield := by
  apply Still.of_eq yield_sem
  rw [yield]
  split
  · rfl
  · rfl

theorem still_popKeys (size : Nat) (buffer : DWord) : ∀ (count : Nat) (r : Roster),
    Still sem r (r.popKeys size buffer count).1 := by
  induction size with
  | zero => exact fun count r => Still.of_eq rfl rfl
  | succ size ih =>
      intro count r
      rw [popKeys]
      split
      · exact Still.of_eq rfl rfl
      · rename_i key rest pending
        have delivered : Still sem r ({ r with pending := rest }.note
            (.delivered r.current (buffer + BitVec.ofNat 32 count) key)) :=
          Still.entry _ (by exact trivial) rfl rfl
        exact delivered.trans (ih _ _)

theorem still_readLoop {buffer : DWord} {totalSize size : Int} :
    Still sem r (r.readLoop buffer totalSize size) := by
  rw [readLoop]
  split
  · exact Still.of_eq rfl rfl
  · exact Still.note (.readDone r.current) trivial

theorem still_read {buffer : DWord} {size : Int} : Still sem r (r.read buffer size) := by
  have called : Still sem r (r.note (.readCalled r.current buffer size.toNat)) :=
    Still.note _ trivial
  unfold Roster.read
  dsimp only
  split
  · exact called.trans ((still_popKeys ..).trans still_readLoop)
  · exact called.trans (Still.of_eq rfl rfl)

/-- The destruction of a semaphore, this one or another. -/
theorem still_semDestroy {owner : TaskId} {other : SemId} :
    Still sem r (semDestroy owner r other) := by
  rw [semDestroy_eq]
  refine ⟨?_, (r.queue (.waiters other)).reverse.map (.semAborted other) ++ [.semDestroyed other],
    by simp, ?_⟩
  · intro used
    simp only [Function.update_apply] at used ⊢
    split
    · rename_i same
      rw [if_pos same] at used
      cases used
    · rfl
  · intro entry member
    simp only [List.mem_append, List.mem_map, List.mem_singleton] at member
    rcases member with ⟨_, _, rfl⟩ | rfl
    · trivial
    · trivial

theorem still_exit : Still sem r r.exit := by
  have retired : Still sem r r.retire := by
    rw [retire_eq]
    by_cases last : r.dirCount ((r.task r.current).dir.getD 0) - 1 = 0
    · exact Still.entry (.dirReleased ((r.task r.current).dir.getD 0)) trivial rfl (by simp only [last, if_true])
    · exact Still.of_eq rfl (by simp only [last, if_false])
  have owns : r.retire.owned r.current = r.owned r.current := by rw [retire_eq]
  have left := (foldl_semDestroy (Still sem r) (fun _ _ still _ => still.trans still_semDestroy)
    (r.owned r.current) r.retire retired owns).1
  rw [exit_eq]
  exact left.trans (Still.of_eq rfl rfl)

/-- An operation on another semaphore. -/
theorem still_other {other : SemId} {value : Semaphore} {entry : Note} (different : other ≠ sem)
    (sems : r'.sem = Function.update r.sem other value) (trace : r'.trace = entry :: r.trace)
    (passes : entry.passes sem) : Still sem r r' := by
  refine ⟨fun _ => ?_, [entry], trace, by simpa using passes⟩
  rw [sems, Function.update_of_ne (Ne.symm different)]

/-- The step lemma: one case per step of the abstract scheduler. -/
theorem Step.moves {seen : Seen} (step : Step seen r label r') (sem : SemId) :
    Moves sem r label r' := by
  cases step with
  | quiet action user => exact .still (Still.of_eq rfl rfl)
  | preempt user => exact .still (still_yield.trans (Still.of_eq rfl rfl))
  | press value key user pressed below room =>
      exact .still (Still.entry (.accepted key) trivial rfl rfl)
  | wake value key reader rest user pressed below queue =>
      have accepted : Still sem r (r.accept key) :=
        Still.entry (.accepted key) trivial rfl rfl
      exact .still (accepted.trans (still_yield.trans (Still.of_eq rfl rfl)))
  | fork task dir others dirs user busy pool free =>
      exact .still (Still.entry (.dirOpened dir) trivial rfl rfl)
  | clone function stack exitFunc task dir others user busy pool own =>
      exact .still (Still.of_eq rfl rfl)
  | exit user busy => exact .still still_exit
  | read fd buffer size user busy positive => exact .still still_read
  | semInit nSem value other user busy place unused =>
      by_cases same : other = sem
      · subst same
        exact .create _ value rfl (by simp [Roster.semCreate, Roster.note])
      · exact .still (still_other same rfl rfl same)
  | semTake nSem other user busy place used some =>
      by_cases same : other = sem
      · subst same
        exact .take used some rfl (by simp [Roster.semTake, Roster.semCount, Roster.note])
      · exact .still (still_other same rfl rfl same)
  | semBlock nSem other user busy place used none =>
      exact .still (Still.entry (.semBlocked other r.current) trivial rfl rfl)
  | semRaise nSem other user busy place used idle =>
      by_cases same : other = sem
      · subst same
        exact .raise nSem rfl place used rfl (by simp [Roster.semRaise, Roster.semCount, Roster.note])
      · exact .still (still_other same rfl rfl same)
  | semGrant nSem other task rest user busy place used waiting =>
      by_cases same : other = sem
      · subst same
        exact .grant nSem task rfl place used rfl rfl
      · exact .still (Still.entry (.semGranted other task) same rfl rfl)
  | semDestroy nSem other owner user busy place used own same => exact .still still_semDestroy
  | resume switching known => exact .still (Still.of_eq rfl rfl)
  | resumeWait other switching saved =>
      have woken : Still sem r { r with mode := .user } := Still.of_eq rfl rfl
      refine .still (woken.trans ?_)
      rw [waitReturn]
      split
      · exact Still.entry (.waitReturned r.current (-1)) trivial rfl rfl
      · exact Still.note (.waitReturned r.current 0) trivial
  | resumeFirst buffer size switching saved =>
      have woken : Still sem r { r with mode := .user } := Still.of_eq rfl rfl
      exact .still (woken.trans ((still_popKeys ..).trans still_readLoop))
  | resumeLoop buffer totalSize size switching saved =>
      have woken : Still sem r { r with mode := .user } := Still.of_eq rfl rfl
      exact .still (woken.trans ((still_popKeys ..).trans still_readLoop))

/-- The counter of `sem` is what its holders leave of the permits. -/
def Fair (r : Roster) (sem : SemId) (p : Permits) : Prop :=
  (r.sem sem).used = true → p.total.toNat < 2 ^ 31 →
    0 ≤ (r.sem sem).count ∧ (r.sem sem).count + p.holders.length = p.total.toNat

/-- What the task that takes the step has to hold. -/
def SignalsOwn (r : Roster) (sem : SemId) (label : Option Action) (p : Permits) : Prop :=
  ∀ nSem, label = some (.call (.semSignal nSem)) → semAt nSem.toInt = some sem →
    (r.sem sem).used = true → r.current ∈ p.holders

theorem Fair.moves {p : Permits} (fair : Fair r sem p) (own : SignalsOwn r sem label p)
    (moves : Moves sem r label r') : ∃ notes, r'.trace = notes ++ r.trace ∧
      Fair r' sem (notes.foldr (Permits.next sem r.current) p) := by
  cases moves with
  | still still =>
      obtain ⟨notes, grown, passes⟩ := still.trace
      refine ⟨notes, grown, ?_⟩
      rw [foldr_of_passes passes]
      intro used small
      have same := still.kept used
      rw [same] at used ⊢
      exact fair used small
  | create creator value grown count =>
      refine ⟨[_], grown, fun _ small => ?_⟩
      simp only [List.foldr_cons, List.foldr_nil, Permits.next, if_true] at small ⊢
      rw [count, BitVec.toInt_eq_toNat_of_lt (by omega)]
      simp
  | take used some grown count =>
      refine ⟨[_], grown, fun _ small => ?_⟩
      simp only [List.foldr_cons, List.foldr_nil, Permits.next, if_true] at small ⊢
      obtain ⟨low, shared⟩ := fair used small
      rw [count, List.length_cons]
      omega
  | raise nSem label place used grown count =>
      refine ⟨[_], grown, fun _ small => ?_⟩
      simp only [List.foldr_cons, List.foldr_nil, Permits.next, if_true] at small ⊢
      obtain ⟨low, shared⟩ := fair used small
      have holds := own nSem label place used
      have some := List.length_pos_of_mem holds
      rw [count, List.length_erase_of_mem holds]
      omega
  | grant nSem task label place used grown same =>
      refine ⟨[_], grown, fun _ small => ?_⟩
      simp only [List.foldr_cons, List.foldr_nil, Permits.next, if_true] at small ⊢
      obtain ⟨low, shared⟩ := fair used small
      have holds := own nSem label place used
      have some := List.length_pos_of_mem holds
      rw [same, List.length_cons, List.length_erase_of_mem holds]
      omega

end Roster

/-! ### Runs -/

theorem Refines.signalsOwn (ref : Refines k r) {p : Permits}
    (allowed : holderSignals sem (k, p) label = true) : r.SignalsOwn sem label p := by
  rintro nSem rfl place used
  rw [← ref.sems] at used
  rw [← ref.current]
  simpa [holderSignals, place, used] using allowed

/-- The run lemma. -/
theorem permits_fair {state : Kernel × Permits} (reached : UsedAsPermits sem state) :
    ∃ r, Refines state.1 r ∧ Roster.Sound r ∧ r.Fair sem state.2 := by
  apply reached.invariant fun state =>
    ∃ r, Refines state.1 r ∧ Roster.Sound r ∧ r.Fair sem state.2
  · rintro ⟨k, p⟩ ⟨⟨image, rfl⟩, rfl⟩
    exact ⟨Roster.boot, boot_refines image, Roster.boot_sound, fun used => by cases used⟩
  · rintro ⟨k, p⟩ label state' ⟨r, ref, sound, fair⟩ allowed stepped
    obtain ⟨k', moved, rfl⟩ := Option.map_eq_some_iff.mp stepped
    obtain ⟨r', step, after, _⟩ := ref.step sound moved
    obtain ⟨notes, grown, kept⟩ := fair.moves (ref.signalsOwn allowed) (step.moves sem)
    refine ⟨r', after, sound.step step, ?_⟩
    rw [← after.trace, ← ref.trace] at grown
    rw [newNotes_eq grown, ref.current]
    exact kept

/-- In every run in which only holders of a permit signal `sem`, no more tasks hold one than the
semaphore was created with, the counter is what is left, and nobody waits while one is left. -/
theorem permits_shared {sem : SemId} {state : Kernel × Permits}
    (reached : UsedAsPermits sem state) (used : (state.1.semaphores sem).used = true)
    (small : state.2.total.toNat < 2 ^ 31) :
    state.2.holders.length ≤ state.2.total.toNat ∧
      (state.1.semaphores sem).count = state.2.total.toNat - state.2.holders.length ∧
      ∀ task, state.1.onList (.blocked sem) (.anchor task) →
        state.2.holders.length = state.2.total.toNat := by
  obtain ⟨r, ref, sound, fair⟩ := permits_fair reached
  have inUse : (r.sem sem).used = true := by
    rw [← ref.sems]
    exact used
  obtain ⟨low, shared⟩ := fair inUse small
  refine ⟨by omega, ?_, ?_⟩
  · rw [ref.sems]
    omega
  · intro task waits
    obtain ⟨life, metered⟩ := sound.meter sem inUse
    have waiting := (ref.onQueue_iff sound (q := .waiters sem)).mp waits
    have none := metered.empty (List.ne_nil_of_mem waiting)
    omega

/-- The state after a run from a boot image without data. -/
def permitsAfter (sem : SemId) (labels : List (Option Action)) : Kernel × Permits :=
  (Transition.run (permitStep sem) (holderSignals sem) (Kernel.boot Image.empty, ⟨0, []⟩)
    labels).getD (Kernel.boot Image.empty, ⟨0, []⟩)

theorem used_permitsAfter {labels : List (Option Action)}
    (ran : (Transition.run (permitStep sem) (holderSignals sem)
      (Kernel.boot Image.empty, ⟨0, []⟩) labels).isSome = true) :
    UsedAsPermits sem (permitsAfter sem labels) := by
  obtain ⟨state, ended⟩ := Option.isSome_iff_exists.mp ran
  rw [permitsAfter, ended]
  exact Transition.Reachable.of_run (.start ⟨⟨Image.empty, rfl⟩, rfl⟩) ended

/-- Task 1 holds the only permit and reads, its child waits for it, and a key brings task 1 back,
which signals: the permit is the child's. -/
theorem permits_shared_handed :
    let state := permitsAfter 3 [some (.call (.semInit 3 1)), some (.call (.semWait 3)),
      some (.call .fork), some (.call (.read 0 0x108000 1)), none, some (.call (.semWait 3)), none,
      some (.keyboard 0x1e), none, some (.call (.semSignal 3))]
    state.2.holders.length ≤ state.2.total.toNat ∧
      (state.1.semaphores 3).count = state.2.total.toNat - state.2.holders.length ∧
      ∀ task, state.1.onList (.blocked 3) (.anchor task) →
        state.2.holders.length = state.2.total.toNat :=
  permits_shared (used_permitsAfter (by decide +kernel)) (by decide +kernel) (by decide +kernel)

end Zeos
