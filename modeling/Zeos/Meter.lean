import Zeos.Park

set_option autoImplicit false

/-! The counter of a semaphore against the grants and signals of its present
lifetime. -/

namespace Zeos

namespace Roster

open History

variable {r r' : Roster} {task other : TaskId} {q q' : Queue} {sem : SemId}

/-- Conservation for one semaphore in use. -/
structure Metered (r : Roster) (sem : SemId) (life : Lifetime) : Prop where
  present : lifetime sem r.trace = some life
  balance : (r.sem sem).count + life.granted = life.value.toInt + life.signals
  order : life.blocked = life.served ++ r.queue (.waiters sem)
  empty : r.queue (.waiters sem) ≠ [] → (r.sem sem).count = 0

def MeterSound (r : Roster) : Prop := ∀ s, (r.sem s).used = true → ∃ life, Metered r s life

/-- A note about another semaphore, or about none. -/
theorem lifetime_other {entry : Note} {trace : List Note} (other : subject entry ≠ some sem) :
    lifetime sem (entry :: trace) = lifetime sem trace := by
  change lifetimeNext sem entry (lifetime sem trace) = lifetime sem trace
  unfold lifetimeNext
  rw [if_neg other]

/-- A note about this semaphore, other than its creation and destruction. -/
theorem lifetime_own {entry : Note} {trace : List Note} {life : Lifetime}
    (own : subject entry = some sem) (create : ∀ s pid value, entry ≠ .semCreated s pid value)
    (destroy : ∀ s, entry ≠ .semDestroyed s) (present : lifetime sem trace = some life) :
    lifetime sem (entry :: trace) = some (life.next entry) := by
  change lifetimeNext sem entry (lifetime sem trace) = _
  unfold lifetimeNext
  rw [if_pos own, present]
  split
  · exact absurd rfl (create _ _ _)
  · exact absurd rfl (destroy _)
  · rfl

/-- Only what concerns `sem` changed, and there it is still sound. -/
theorem MeterSound.only (sound : MeterSound r) (sem : SemId)
    (kept : ∀ s, s ≠ sem → r'.sem s = r.sem s)
    (queue : ∀ s, s ≠ sem → r'.queue (.waiters s) = r.queue (.waiters s))
    (trace : ∀ s, s ≠ sem → lifetime s r'.trace = lifetime s r.trace)
    (own : (r'.sem sem).used = true → ∃ life, Metered r' sem life) : MeterSound r' := by
  intro s inUse
  by_cases same : s = sem
  · subst same
    exact own inUse
  · have semSame := kept s same
    have queueSame := queue s same
    obtain ⟨life, present, balance, order, empty⟩ := sound s (semSame ▸ inUse)
    refine ⟨life, ?_, ?_, ?_, ?_⟩
    · rw [trace s same, present]
    · rw [semSame, balance]
    · rw [queueSame, order]
    · rw [queueSame, semSame]
      exact empty

theorem MeterSound.congr (sound : MeterSound r) (kept : r'.sem = r.sem)
    (queue : ∀ s, r'.queue (.waiters s) = r.queue (.waiters s))
    (trace : ∀ s, lifetime s r'.trace = lifetime s r.trace) : MeterSound r' := by
  intro s inUse
  obtain ⟨life, present, balance, order, empty⟩ := sound s (kept ▸ inUse)
  refine ⟨life, ?_, ?_, ?_, ?_⟩
  · rw [trace, present]
  · rw [kept, balance]
  · rw [queue, order]
  · rw [queue, kept]
    exact empty

theorem MeterSound.semCreate (sound : MeterSound r) {value : DWord} :
    MeterSound (r.semCreate sem value) := by
  refine sound.only sem ?_ ?_ ?_ ?_
  · intro s different
    simp only [Roster.semCreate, note, Function.update_of_ne different]
  · intro s different
    simp [Roster.semCreate, note, different]
  · intro s different
    refine lifetime_other ?_
    simp [subject, Ne.symm different]
  · intro _
    refine ⟨⟨value, 0, 0, [], []⟩, ?_, ?_, ?_, ?_⟩
    · simp [Roster.semCreate, note, lifetime, lifetimeNext, subject]
    · simp [Roster.semCreate, note]
    · simp [Roster.semCreate, note]
    · simp [Roster.semCreate, note]

/-- A wait that does not block takes a unit. -/
theorem MeterSound.semTake (sound : MeterSound r) (used : (r.sem sem).used = true)
    (some : (r.sem sem).count ≠ 0) : MeterSound (r.semTake sem) := by
  obtain ⟨life, present, balance, order, empty⟩ := sound sem used
  have idle : r.queue (.waiters sem) = [] := by
    by_contra waiting
    exact some (empty waiting)
  refine sound.only sem ?_ ?_ ?_ ?_
  · intro s different
    simp only [Roster.semTake, semCount, note, Function.update_of_ne different]
  · intro s _
    rfl
  · intro s different
    refine lifetime_other ?_
    simp [subject, Ne.symm different]
  · intro _
    refine ⟨life.next (.semTaken sem r.current), ?_, ?_, order, ?_⟩
    · exact lifetime_own rfl (by simp) (by simp) present
    · simp only [Roster.semTake, semCount, note, Function.update_self, Lifetime.next]
      push_cast
      omega
    · exact absurd idle

/-- A signal that finds no waiter adds a unit. -/
theorem MeterSound.semRaise (sound : MeterSound r) (used : (r.sem sem).used = true)
    (idle : r.queue (.waiters sem) = []) : MeterSound (r.semRaise sem) := by
  obtain ⟨life, present, balance, order, _⟩ := sound sem used
  refine sound.only sem ?_ ?_ ?_ ?_
  · intro s different
    simp only [Roster.semRaise, semCount, note, Function.update_of_ne different]
  · intro s _
    rfl
  · intro s different
    refine lifetime_other ?_
    simp [subject, Ne.symm different]
  · intro _
    refine ⟨life.next (.semRaised sem), ?_, ?_, order, ?_⟩
    · exact lifetime_own rfl (by simp) (by simp) present
    · simp only [Roster.semRaise, semCount, note, Function.update_self, Lifetime.next]
      push_cast
      omega
    · exact absurd idle

/-- A wait that blocks queues behind the others. -/
theorem MeterSound.semBlock (sound : MeterSound r) (used : (r.sem sem).used = true)
    (none : (r.sem sem).count = 0) :
    MeterSound ((r.note (.semBlocked sem r.current)).place r.current (.waiters sem) false) := by
  obtain ⟨life, present, balance, order, _⟩ := sound sem used
  refine sound.only sem (fun _ _ => rfl) ?_ ?_ ?_
  · intro s different
    simp [place, setQueue, setState, setTask, note, different]
  · intro s different
    refine lifetime_other ?_
    simp [subject, Ne.symm different]
  · intro _
    refine ⟨life.next (.semBlocked sem r.current), ?_, balance, ?_, fun _ => none⟩
    · exact lifetime_own rfl (by simp) (by simp) present
    · simp only [place, setQueue, setState, setTask, note, Function.update_self,
        Lifetime.next, order, Bool.false_eq_true, ↓reduceIte, List.append_assoc]

/-- A signal hands its unit to the first waiter. -/
theorem MeterSound.semGrant (sound : MeterSound r) (used : (r.sem sem).used = true)
    {rest : List TaskId} (waiting : r.queue (.waiters sem) = task :: rest) :
    MeterSound (r.semGrant sem task) := by
  obtain ⟨life, present, balance, order, empty⟩ := sound sem used
  refine sound.only sem (fun _ _ => rfl) ?_ ?_ ?_
  · intro s different
    simp [Roster.semGrant, take, place, setQueue, setState, setTask, note, different]
  · intro s different
    refine lifetime_other ?_
    simp [subject, Ne.symm different]
  · intro _
    have queue : (r.semGrant sem task).queue (.waiters sem) = rest := by
      simp [Roster.semGrant, take, place, setQueue, setState, setTask, note, waiting]
    refine ⟨life.next (.semGranted sem task), ?_, ?_, ?_, ?_⟩
    · exact lifetime_own rfl (by simp) (by simp) present
    · change (r.sem sem).count + ((life.granted + 1 : Nat) : Int) =
        life.value.toInt + ((life.signals + 1 : Nat) : Int)
      push_cast
      omega
    · rw [queue]
      simp [Lifetime.next, order, waiting]
    · intro _
      exact empty (by simp [waiting])

theorem MeterSound.semDestroy (sound : MeterSound r) {owner : TaskId} :
    MeterSound (semDestroy owner r sem) := by
  rw [semDestroy_eq]
  refine sound.only sem ?_ ?_ ?_ ?_
  · intro s different
    simp only [Function.update_of_ne different]
  · intro s different
    simp [different]
  · intro s different
    have kept : ∀ waiters : List TaskId, lifetime s (waiters.map (.semAborted sem) ++
        .semDestroyed sem :: r.trace) = lifetime s r.trace := by
      intro waiters
      induction waiters with
      | nil => exact lifetime_other (by simp [subject, Ne.symm different])
      | cons first rest ih =>
          rw [List.map_cons, List.cons_append, lifetime_other, ih]
          simp [subject, Ne.symm different]
    exact kept _
  · intro used
    simp at used

end Roster

end Zeos
