import Zeos.Effects

set_option autoImplicit false

/-! Semaphores and their owners: each semaphore in use is on the list of exactly
the task that created it. -/

namespace Zeos

namespace Roster

/-- Soundness of ownership, where `allowed` tasks may own semaphores. -/
structure OwnerSound (allowed : TaskId → Prop) (r : Roster) : Prop where
  unused : ∀ s, (r.sem s).used = false → r.queue (.waiters s) = []
  started : ∀ s, (r.sem s).used = true → r.started s = true
  owner : ∀ s, (r.sem s).used = true → ∃ t, (r.sem s).owner = some t ∧ allowed t ∧
    History.creator s r.trace = some (r.task t).pid
  listed : ∀ s t, s ∈ r.owned t ↔ (r.sem s).used = true ∧ (r.sem s).owner = some t
  distinct : ∀ t, (r.owned t).Nodup

/-- Tasks that may own semaphores between two calls. -/
def mayOwn (r : Roster) (task : TaskId) : Prop := r.live task ∧ task ≠ r.idle

variable {r r' : Roster} {allowed allowed' : TaskId → Prop} {task : TaskId} {sem : SemId}

theorem OwnerSound.mono (sound : OwnerSound allowed r)
    (weaker : ∀ s t, (r.sem s).used = true → (r.sem s).owner = some t → allowed t →
      allowed' t) : OwnerSound allowed' r where
  unused := sound.unused
  started := sound.started
  owner s used := by
    obtain ⟨t, owner, fine, made⟩ := sound.owner s used
    exact ⟨t, owner, weaker s t used owner fine, made⟩
  listed := sound.listed
  distinct := sound.distinct

theorem OwnerSound.frame (sound : OwnerSound allowed r) (frame : Frame r r') :
    OwnerSound allowed r' where
  unused s unused := by
    rw [frame.sem] at unused
    exact frame.drained s unused (sound.unused s unused)
  started s used := by
    rw [frame.sem] at used
    rw [frame.started]
    exact sound.started s used
  owner s used := by
    rw [frame.sem] at used ⊢
    obtain ⟨t, owner, fine, made⟩ := sound.owner s used
    exact ⟨t, owner, fine, by rw [frame.creator, frame.pid, made]⟩
  listed s t := by
    rw [frame.owned, frame.sem]
    exact sound.listed s t
  distinct t := by
    rw [frame.owned]
    exact sound.distinct t

theorem OwnerSound.frame_mayOwn (sound : OwnerSound r.mayOwn r) (frame : Frame r r') :
    OwnerSound r'.mayOwn r' := by
  refine (sound.frame frame).mono ?_
  rintro s t - - ⟨alive, notIdle⟩
  exact ⟨(frame.live t).mpr alive, by rw [frame.idle]; exact notIdle⟩

/-- A task that may not own semaphores has none. -/
theorem OwnerSound.owned_nil (sound : OwnerSound allowed r) (banned : ¬ allowed task) :
    r.owned task = [] := by
  rw [List.eq_nil_iff_forall_not_mem]
  intro s member
  obtain ⟨used, owner⟩ := (sound.listed s task).mp member
  obtain ⟨t, owner', fine, _⟩ := sound.owner s used
  rw [owner] at owner'
  cases owner'
  exact banned fine

theorem OwnerSound.owned_unique (sound : OwnerSound allowed r) {t t' : TaskId}
    (member : sem ∈ r.owned t) (member' : sem ∈ r.owned t') : t = t' := by
  have owner := ((sound.listed sem t).mp member).2
  rw [((sound.listed sem t').mp member').2] at owner
  exact (Option.some.inj owner).symm

/-- The running task creates a semaphore. -/
theorem OwnerSound.semCreate (sound : OwnerSound allowed r) {value : DWord}
    (unused : (r.sem sem).used = false) (fine : allowed r.current) :
    OwnerSound allowed (r.semCreate sem value) := by
  have fresh : ∀ t, sem ∉ r.owned t := by
    intro t member
    rw [sound.listed, unused] at member
    exact absurd member.1 (by decide)
  have creator : ∀ s, History.creator s (r.semCreate sem value).trace =
      if sem = s then some (r.task r.current).pid else History.creator s r.trace := fun _ => rfl
  refine ⟨?_, ?_, ?_, ?_, ?_⟩
  · intro s stillUnused
    simp only [Roster.semCreate, note, Function.update_apply, Queue.waiters.injEq] at stillUnused ⊢
    split
    · rfl
    · rename_i different
      rw [if_neg different] at stillUnused
      exact sound.unused s stillUnused
  · intro s used
    simp only [Roster.semCreate, note, Function.update_apply] at used ⊢
    split
    · rfl
    · rename_i different
      rw [if_neg different] at used
      exact sound.started s used
  · intro s used
    rw [creator]
    simp only [Roster.semCreate, note, Function.update_apply] at used ⊢
    by_cases same : s = sem
    · rw [if_pos same, if_pos same.symm]
      exact ⟨r.current, rfl, fine, rfl⟩
    · rw [if_neg same] at used ⊢
      rw [if_neg (Ne.symm same)]
      exact sound.owner s used
  · intro s t
    simp only [Roster.semCreate, note, Function.update_apply]
    by_cases same : s = sem
    · rw [if_pos same, same]
      by_cases mine : t = r.current
      · simp [mine]
      · simp [mine, fresh t, Ne.symm mine]
    · rw [if_neg same, ← sound.listed]
      by_cases mine : t = r.current
      · simp [mine, same]
      · rw [if_neg mine]
  · intro t
    simp only [Roster.semCreate, note, Function.update_apply]
    split
    · exact List.nodup_cons.mpr ⟨fresh r.current, sound.distinct r.current⟩
    · exact sound.distinct t

/-- Changing the counter of a semaphore. -/
theorem OwnerSound.semCount (sound : OwnerSound allowed r) {count : Int} :
    OwnerSound allowed (r.semCount sem count) := by
  have used : ∀ s, ((r.semCount sem count).sem s).used = (r.sem s).used := by
    intro s
    simp only [Roster.semCount, Function.update_apply]
    split
    · rename_i same
      rw [same]
    · rfl
  have owner : ∀ s, ((r.semCount sem count).sem s).owner = (r.sem s).owner := by
    intro s
    simp only [Roster.semCount, Function.update_apply]
    split
    · rename_i same
      rw [same]
    · rfl
  refine ⟨?_, ?_, ?_, ?_, sound.distinct⟩
  · intro s unused
    exact sound.unused s ((used s).symm.trans unused)
  · intro s inUse
    exact sound.started s ((used s).symm.trans inUse)
  · intro s inUse
    rw [owner]
    exact sound.owner s ((used s).symm.trans inUse)
  · intro s t
    rw [used, owner]
    exact sound.listed s t

/-- A destruction by the owner. -/
theorem OwnerSound.semDestroy (sound : OwnerSound allowed r) (member : sem ∈ r.owned task) :
    OwnerSound allowed (semDestroy task r sem) := by
  have mine := ((sound.listed sem task).mp member).2
  rw [semDestroy_eq]
  refine ⟨?_, ?_, ?_, ?_, ?_⟩
  · intro s unused
    simp only [Function.update_apply, Queue.waiters.injEq, reduceCtorEq, ↓reduceIte] at unused ⊢
    split
    · rfl
    · rename_i different
      rw [if_neg different] at unused
      exact sound.unused s unused
  · intro s used
    simp only [Function.update_apply] at used
    split at used
    · cases used
    · exact sound.started s used
  · intro s used
    simp only [Function.update_apply] at used ⊢
    split at used
    · cases used
    · rename_i different
      obtain ⟨t, owner, fine, made⟩ := sound.owner s used
      rw [if_neg different]
      refine ⟨t, owner, fine, ?_⟩
      have creator : History.creator s ((r.queue (.waiters sem)).reverse.map (.semAborted sem) ++
          .semDestroyed sem :: r.trace) = History.creator s r.trace := by
        induction (r.queue (.waiters sem)).reverse with
        | nil => rfl
        | cons first rest ih => exact ih
      rw [creator, made]
      split <;> rfl
  · intro s t
    simp only [Function.update_apply]
    by_cases same : s = sem
    · rw [if_pos same, same]
      by_cases owner : t = task
      · simp [owner, (sound.distinct task).not_mem_erase]
      · rw [if_neg owner]
        refine iff_of_false ?_ (by simp)
        intro other
        exact owner (sound.owned_unique other member)
    · rw [if_neg same, ← sound.listed]
      split
      · rename_i owner
        rw [owner, List.mem_erase_of_ne same]
      · exact Iff.rfl
  · intro t
    simp only [Function.update_apply]
    split
    · exact (sound.distinct task).erase sem
    · exact sound.distinct t

/-- A task struct of the pool gets a new life. -/
theorem OwnerSound.spawn (sound : OwnerSound r.mayOwn r) {others : List TaskId} {dir : DirId}
    {start : Resume} (pool : r.queue .free = task :: others) (dead : ¬ r.live task) :
    OwnerSound ((r.allocate task dir).launch task start).mayOwn
      ((r.allocate task dir).launch task start) := by
  have empty : r.owned task = [] := sound.owned_nil fun fine => dead fine.1
  have owned : Function.update r.owned task [] = r.owned := by
    rw [← empty, Function.update_eq_self]
  rw [spawn_eq pool, owned]
  refine ⟨?_, sound.started, ?_, sound.listed, sound.distinct⟩
  · intro s unused
    simp only [Function.update_apply, reduceCtorEq, ↓reduceIte]
    exact sound.unused s unused
  · intro s used
    obtain ⟨t, owner, fine, made⟩ := sound.owner s used
    have different : t ≠ task := by
      rintro rfl
      exact dead fine.1
    refine ⟨t, owner, ⟨?_, fine.2⟩, ?_⟩
    · simp only [live, Function.update_of_ne different]
      exact fine.1
    · simp only [made, Function.update_of_ne different]

/-- While it dies, the running task still owns its semaphores. -/
theorem OwnerSound.retire (sound : OwnerSound r.mayOwn r) :
    OwnerSound (fun t => r.retire.mayOwn t ∨ t = r.current) r.retire := by
  have creator : ∀ s, History.creator s r.retire.trace = History.creator s r.trace :=
    fun s => retire_trace _ fun _ _ => rfl
  rw [retire_eq] at creator ⊢
  refine ⟨?_, sound.started, ?_, sound.listed, sound.distinct⟩
  · intro s unused
    simp only [Function.update_apply, reduceCtorEq, ↓reduceIte]
    exact sound.unused s unused
  · intro s used
    obtain ⟨t, owner, fine, made⟩ := sound.owner s used
    refine ⟨t, owner, ?_, (creator s).trans ?_⟩
    · by_cases same : t = r.current
      · exact Or.inr same
      · refine Or.inl ⟨?_, fine.2⟩
        simp only [live, Function.update_of_ne same]
        exact fine.1
    · simp only [made, Function.update_apply]
      split
      · rename_i same
        rw [same]
      · rfl

end Roster

end Zeos
