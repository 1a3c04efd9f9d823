import Zeos.Effects

set_option autoImplicit false

/-! The range of the counters of the semaphores. -/

namespace Zeos

namespace Roster

variable {r r' : Roster} {label : Option Action} {sem : SemId}

/-- The counters of the semaphores in use are neither negative nor too large for an `int`. -/
def Counted (r : Roster) : Prop :=
  ∀ s, (r.sem s).used = true → 0 ≤ (r.sem s).count ∧ (r.sem s).count ≤ intMax

/-- The step leaves every counter in range: a semaphore starts with a number that is not
negative as an `int`, and no counter is raised beyond the largest one. -/
def CountsFit (r : Roster) : Option Action → Prop
  | some (.call (.semInit nSem value)) => ∀ sem, semAt nSem.toInt = some sem →
      (r.sem sem).used = false → value.toNat < 2 ^ 31
  | some (.call (.semSignal nSem)) => ∀ sem, semAt nSem.toInt = some sem →
      (r.sem sem).used = true → r.queue (.waiters sem) = [] → (r.sem sem).count < intMax
  | _ => True

/-- Only the semaphores in use matter. -/
theorem Counted.same (counted : Counted r)
    (kept : ∀ s, (r'.sem s).used = true → r'.sem s = r.sem s) : Counted r' := by
  intro s used
  have same := kept s used
  rw [same] at used ⊢
  exact counted s used

theorem Counted.of_eq (counted : Counted r) (same : r'.sem = r.sem) : Counted r' :=
  counted.same fun s _ => congrFun same s

theorem readFirst_sem {buffer : DWord} {size : Int} : (r.readFirst buffer size).sem = r.sem :=
  readLoop_sem.trans (frame_popKeys ..).sem

theorem readAgain_sem {buffer : DWord} {totalSize size : Int} :
    (r.readAgain buffer totalSize size).sem = r.sem :=
  readLoop_sem.trans (frame_popKeys ..).sem

/-- A change of one counter. -/
theorem Counted.semCount (counted : Counted r) {count : Int} (low : 0 ≤ count)
    (high : count ≤ intMax) : Counted (r.semCount sem count) := by
  intro s used
  simp only [Roster.semCount, Function.update_apply] at used ⊢
  split
  · exact ⟨low, high⟩
  · rename_i different
    rw [if_neg different] at used
    exact counted s used

theorem Counted.semCreate (counted : Counted r) {value : DWord} (small : value.toNat < 2 ^ 31) :
    Counted (r.semCreate sem value) := by
  have positive : value.toInt = value.toNat := BitVec.toInt_eq_toNat_of_lt (by omega)
  intro s used
  simp only [Roster.semCreate, note, Function.update_apply] at used ⊢
  split
  · simp only [intMax]
    omega
  · rename_i different
    rw [if_neg different] at used
    exact counted s used

/-- A destroyed semaphore has no counter. -/
theorem Counted.semDestroy (counted : Counted r) {owner : TaskId} :
    Counted (Roster.semDestroy owner r sem) := by
  apply counted.same
  intro s used
  rw [semDestroy_eq] at used ⊢
  dsimp only at used ⊢
  rw [Function.update_apply] at used ⊢
  split
  · rename_i same
    rw [if_pos same] at used
    cases used
  · rfl

theorem Counted.exit (counted : Counted r) : Counted r.exit := by
  have retired : Counted r.retire := counted.of_eq (by rw [retire_eq])
  have owns : r.retire.owned r.current = r.owned r.current := by rw [retire_eq]
  have left := (foldl_semDestroy Counted (fun r s holds _ => holds.semDestroy)
    (r.owned r.current) r.retire retired owns).1
  rw [exit_eq]
  exact left.of_eq rfl

/-- One step. -/
theorem Counted.step (counted : Counted r) (fits : CountsFit r label)
    {seen : Seen} (step : Step seen r label r') : Counted r' := by
  cases step with
  | quiet action user => exact counted
  | preempt user => exact counted.of_eq yield_sem
  | press value key user pressed below room => exact counted.of_eq rfl
  | wake value key reader rest user pressed below queue =>
      exact counted.of_eq yield_sem
  | fork task dir others dirs user busy pool free => exact counted.of_eq rfl
  | clone function stack exitFunc task dir others user busy pool own => exact counted.of_eq rfl
  | exit user busy => exact counted.exit
  | read fd buffer size user busy positive =>
      unfold Roster.read
      dsimp only
      split
      · exact counted.of_eq readFirst_sem
      · exact counted.of_eq rfl
  | semInit nSem value sem user busy place unused =>
      exact counted.semCreate (fits sem place unused)
  | semTake nSem sem user busy place used some =>
      obtain ⟨low, high⟩ := counted sem used
      have taken : Counted (r.semCount sem ((r.sem sem).count - 1)) :=
        counted.semCount (by omega) (by omega)
      exact taken.of_eq rfl
  | semBlock nSem sem user busy place used none => exact counted.of_eq rfl
  | semRaise nSem sem user busy place used idle =>
      obtain ⟨low, high⟩ := counted sem used
      have room := fits sem place used idle
      have raised : Counted (r.semCount sem ((r.sem sem).count + 1)) :=
        counted.semCount (by omega) (by omega)
      exact raised.of_eq rfl
  | semGrant nSem sem task rest user busy place used waiting => exact counted.of_eq rfl
  | semDestroy nSem sem owner user busy place used own same => exact counted.semDestroy
  | resume switching known => exact counted.of_eq rfl
  | resumeWait sem switching saved =>
      rw [waitReturn]
      split
      · exact counted.of_eq rfl
      · exact counted.of_eq rfl
  | resumeFirst buffer size switching saved => exact counted.of_eq readFirst_sem
  | resumeLoop buffer totalSize size switching saved => exact counted.of_eq readAgain_sem

end Roster

end Zeos
