import Zeos.Boot
import Zeos.Timing.Steps

set_option autoImplicit false

/-! What boot does with time. -/

namespace Zeos

variable {k k₁ : Kernel} {task : TaskId}

/-- Before there are tasks. -/
def Timing.blank (clock : Nat → DWord) : Timing where
  current := 3
  idle := 0
  mode := .user
  handling := false
  ticks := 0
  state _ := .invalid
  resume _ := .exited
  quantum _ := 0
  st _ := ⟨0, 0, 0, 0, 0, 0, 0⟩
  clock := clock
  reads := 0
  marks := []

/-- Idle is task 0, and task 1 runs. -/
def Timing.boot (clock : Nat → DWord) : Timing :=
  let c := (blank clock).reset 0
  let c := { c with resume := Function.update c.resume 0 .cpuIdle }.setState 0 .ready
  { ((c.reset 1).setState 1 .run).stamp 1 .freeToReady with current := 1 }

theorem timing_initDirPages : k.initDirPages.timing = k.timing :=
  Loop.upTo_frame nrTasks (fun i (k : Kernel) =>
    { k.setDirCount (Fin.ofNat nrTasks i) 0 with
      links := listAdd (k.setDirCount (Fin.ofNat nrTasks i) 0).links
        (.dirAnchor (Fin.ofNat nrTasks i)) .freeDirs })
    { k with links := initListHead k.links .freeDirs } Kernel.timing fun _ _ _ => rfl

theorem timing_initMm {before after : Nat} : (k.initMm before after).timing = k.timing := by
  unfold Kernel.initMm
  dsimp only
  generalize (k.mm.initTablePages before after).initFrames = blank
  have dirs := @timing_initDirPages { k with mm := blank }
  generalize Kernel.initDirPages _ = k₁ at dirs ⊢
  generalize (k₁.mm.setCr3 (some 0)).setPeFlag = m
  exact timing_mm.trans dirs

/-- `init_sched` puts every task struct on `free_queue`. -/
theorem timing_initSched : k.initSched.timing =
    { k.timing with ticks := 0, state := fun _ => .invalid } := by
  have loop := Loop.upTo_invariant nrTasks (fun i (k : Kernel) =>
    k.updateProcessStateRr (Fin.ofNat nrTasks i) (some .freeQueue))
    { k with
      currentTicks := 0
      lastPid := 0
      links := initListHead (initListHead k.links .freeQueue) .readyqueue }
    (fun n k' => k'.timing = { k.timing with
      ticks := 0
      state := fun t => if t.val < n then .invalid else k.timing.state t }) ?_ ?_
  · have all : (fun t : TaskId => if t.val < nrTasks then TaskState.invalid
        else k.timing.state t) = fun _ => .invalid := by
      funext t
      exact if_pos t.isLt
    rw [all] at loop
    exact loop
  · rfl
  · intro i k' below same
    show (k'.updateProcessState (Fin.ofNat nrTasks i) (some .freeQueue) false).timing = _
    rw [timing_updateProcessState, same]
    have state : Function.update (fun t : TaskId => if t.val < i then TaskState.invalid
          else k.timing.state t) (Fin.ofNat nrTasks i) (stateOn (some .freeQueue)) =
        fun t : TaskId => if t.val < i + 1 then .invalid else k.timing.state t := by
      funext t
      rw [Function.update_apply]
      have value : (Fin.ofNat nrTasks i).val = i := Nat.mod_eq_of_lt below
      by_cases here : t = Fin.ofNat nrTasks i
      · rw [if_pos here, here, value, if_pos (Nat.lt_succ_self i)]
        rfl
      · have other : t.val ≠ i := fun same => here (Fin.ext (same.trans value.symm))
        rw [if_neg here]
        by_cases less : t.val < i
        · rw [if_pos less, if_pos (by omega)]
        · rw [if_neg less, if_neg (by omega)]
    rw [← state]
    rfl

theorem timing_initIdle (got : k.allocateProcess none = (k₁, some task)) :
    k.initIdle.timing = { k₁.timing with
      idle := task
      resume := Function.update k₁.timing.resume task .cpuIdle }.setState task .ready := by
  unfold Kernel.initIdle
  rw [got]
  dsimp only
  rw [timing_setState, timing_replace]
  have kept : ∀ k₁ : Kernel, Kernel.timing { k₁ with idleTask := task } =
      { k₁.timing with idle := task } := fun _ => rfl
  rw [kept]
  simp only [Kernel.timing, Function.update_eq_self_iff.mpr]

theorem timing_initTask1 (got : k.allocateProcess none = (k₁, some task)) :
    k.initTask1.timing =
      { (k₁.timing.setState task .run).stamp task .freeToReady with current := task } := by
  unfold Kernel.initTask1
  rw [got]
  dsimp only
  generalize k₁.mm.setUserPages (k₁.getPT task) = pages
  generalize pages.setCr3 (Kernel.getDIR { k₁ with mm := pages } task) = m
  have ran : (({ k₁ with mm := m }.setState task .run).updateStats task .freeToReady).timing =
      (k₁.timing.setState task .run).stamp task .freeToReady := by
    rw [timing_updateStats (by simp) (by simp), timing_setState]
    rfl
  exact congrArg (fun c : Timing => { c with current := task }) ran

theorem boot_timing (image : Image) : (Kernel.boot image).timing = Timing.boot image.clock := by
  obtain ⟨firstPick, secondPick⟩ := boot_picks image
  have start := (@timing_initSched ((Kernel.static image).initMm image.guardBefore
    image.guardAfter))
  rw [timing_initMm] at start
  have keyboard : ∀ k : Kernel, k.initKeyboard.timing = k.timing := fun _ => rfl
  rw [Kernel.boot, keyboard]
  generalize ((Kernel.static image).initMm image.guardBefore image.guardAfter).initSched = k₁
    at firstPick secondPick start ⊢
  obtain ⟨k₂, idleMade⟩ : ∃ k₂, k₁.allocateProcess none = (k₂, some 0) := ⟨_, Prod.ext rfl firstPick⟩
  have idled := timing_initIdle idleMade
  rw [timing_allocate idleMade, start] at idled
  generalize k₁.initIdle = k₃ at secondPick idled ⊢
  obtain ⟨k₄, firstMade⟩ : ∃ k₄, k₃.allocateProcess none = (k₄, some 1) := ⟨_, Prod.ext rfl secondPick⟩
  rw [timing_initTask1 firstMade, timing_allocate firstMade, idled]
  rfl

end Zeos
