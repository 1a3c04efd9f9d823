import Mathlib.Tactic.MkIffOfInductiveProp
import Zeos.Parked
import Zeos.Properties.Access
import Zeos.Properties.Counts
import Zeos.Space.Blocks

set_option autoImplicit false

/-! What the kernel stores for a process lies in its own pages, unless `access_ok` misjudges
the block, or `sys_clone` pushes its word below the block that it checked. -/

namespace Zeos

/-- The block from `start` lies in data and heap pages of the task. -/
def Kernel.OwnBlock (k : Kernel) (task : TaskId) (start : DWord) (count : Nat) : Prop :=
  ∀ addr, InBlock start count addr → k.OwnPage task (addr.toNat / pageSize)

/-- The block that a system call writes to once `access_ok` has let it. -/
def Kernel.target (k : Kernel) : Syscall → Option (DWord × Nat)
  | .read fd buffer size =>
      if checkFd fd.toInt readOperation < 0 ∨ size.toInt < 0 then none
      else some (buffer, size.toInt.toNat)
  | .getStats pid st =>
      match (List.finRange nrTasks).find? fun i => (k.tasks i).pid == pid.toInt with
      | none => none
      | some i => if pid.toInt < 0 ∨ (k.tasks i).state = .invalid then none else some (st, 28)
  | .clone _ stack _ => if listEmpty k.links .freeQueue then none else some (stack - 4, 4)
  | _ => none

/-- What a step stores to user memory is on present data and heap pages of the running task;
a call that would write elsewhere returns `-EFAULT` and stores nothing. -/
structure Kernel.WritesOwn (k : Kernel) (label : Option Action) (k' : Kernel) : Prop where
  own : ∃ more, k'.stores = more ++ k.stores ∧ ∀ pair ∈ more, pair.1 = k.current ∧
    k.OwnPage k.current (pair.2.toNat / pageSize) ∧
    (k.mm.getEntry (k.getPT k.current) (pair.2.toNat / pageSize)).present = true
  refused : ∀ request start count, label = some (.call request) →
    k.target request = some (start, count) → ¬ k.OwnBlock k.current start count →
    (k.updateEnteringSys.syscall request).2 = -EFAULT ∧ k'.stores = k.stores

/-- The stacks that pass the check of `[stack, stack + 4)` although `[stack - 4, stack)` is
not in data or heap pages. -/
@[mk_iff]
inductive Unguarded (heap stack : Nat) : Prop
  | code (user : pagLogInitCode * pageSize ≤ stack) (low : stack < pagLogInitData * pageSize + 4)
  | pastData (past : (pagLogInitData + numPagData) * pageSize < stack)
      (inside : stack + 4 < (pagLogInitData + numPagData + 1) * pageSize)
      (below : stack < (pagLogInitHeap + 1 - heap) * pageSize + 4)
  | belowHeap (page : (pagLogInitHeap - heap) * pageSize ≤ stack)
      (below : stack < (pagLogInitHeap + 1 - heap) * pageSize + 4)
      (inside : stack < (pagLogInitHeap + 1) * pageSize)
      (outside : ¬ InPages pagLogInitData (pagLogInitData + numPagData) (stack - 4) stack)

attribute [mk_iff] Misjudged

instance {first last start stop : Nat} : Decidable (InPages first last start stop) :=
  inferInstanceAs (Decidable (_ ∧ _))

instance {type : Verify} {heap start stop : Nat} : Decidable (Misjudged type heap start stop) :=
  decidable_of_iff _ (misjudged_iff type heap start stop).symm

instance {heap stack : Nat} : Decidable (Unguarded heap stack) :=
  decidable_of_iff _ (unguarded_iff heap stack).symm

/-- `access_ok` lets no call of the step write outside of the data and heap pages. -/
def judged (k : Kernel) : Option Action → Prop
  | some (.call (.clone function stack exitFunc)) =>
      k.target (.clone function stack exitFunc) ≠ none →
      k.accessOk .write function 4 = true →
      ¬ Unguarded (heapPages k.currentTask.heapTop) stack.toNat
  | some (.call request) => ∀ block ∈ k.target request, 0 < block.2 →
      ¬ Misjudged .write (heapPages k.currentTask.heapTop) block.1.toNat
        (block.1.toNat + block.2)
  | _ => True

instance {k : Kernel} {label : Option Action} : Decidable (judged k label) := by
  refine Option.casesOn (motive := fun label => Decidable (judged k label)) label
    (.isTrue trivial) fun action => ?_
  refine Action.casesOn (motive := fun action => Decidable (judged k (some action))) action
    (fun request => ?_) (.isTrue trivial) (.isTrue trivial) (fun _ => .isTrue trivial)
    (fun _ => .isTrue trivial) (fun _ _ => .isTrue trivial)
  apply Syscall.casesOn (motive := fun request => Decidable (judged k (some (.call request))))
    request
  case clone =>
    intro function stack exitFunc
    exact inferInstanceAs (Decidable (_ → _ → ¬ _))
  all_goals
    intros
    exact inferInstanceAs (Decidable (∀ block ∈ k.target _, _ → ¬ _))

/-- The system calls that store to user memory, and the continuation after a task switch. -/
def storesForUser : Option Action → Bool
  | none => true
  | some (.call (.read _ _ _)) | some (.call (.getStats _ _)) | some (.call (.clone _ _ _)) => true
  | _ => false

variable {k k' : Kernel} {r r' : Roster} {task : TaskId} {home : DirId} {start stack : DWord}
  {heap count : Nat}

/-! ### Blocks that pass the check -/

theorem heap_room (laid : k.space.Laid) (owner : k.space.dir k.current = some home) :
    k.currentTask.heapTop.toNat ≤ heapStart ∧
      heapPages k.currentTask.heapTop ≤ Mm.maxHeapPages :=
  laid.top k.current (Space.housed owner)

/-- A block that wraps around does not pass. -/
theorem accessOk_wrap {type : Verify} {addr size : DWord} (small : size.toNat < 0x80000000)
    (wraps : 2 ^ 32 < addr.toNat + size.toNat) : k.accessOk type addr size = false := by
  have bound := addr.isLt
  have last : (addr + size).toNat = addr.toNat + size.toNat - 2 ^ 32 := by
    rw [BitVec.toNat_add]
    omega
  unfold Kernel.accessOk
  dsimp only
  rw [if_pos]
  rw [last, Nat.shiftRight_eq_div_pow, Nat.shiftRight_eq_div_pow]
  omega

theorem inBlock_toNat {addr : DWord} (fits : start.toNat + count ≤ 2 ^ 32)
    (within : InBlock start count addr) :
    ∃ i < count, addr.toNat = start.toNat + i := by
  obtain ⟨i, below, rfl⟩ := within
  refine ⟨i, below, ?_⟩
  rw [BitVec.toNat_add, BitVec.toNat_ofNat]
  omega

/-- A block in the own pages, as numbers. -/
theorem ownBlock_of_pages (laid : k.space.Laid) (owner : k.space.dir k.current = some home)
    (fits : start.toNat + count ≤ 2 ^ 32)
    (own : InOwnPages .write (heapPages k.currentTask.heapTop) start.toNat (start.toNat + count)) :
    k.OwnBlock k.current start count := by
  obtain ⟨_, room⟩ := heap_room laid owner
  obtain ⟨_, data, last, most⟩ := Mm.regions
  intro addr within
  obtain ⟨i, below, place⟩ := inBlock_toNat fits within
  have first : Verify.firstPage .write = pagLogInitData := rfl
  rcases own with inData | inHeap
  · left
    simp only [InPages, first, numPagData, pageSize] at inData ⊢
    omega
  · right
    simp only [InPages, pageSize] at inHeap
    refine ⟨pagLogInitHeap - addr.toNat / pageSize, ?_, ?_⟩
    · change _ < heapPages k.currentTask.heapTop
      simp only [pageSize]
      omega
    · simp only [pageSize]
      omega

/-- `access_ok` on a block that it judges rightly. -/
theorem ownBlock_of_access (laid : k.space.Laid) (owner : k.space.dir k.current = some home)
    {size : DWord} (small : size.toNat < 0x80000000)
    (fine : 0 < size.toNat → ¬ Misjudged .write (heapPages k.currentTask.heapTop) start.toNat
      (start.toNat + size.toNat))
    (access : k.accessOk .write start size = true) : k.OwnBlock k.current start size.toNat := by
  by_cases empty : size.toNat = 0
  · intro addr within
    obtain ⟨i, below, _⟩ := within
    omega
  · have fits : start.toNat + size.toNat ≤ 2 ^ 32 := by
      by_contra wraps
      rw [accessOk_wrap small (by omega)] at access
      cases access
    have decides := (access_ok_decides (by omega) fits (heap_room laid owner).1).mpr
      (fine (by omega))
    exact ownBlock_of_pages laid owner fits (decides.mp access)

/-- A stack that passes, on numbers, has its word in own pages unless it is unguarded. -/
theorem granted_stack {stack : Nat} (room : heap ≤ Mm.maxHeapPages) :
    (Granted heap stack (stack + 4) ∧ ¬ InOwnPages .write heap (stack - 4) stack) ↔
      Granted heap stack (stack + 4) ∧ Unguarded heap stack := by
  obtain ⟨code, data, last, _⟩ := Mm.regions
  have few : heap ≤ 228 := room
  have first : Verify.firstPage .write = pagLogInitData := rfl
  apply and_congr_right
  intro granted
  constructor
  · intro outside
    simp only [InOwnPages, InPages, first, numPagData, pageSize, not_or] at outside
    obtain ⟨outData, outHeap⟩ := outside
    simp only [Granted, numPagData, pageSize] at granted
    by_cases low : stack < pagLogInitData * 4096 + 4
    · apply Unguarded.code
      all_goals simp only [pageSize]
      all_goals omega
    · by_cases inside : stack + 4 < (pagLogInitData + 21) * 4096
      · apply Unguarded.pastData
        all_goals simp only [numPagData, pageSize]
        all_goals omega
      · apply Unguarded.belowHeap
        · simp only [pageSize]
          omega
        · simp only [pageSize]
          omega
        · simp only [pageSize]
          omega
        · intro inData
          have high := inData.2
          simp only [numPagData, pageSize] at high
          omega
  · intro unguarded
    cases unguarded with
    | code user low =>
        simp only [InOwnPages, InPages, first, numPagData, pageSize] at *
        omega
    | pastData past inside below =>
        simp only [InOwnPages, InPages, first, numPagData, pageSize] at *
        omega
    | belowHeap page below inside outside =>
        simp only [InOwnPages, InPages, first, numPagData, pageSize] at *
        omega

/-- A stack that passes, and is not unguarded, has its word in own pages. -/
theorem ownBlock_of_stack (laid : k.space.Laid) (owner : k.space.dir k.current = some home)
    (fine : ¬ Unguarded (heapPages k.currentTask.heapTop) stack.toNat)
    (access : k.accessOk .write stack 4 = true) : k.OwnBlock k.current (stack - 4) 4 := by
  obtain ⟨inside, room⟩ := heap_room laid owner
  have few : heapPages k.currentTask.heapTop ≤ 228 := room
  obtain ⟨code, data, last, _⟩ := Mm.regions
  have four : (4 : DWord).toNat = 4 := rfl
  have fits : stack.toNat + (4 : DWord).toNat ≤ 2 ^ 32 := by
    by_contra wraps
    rw [accessOk_wrap (by decide) (by omega)] at access
    cases access
  have granted : Granted (heapPages k.currentTask.heapTop) stack.toNat (stack.toNat + 4) :=
    (accessOk_eq fits inside).mp access
  have high : 4 ≤ stack.toNat := by
    simp only [Granted, pageSize, numPagData] at granted
    omega
  have bound := stack.isLt
  have below : (stack - 4).toNat = stack.toNat - 4 := by
    rw [BitVec.toNat_sub, four]
    omega
  have own : InOwnPages .write (heapPages k.currentTask.heapTop) (stack.toNat - 4) stack.toNat := by
    by_contra outside
    exact fine ((granted_stack room).mp ⟨granted, outside⟩).2
  apply ownBlock_of_pages laid owner
  · rw [below]
    omega
  · rw [below, Nat.sub_add_cancel high]
    exact own

/-! ### The blocks of the reads that wait -/

/-- The buffer of a task that waits in `sys_read` is in its own pages. -/
def Kernel.ReadsOwn (k : Kernel) : Prop :=
  ∀ t buffer totalSize, k.space.dir t ≠ none → (t = k.current → k.mode = .switching) →
    (k.tasks t).kernelEsp.reads buffer totalSize → k.OwnBlock t buffer totalSize.toNat

theorem ownBlock_congr (same : k'.space.heapTop task = k.space.heapTop task)
    (own : k.OwnBlock task start count) : k'.OwnBlock task start count := by
  intro addr within
  rcases own addr within with data | heap
  · exact Or.inl data
  · right
    change ∃ i < (getHeapPageSize (k'.space.heapTop task)).toNat, _
    rw [same]
    exact heap

theorem readChecked_iff {fd : Int} {buffer size : DWord} :
    k.readChecked fd buffer size = true ↔ 0 ≤ checkFd fd readOperation ∧ buffer ≠ 0 ∧
      0 ≤ size.toInt ∧ k.accessOk .write buffer size = true := by
  simp only [Kernel.readChecked, Bool.and_eq_true, decide_eq_true_eq, Bool.not_eq_true',
    beq_eq_false_iff_ne, and_assoc]

theorem size_toNat {size : DWord} (positive : 0 ≤ size.toInt) :
    size.toInt.toNat = size.toNat ∧ size.toNat < 0x80000000 := by
  rw [BitVec.toInt_eq_toNat_cond] at positive ⊢
  split
  · rename_i small
    omega
  · rename_i large
    rw [if_neg large] at positive
    have bound := size.isLt
    omega

/-- A read that passes its checks, if `access_ok` judges its buffer rightly. -/
theorem ownBlock_of_read (laid : k.space.Laid) (owner : k.space.dir k.current = some home)
    {fd buffer size : DWord} (allowed : judged k (some (.call (.read fd buffer size))))
    (checked : k.readChecked fd.toInt buffer size = true) :
    k.OwnBlock k.current buffer size.toInt.toNat := by
  obtain ⟨descriptor, _, positive, access⟩ := readChecked_iff.mp checked
  obtain ⟨number, small⟩ := size_toNat positive
  rw [number]
  apply ownBlock_of_access laid owner small _ access
  intro some
  apply allowed (buffer, size.toNat) _ some
  simp only [Kernel.target]
  rw [if_neg (by omega), number]
  rfl

/-- The heap of a live task stays, unless it runs `sys_sbrk`. -/
theorem heapTop_step (ref : Refines k r) (sound : Roster.Sound r) (laid : k.space.Laid)
    {label : Option Action} (stepped : k.step label = some k') (alive : k.space.dir task ≠ none)
    (away : task = k.current → ∀ increment, label ≠ some (.call (.sbrk increment))) :
    k'.space.heapTop task = k.space.heapTop task := by
  rcases ref.step_space sound laid stepped with moved | last
  · exact moved.heapTop alive away
  · obtain ⟨_, addr, value, home, _, _, _, _, same⟩ := last
    rw [same]

theorem Kernel.ReadsOwn.step (own : k.ReadsOwn) (ref : Refines k r) (sound : Roster.Sound r)
    (laid : k.space.Laid) {label : Option Action} (allowed : judged k label)
    (stepped : k.step label = some k') : k'.ReadsOwn := by
  obtain ⟨r', step, after, refused⟩ := ref.step sound stepped
  intro t buffer totalSize alive away reads
  have core : (k'.tasks t).core = r'.task t := after.core t
  have before : (k.tasks t).core = r.task t := ref.core t
  have alive' : (r'.task t).dir ≠ none := by
    rw [← core]
    exact alive
  have away' : r'.Away t := by
    rw [Roster.Away, ← after.current, ← after.mode]
    exact away
  have reads' : (r'.task t).resume.reads buffer totalSize := by
    rw [← core]
    exact reads
  rcases step.reads sound alive' away' reads' with waited | called
  · obtain ⟨living, resumed, reading⟩ := waited
    rw [← before] at living reading
    have still : k'.space.heapTop t = k.space.heapTop t := by
      apply heapTop_step ref sound laid stepped living
      intro mine increment same
      rw [resumed (mine.trans ref.current)] at same
      cases same
    apply ownBlock_congr still
    apply own t buffer totalSize living _ reading
    intro mine
    rw [resumed (mine.trans ref.current)] at stepped
    exact (step_none stepped).1
  · obtain ⟨mine, fd, size, rfl, rfl⟩ := called
    rw [← ref.current] at mine
    obtain ⟨home, owner⟩ := ref.owner sound
    have user := (step_action stepped).1
    have checked : k.readChecked fd.toInt buffer size = true := by
      by_contra unchecked
      have still := refused fd buffer size rfl (Bool.eq_false_iff.mpr unchecked)
      rw [still] at away'
      have switching := away' (mine.trans ref.current)
      rw [← ref.mode, user] at switching
      cases switching
    rw [mine]
    have still : k'.space.heapTop k.current = k.space.heapTop k.current := by
      apply heapTop_step ref sound laid stepped (Space.housed owner)
      intro _ increment same
      cases same
    exact ownBlock_congr still (ownBlock_of_read laid owner allowed checked)

/-! ### Calls -/

/-- The checks of a system call on the addresses that it is given. -/
def Kernel.passes (k : Kernel) : Syscall → Bool
  | .read _ buffer size => buffer ≠ 0 && k.accessOk .write buffer size
  | .getStats _ st => st ≠ 0 && k.accessOk .write st 28
  | .clone function stack _ => k.accessOk .write function 4 && k.accessOk .write stack 4
  | _ => true

/-- What a system call stores, as its checks decide. -/
structure Kernel.Guards (k : Kernel) (request : Syscall) : Prop where
  idle : k.target request = none → (k.syscall request).1.stores = k.stores
  refused : ∀ start count, k.target request = some (start, count) → k.passes request = false →
    k.syscall request = (k, -EFAULT)
  block : ∀ start count, k.target request = some (start, count) →
    ∃ more, (k.syscall request).1.stores = more ++ k.stores ∧
      ∀ pair ∈ more, pair.1 = k.current ∧ InBlock start count pair.2

theorem guards_read (ref : Refines k r) (laid : k.space.Laid)
    (owner : k.space.dir k.current = some home) (fd buffer size : DWord) : k.Guards (.read fd buffer size) := by
  constructor
  · intro none
    simp only [Kernel.target] at none
    split at none
    · rename_i bad
      show (k.sysRead fd.toInt buffer size).1.stores = k.stores
      rw [sysRead_refused]
      apply Bool.eq_false_iff.mpr
      intro checked
      have both := readChecked_iff.mp checked
      omega
    · cases none
  · intro start count target denied
    simp only [Kernel.target] at target
    split at target
    · cases target
    · rename_i fine
      rw [not_or] at fine
      show k.sysRead fd.toInt buffer size = (k, -EFAULT)
      unfold Kernel.sysRead
      rw [if_neg fine.1, if_neg fine.2]
      split
      · rfl
      · rename_i some
        simp only [Kernel.passes, Bool.and_eq_false_iff, decide_eq_false_iff_not, not_not] at denied
        rw [denied.resolve_left some]
        rfl
  · intro start count target
    simp only [Kernel.target] at target
    split at target
    · cases target
    · cases target
      apply (@wrote_sysRead k home _ buffer r ref laid owner fd.toInt size _).stores
      exact fun _ _ addr within => within.mono (Nat.min_le_left ..)

theorem target_getStats {pid st : DWord} {i : TaskId} (positive : ¬ pid.toInt < 0)
    (found : ((List.finRange nrTasks).find? fun i => (k.tasks i).pid == pid.toInt) = some i)
    (alive : (k.tasks i).state ≠ .invalid) : k.target (.getStats pid st) = some (st, 28) := by
  simp only [Kernel.target]
  rw [found]
  exact if_neg (not_or.mpr ⟨positive, alive⟩)

theorem guards_getStats (laid : k.space.Laid) (owner : k.space.dir k.current = some home)
    (pid st : DWord) : k.Guards (.getStats pid st) := by
  constructor
  · intro none
    show (k.sysGetStats pid.toInt st).1.stores = k.stores
    unfold Kernel.sysGetStats
    split
    · rfl
    · rename_i positive
      split
      · rfl
      · cases found : (List.finRange nrTasks).find? fun i => (k.tasks i).pid == pid.toInt with
        | none => rfl
        | some i =>
            dsimp only
            rw [if_pos]
            by_contra alive
            rw [target_getStats positive found alive] at none
            cases none
  · intro start count target denied
    have positive : ¬ pid.toInt < 0 := by
      intro negative
      simp only [Kernel.target] at target
      split at target
      · cases target
      · rw [if_pos (Or.inl negative)] at target
        cases target
    show k.sysGetStats pid.toInt st = (k, -EFAULT)
    unfold Kernel.sysGetStats
    simp only [Kernel.passes, Bool.and_eq_false_iff, decide_eq_false_iff_not, not_not] at denied
    rw [if_neg positive, if_pos]
    rcases denied with zero | access
    · exact Or.inl zero
    · rw [access]
      exact Or.inr rfl
  · intro start count target
    have place : (start, count) = (st, 28) := by
      simp only [Kernel.target] at target
      split at target
      · cases target
      · split at target
        · cases target
        · cases target
          rfl
    cases place
    exact (@poked_sysGetStats k home _ laid owner pid.toInt st fun _ _ _ _ _ _ => id).stores

theorem guards_clone (ref : Refines k r) (sound : Roster.Sound r) (laid : k.space.Laid)
    (busy : k.current ≠ k.idleTask) (function stack exitFunc : DWord) :
    k.Guards (.clone function stack exitFunc) := by
  constructor
  · intro none
    simp only [Kernel.target] at none
    split at none
    · rename_i empty
      show (k.sysClone function stack exitFunc).1.stores = k.stores
      unfold Kernel.sysClone
      split
      · rfl
      · unfold Kernel.allocateProcess
        rw [if_pos empty]
    · cases none
  · intro start count _ denied
    show k.sysClone function stack exitFunc = (k, -EFAULT)
    unfold Kernel.sysClone
    rw [if_pos]
    simp only [Kernel.passes, Bool.and_eq_false_iff] at denied
    simpa using denied
  · intro start count target
    simp only [Kernel.target] at target
    split at target
    · cases target
    · cases target
      exact stores_sysClone ref sound laid busy function stack exitFunc

/-- The call's own checks pass a block in own pages only. -/
theorem ownBlock_of_call (laid : k.space.Laid) (owner : k.space.dir k.current = some home)
    {request : Syscall} (allowed : judged k (some (.call request)))
    (target : k.target request = some (start, count)) (passes : k.passes request = true) :
    k.OwnBlock k.current start count := by
  cases request with
  | read fd buffer size =>
      simp only [Kernel.passes, Bool.and_eq_true, decide_eq_true_eq] at passes
      simp only [Kernel.target] at target
      split at target
      · cases target
      · rename_i fine
        cases target
        apply ownBlock_of_read laid owner allowed
        exact readChecked_iff.mpr ⟨by omega, passes.1, by omega, passes.2⟩
  | getStats pid st =>
      simp only [Kernel.passes, Bool.and_eq_true, decide_eq_true_eq] at passes
      have fine := allowed (start, count) target
      simp only [Kernel.target] at target
      split at target
      · cases target
      · split at target
        · cases target
        · cases target
          exact @ownBlock_of_access k home _ laid owner 28 (by decide) fine passes.2
  | clone function stack exitFunc =>
      simp only [Kernel.passes, Bool.and_eq_true] at passes
      have some : k.target (.clone function stack exitFunc) ≠ none := by
        rw [target]
        simp
      have fine := allowed some passes.1
      simp only [Kernel.target] at target
      split at target
      · cases target
      · cases target
        exact ownBlock_of_stack laid owner fine passes.2
  | _ => cases target

/-- The statistics at the entry do not change what a call is about. -/
theorem target_updateEnteringSys {request : Syscall} :
    k.updateEnteringSys.target request = k.target request := by
  have view : k.updateEnteringSys.view = k.view := view_updateEnteringSys
  have links : k.updateEnteringSys.links = k.links := congrArg View.links view
  have pid : ∀ i, (k.updateEnteringSys.tasks i).pid = (k.tasks i).pid :=
    fun i => congrArg TaskCore.pid (core_of_view view i)
  have state : ∀ i, (k.updateEnteringSys.tasks i).state = (k.tasks i).state :=
    fun i => congrArg TaskCore.state (core_of_view view i)
  cases request with
  | getStats asked st => simp only [Kernel.target, pid, state]
  | clone function stack exitFunc => simp only [Kernel.target, links]
  | _ => rfl

theorem passes_updateEnteringSys {request : Syscall} :
    k.updateEnteringSys.passes request = k.passes request := by
  cases request with
  | read fd buffer size => simp only [Kernel.passes, accessOk_updateEnteringSys]
  | getStats pid st => simp only [Kernel.passes, accessOk_updateEnteringSys]
  | clone function stack exitFunc => simp only [Kernel.passes, accessOk_updateEnteringSys]
  | _ => rfl

theorem guards_call (ref : Refines k r) (sound : Roster.Sound r) (laid : k.space.Laid)
    (busy : k.current ≠ k.idleTask) {request : Syscall}
    (storing : storesForUser (some (.call request)) = true) : k.Guards request := by
  obtain ⟨home, owner⟩ := ref.owner sound
  cases request with
  | read fd buffer size => exact guards_read ref laid owner fd buffer size
  | getStats pid st => exact guards_getStats laid owner pid st
  | clone function stack exitFunc => exact guards_clone ref sound laid busy function stack exitFunc
  | _ => cases storing

/-- Where the continuation after a task switch stores: in the buffer of a read. -/
theorem resume_block (ref : Refines k r) (sound : Roster.Sound r) (laid : k.space.Laid)
    (switching : k.mode = .switching) : k.resume.stores = k.stores ∨
      ∃ buffer totalSize, k.currentTask.kernelEsp.reads buffer totalSize ∧
        k.current ≠ k.idleTask ∧ ∃ more, k.resume.stores = more ++ k.stores ∧
          ∀ pair ∈ more, pair.1 = k.current ∧ InBlock buffer totalSize.toNat pair.2 := by
  obtain ⟨home, owner⟩ := ref.owner sound
  have saved : k.currentTask.kernelEsp = (r.task r.current).resume := by
    rw [← ref.core, ← ref.current]
    rfl
  have quiet : ∀ k₁ : Kernel, k₁.space = k.space → k₁.leave.stores = k.stores := by
    intro k₁ same
    exact congrArg Space.stores ((@space_leave k₁).trans same)
  unfold Kernel.resume
  dsimp only
  split
  · exact Or.inl rfl
  · exact Or.inl rfl
  · exact Or.inl (quiet _ rfl)
  · exact Or.inl (quiet _ rfl)
  · exact Or.inl (quiet _ rfl)
  · exact Or.inl (quiet _ space_semWaitResumed)
  · rename_i buffer size here
    change k.currentTask.kernelEsp = _ at here
    right
    refine ⟨buffer, size, Or.inl here, ?_, ?_⟩
    · rw [ref.current, ref.idle]
      exact sound.toPoised.reader_busy (by rw [← saved, here]; rfl)
    · obtain ⟨more, shape, mine⟩ :=
        (@wrote_readFirst { k with mode := .user } home buffer _ size ref.enterUser laid owner).stores
      refine ⟨more, (congrArg Space.stores space_leave).trans shape, ?_⟩
      exact fun pair member => ⟨(mine pair member).1, (mine pair member).2.mono (Nat.min_le_left ..)⟩
  · rename_i buffer totalSize size here
    change k.currentTask.kernelEsp = _ at here
    have sane := sound.park.current (ref.mode.symm.trans switching)
    rw [← saved, here] at sane
    obtain ⟨positive, part⟩ := sane
    right
    refine ⟨buffer, totalSize, Or.inr ⟨size, here, positive.le, part⟩, ?_, ?_⟩
    · rw [ref.current, ref.idle]
      exact sound.toPoised.reader_busy (by rw [← saved, here]; rfl)
    · obtain ⟨more, shape, mine⟩ := (@wrote_readAgain { k with mode := .user } home buffer _
        totalSize size ref.enterUser laid owner).stores
      refine ⟨more, (congrArg Space.stores space_leave).trans shape, ?_⟩
      exact fun pair member => ⟨(mine pair member).1,
        (mine pair member).2.tail (Nat.min_le_left ..) positive.le part⟩

/-- Pages of the running task are present. -/
theorem present_of_own (laid : k.space.Laid) (owner : k.space.dir k.current = some home)
    (busy : k.current ≠ k.idleTask) (own : k.OwnBlock k.current start count)
    {more : List (TaskId × DWord)}
    (mine : ∀ pair ∈ more, pair.1 = k.current ∧ InBlock start count pair.2) :
    ∀ pair ∈ more, pair.1 = k.current ∧ k.OwnPage k.current (pair.2.toNat / pageSize) ∧
      (k.mm.getEntry (k.getPT k.current) (pair.2.toNat / pageSize)).present = true := by
  intro pair member
  obtain ⟨running, within⟩ := mine pair member
  have table : k.getPT k.current = home := congrArg (Option.getD · 0) owner
  refine ⟨running, own pair.2 within, ?_⟩
  rw [table]
  exact laid.own k.current home _ owner busy (ownPage_iff.mp (own pair.2 within))

theorem writesOwn_call (ref : Refines k r) (sound : Roster.Sound r) (laid : k.space.Laid)
    {request : Syscall} (storing : storesForUser (some (.call request)) = true)
    (allowed : judged k (some (.call request)))
    (stepped : k.step (some (.call request)) = some k') :
    k.WritesOwn (some (.call request)) k' := by
  obtain ⟨home, owner⟩ := ref.owner sound
  obtain ⟨_, enabled, after⟩ := step_action stepped
  have busy : k.current ≠ k.idleTask := by simpa [Kernel.enabled] using enabled
  have entered : k.updateEnteringSys.space = k.space := space_updateEnteringSys
  have current : k.updateEnteringSys.current = k.current := congrArg Space.current entered
  have before : k.updateEnteringSys.stores = k.stores := congrArg Space.stores entered
  have stored : k'.stores = (k.updateEnteringSys.syscall request).1.stores := by
    rw [after]
    exact congrArg Space.stores space_leave
  have guards : k.updateEnteringSys.Guards request := by
    apply guards_call (ref.of_view view_updateEnteringSys) sound (entered ▸ laid) _ storing
    have idle : k.updateEnteringSys.idleTask = k.idleTask := congrArg Space.idle entered
    rw [current, idle]
    exact busy
  constructor
  · cases target : k.target request with
    | none =>
        refine ⟨[], ?_, by simp⟩
        rw [stored, guards.idle (target_updateEnteringSys.trans target), before]
        rfl
    | some block =>
        have place := (@target_updateEnteringSys k request).trans target
        by_cases passes : k.passes request = true
        · obtain ⟨more, shape, mine⟩ := guards.block block.1 block.2 place
          rw [before] at shape
          rw [current] at mine
          have own := ownBlock_of_call laid owner allowed target passes
          exact ⟨more, stored.trans shape, present_of_own laid owner busy own mine⟩
        · refine ⟨[], ?_, by simp⟩
          have denied := passes_updateEnteringSys.trans (Bool.eq_false_iff.mpr passes)
          rw [stored, guards.refused block.1 block.2 place denied, before]
          rfl
  · intro request' start count same target outside
    cases same
    have denied : k.updateEnteringSys.passes request = false := by
      rw [passes_updateEnteringSys]
      apply Bool.eq_false_iff.mpr
      intro passes
      exact outside (ownBlock_of_call laid owner allowed target passes)
    have done := guards.refused start count (target_updateEnteringSys.trans target) denied
    refine ⟨congrArg Prod.snd done, ?_⟩
    rw [stored, done, before]

theorem writesOwn_resume (ref : Refines k r) (sound : Roster.Sound r) (laid : k.space.Laid)
    (own : k.ReadsOwn) (stepped : k.step none = some k') : k.WritesOwn none k' := by
  obtain ⟨home, owner⟩ := ref.owner sound
  obtain ⟨switching, after⟩ := step_none stepped
  refine ⟨?_, fun _ _ _ same => nomatch same⟩
  rw [after]
  rcases resume_block ref sound laid switching with same | stored
  · exact ⟨[], same, by simp⟩
  · obtain ⟨buffer, totalSize, reads, busy, more, shape, mine⟩ := stored
    have block := own k.current buffer totalSize (Space.housed owner) (fun _ => switching) reads
    exact ⟨more, shape, present_of_own laid owner busy block mine⟩

theorem Refines.readsOwn (ref : Refines k r) (none : ∀ t, (r.task t).resume.reading = false) :
    k.ReadsOwn := by
  intro t buffer totalSize _ _ reads
  have quiet := none t
  rw [← ref.core t] at quiet
  exact absurd (reads.reading.symm.trans quiet) (by decide)

/-- Every byte that the kernel stores for a process is in data and heap pages of the process,
in the runs where `access_ok` judges its blocks rightly. -/
theorem stores_own {label : Option Action} (reached : Reachable judged k)
    (allowed : judged k label) (storing : storesForUser label = true)
    (stepped : k.step label = some k') : k.WritesOwn label k' := by
  have all : (∃ r, Refines k r ∧ Roster.Sound r) ∧ (k.stuck = true ∨ k.space.Laid) ∧
      k.ReadsOwn := by
    apply reached.invariant fun k => (∃ r, Refines k r ∧ Roster.Sound r) ∧
      (k.stuck = true ∨ k.space.Laid) ∧ k.ReadsOwn
    · intro k booted
      obtain ⟨image, rfl⟩ := booted
      exact ⟨⟨Roster.boot, boot_refines image, Roster.boot_sound⟩, Or.inr (boot_space image).laid,
        (boot_refines image).readsOwn (by decide)⟩
    · intro k label k' before allowed stepped
      obtain ⟨⟨r, ref, sound⟩, state, own⟩ := before
      have laid := state.resolve_left (stuck_step stepped)
      obtain ⟨r', step, after, _⟩ := ref.step sound stepped
      refine ⟨⟨r', after, sound.step step⟩, ?_, own.step ref sound laid allowed stepped⟩
      rcases ref.step_space sound laid stepped with moved | last
      · exact Or.inr (laid.step moved)
      · exact Or.inl last.1
  obtain ⟨⟨r, ref, sound⟩, state, own⟩ := all
  have laid := state.resolve_left (stuck_step stepped)
  cases label with
  | none => exact writesOwn_resume ref sound laid own stepped
  | some action =>
      cases action with
      | call request => exact writesOwn_call ref sound laid storing allowed stepped
      | _ => cases storing

/-- A task grows its heap by a page, and asks for its statistics there. -/
theorem stores_own_heap :
    (Kernel.after (fun k label => decide (judged k label)) [some (.call (.sbrk 4095))]).WritesOwn
      (some (.call (.getStats 1 0x1FF000)))
      (Kernel.after (fun k label => decide (judged k label))
        [some (.call (.sbrk 4095)), some (.call (.getStats 1 0x1FF000))]) := by
  apply stores_own
  · apply (reached_after (by decide +kernel)).mono
    intro k label allowed
    exact of_decide_eq_true allowed
  · decide +kernel
  · rfl
  · exact @step_after _ [some (.call (.sbrk 4095))] _ (by decide +kernel)

/-- At boot, `sys_get_stats` stores into the first code page. -/
theorem stores_own_counterexample :
    ¬ ∀ k label k', Reachable anyAction k → storesForUser label = true →
      k.step label = some k' → k.WritesOwn label k' := by
  intro claim
  have reached := @reached_after everyStep [] (by decide +kernel)
  have stepped := @step_after everyStep [] (some (.call (.getStats 1 0x100000))) (by decide +kernel)
  obtain ⟨own, _⟩ := claim _ _ _ reached.any rfl stepped
  obtain ⟨more, shape, mine⟩ := own
  have fresh : (Kernel.after everyStep []).stores = [] := by decide +kernel
  have stored : ((1, 0x100000) : TaskId × DWord) ∈ (Kernel.after everyStep
      ([] ++ [some (.call (.getStats 1 0x100000))])).stores := by decide +kernel
  rw [shape, fresh, List.append_nil] at stored
  have inside := (mine _ stored).2.1
  revert inside
  decide +kernel

end Zeos
