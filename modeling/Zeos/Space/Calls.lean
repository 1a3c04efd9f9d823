import Zeos.Space.Laid

set_option autoImplicit false

/-! What the functions of the kernel do to the address spaces. -/

namespace Zeos

open Space (Minor Minors)

variable {k k' : Kernel} {task : TaskId} {sem : SemId} {home dir : DirId}

/-! ### What does not concern memory -/

theorem space_setTask {struct : TaskStruct} (heapTop : struct.heapTop = (k.tasks task).heapTop)
    (dir : struct.dirPagesBaseAddr = (k.tasks task).dirPagesBaseAddr) :
    (k.setTask task struct).space = k.space := by
  have heapTops : (fun t => ((k.setTask task struct).tasks t).heapTop) =
      fun t => (k.tasks t).heapTop := by
    funext t
    simp only [Kernel.setTask, Function.update_apply]
    split
    · rename_i mine
      rw [mine, heapTop]
    · rfl
  have dirs : (fun t => ((k.setTask task struct).tasks t).dirPagesBaseAddr) =
      fun t => (k.tasks t).dirPagesBaseAddr := by
    funext t
    simp only [Kernel.setTask, Function.update_apply]
    split
    · rename_i mine
      rw [mine, dir]
    · rfl
  simp only [Kernel.space, heapTops, dirs]
  rfl

@[simp] theorem space_hang : k.hang.space = k.space := rfl

@[simp] theorem space_text {message : String} : (k.text message).space = k.space := rfl

@[simp] theorem space_note {entry : Note} : (k.note entry).space = k.space := rfl

@[simp] theorem space_setSem {value : Semaphore} : (k.setSem sem value).space = k.space := rfl

@[simp] theorem space_setState {state : TaskState} : (k.setState task state).space = k.space :=
  space_setTask rfl rfl

@[simp] theorem space_setStats {st : Stats} : (k.setStats task st).space = k.space :=
  space_setTask rfl rfl

@[simp] theorem space_updateStats {e : Event} : (k.updateStats task e).space = k.space := by
  unfold Kernel.updateStats
  split
  · exact space_setStats
  · dsimp only
    split
    · rfl
    · change (Kernel.setStats { k with clockReads := k.clockReads + 1 } task _).space = _
      exact space_setStats

@[simp] theorem space_updateEnteringSys : k.updateEnteringSys.space = k.space := space_updateStats

@[simp] theorem space_leave : k.leave.space = k.space := by
  unfold Kernel.leave
  split
  · rfl
  · exact space_updateStats

@[simp] theorem space_updateProcessState {dest : Option Node} {first : Bool} :
    (k.updateProcessState task dest first).space = k.space := by
  unfold Kernel.updateProcessState
  dsimp only
  generalize unlinked : (if (k.links (.anchor task)).next ≠ none ∧
    (k.links (.anchor task)).prev ≠ none then
      { k with links := listDel k.links (.anchor task) } else k) = k₁
  have same : k₁.space = k.space := by
    rw [← unlinked]
    split <;> rfl
  rw [← same]
  cases dest with
  | none => exact space_setState
  | some dest =>
      dsimp only
      generalize linked : (if first = true then
        { k₁ with links := listAdd k₁.links (.anchor task) dest }
        else { k₁ with links := listAddTail k₁.links (.anchor task) dest }) = k₂
      have same' : k₂.space = k₁.space := by
        rw [← linked]
        split <;> rfl
      rw [← same']
      split
      · exact space_setState
      · split
        · exact space_setState
        · exact space_setState

@[simp] theorem space_updateProcessStateRr {dest : Option Node} :
    (k.updateProcessStateRr task dest).space = k.space := space_updateProcessState

@[simp] theorem space_addProcess {e : Event} {first : Bool} :
    (k.addProcessToScheduling task e first).space = k.space := by
  rw [Kernel.addProcessToScheduling, space_updateStats, space_updateProcessState]

/-! ### Task switches -/

theorem space_taskSwitch {saved : Resume} :
    (k.taskSwitch task saved).space = k.space.turn task := by
  have same : (k.setTask k.current { k.currentTask with kernelEsp := saved }).space = k.space :=
    space_setTask rfl rfl
  unfold Kernel.taskSwitch
  dsimp only
  generalize k.setTask k.current { k.currentTask with kernelEsp := saved } = k₁ at same ⊢
  rw [← same]
  by_cases apart : k₁.space.dir k₁.space.current ≠ k₁.space.dir task
  · rw [if_pos (show k₁.currentTask.dirPagesBaseAddr ≠ (k₁.tasks task).dirPagesBaseAddr from apart),
      Space.turn, if_pos apart]
    rfl
  · rw [if_neg (show ¬ k₁.currentTask.dirPagesBaseAddr ≠ (k₁.tasks task).dirPagesBaseAddr from apart),
      Space.turn, if_neg apart]
    rfl

/-- The kernel gives the CPU to a task, unless it is broken. -/
theorem minors_schedNext {saved : Resume} : Minors k.space (k.schedNextRr saved).space := by
  unfold Kernel.schedNextRr
  split
  · exact .refl
  · rename_i next _
    dsimp only
    rw [space_taskSwitch]
    apply Relation.ReflTransGen.single
    have same : ((({ (k.updateProcessStateRr next none).updateStats next .readyToSys with
        currentTicks := 0 } : Kernel).updateStats next .currentTicksUpdated)).space = k.space := by
      rw [space_updateStats]
      change ((k.updateProcessStateRr next none).updateStats next .readyToSys).space = _
      rw [space_updateStats, space_updateProcessStateRr]
    rw [same]
    exact .turn next

theorem minors_of_same (same : k'.space = k.space) {s : Space} (minors : Minors k'.space s) :
    Minors k.space s := same ▸ minors

theorem minors_clock : Minors k.space k.clockRoutine.space := by
  unfold Kernel.clockRoutine
  split
  · unfold Kernel.executeScheduling
    dsimp only
    have ticked : Kernel.space (Kernel.updateSchedDataRr { k with zeosTicks := k.zeosTicks + 1 }) =
        k.space := by
      unfold Kernel.updateSchedDataRr
      exact space_updateStats
    generalize Kernel.updateSchedDataRr { k with zeosTicks := k.zeosTicks + 1 } = k₁ at ticked ⊢
    split
    · apply minors_of_same _ minors_schedNext
      rw [space_updateStats, ← ticked]
      split
      · exact space_updateProcessStateRr
      · rfl
    · rw [ticked]
  · exact .refl

theorem minors_wakeReader : Minors k.space k.wakeReader.space := by
  unfold Kernel.wakeReader
  dsimp only
  generalize yielded : (if k.current ≠ k.idleTask then
    k.addProcessToScheduling k.current .sysToReady false else k) = k₁
  have same : k₁.space = k.space := by
    rw [← yielded]
    split
    · exact space_addProcess
    · rfl
  split
  · rw [space_hang, same]
  · exact minors_of_same (space_addProcess.trans same) minors_schedNext

theorem minors_keyboard {value : Byte} : Minors k.space (k.keyboardRoutine value).space := by
  unfold Kernel.keyboardRoutine
  split
  · exact .refl
  · split
    · exact .refl
    · dsimp only
      split
      · exact .refl
      · split
        · exact minors_of_same (by rfl) minors_wakeReader
        · exact .refl

theorem minors_blockInRead {first : Bool} {saved : Resume} :
    Minors k.space (k.blockInRead first saved).space := by
  unfold Kernel.blockInRead
  apply minors_of_same _ minors_schedNext
  rw [space_updateStats, space_updateProcessState]

/-! ### Semaphores -/

theorem minors_semWait {nSem : Int} : Minors k.space (k.sysSemWait nSem).1.space := by
  unfold Kernel.sysSemWait
  split
  · exact .refl
  · split
    · exact .refl
    · split
      · apply minors_of_same _ minors_schedNext
        rw [space_updateStats, space_updateProcessStateRr, space_note]
      · exact .refl

@[simp] theorem space_semInit {nSem : Int} {value : DWord} :
    (k.sysSemInit nSem value).1.space = k.space := by
  unfold Kernel.sysSemInit
  split
  · rfl
  · split
    · rfl
    · split
      · rfl
      · rfl

@[simp] theorem space_semWaitResumed : k.semWaitResumed.1.space = k.space := by
  unfold Kernel.semWaitResumed
  split
  · change (k.setTask k.current { k.currentTask with semDeleted := false }).space = _
    exact space_setTask (by rfl) (by rfl)
  · rfl

@[simp] theorem space_semSignal {nSem : Int} : (k.sysSemSignal nSem).1.space = k.space := by
  unfold Kernel.sysSemSignal
  split
  · rfl
  · split
    · rfl
    · split
      · rfl
      · split
        · rfl
        · exact space_addProcess

@[simp] theorem space_abortWaiter {node : Node} : (Kernel.abortWaiter sem node k).space = k.space := by
  unfold Kernel.abortWaiter
  split
  · rfl
  · dsimp only
    rw [space_note, space_setTask (by rfl) (by rfl), space_addProcess]

theorem space_forEachSafe {head : Node} {body : Node → Kernel → Kernel}
    (same : ∀ node k, (body node k).space = k.space) (fuel : Nat) :
    ∀ (pos aux : Option Node) (k : Kernel),
      (Kernel.listForEachSafe head body fuel pos aux k).space = k.space := by
  induction fuel with
  | zero => exact fun _ _ _ => rfl
  | succ fuel ih =>
      intro pos aux k
      unfold Kernel.listForEachSafe
      split
      · rfl
      · split
        · rfl
        · rename_i node _
          dsimp only
          rw [ih, same]

@[simp] theorem space_semDestroy {nSem : Int} : (k.sysSemDestroy nSem).1.space = k.space := by
  unfold Kernel.sysSemDestroy
  split
  · rfl
  · split
    · rfl
    · split
      · rfl
      · dsimp only [Kernel.forEachSafe]
        rw [space_forEachSafe (fun _ _ => space_abortWaiter)]
        rfl

@[simp] theorem space_freeSemaphores : (k.freeSemaphores task).space = k.space := by
  have loop := @space_forEachSafe (.semaphores task) Kernel.destroyOwned
    (fun node k => by
      unfold Kernel.destroyOwned
      split
      · exact space_semDestroy
      · rfl) Kernel.nodeCount (listFirst k.links (.semaphores task))
    (nextOf k.links (listFirst k.links (.semaphores task))) k
  exact loop

/-! ### Faults -/

/-- What `access_ok` lets pass: both tests have one page too many at the end of the data
pages and at the start of the heap, and only the first page of a heap range is tested. -/
theorem accessOk_iff (laid : k.space.Laid) (owner : k.space.dir k.current = some home)
    {type : Verify} {addr size : DWord} : k.accessOk type addr size = true ↔
      addr.toNat / pageSize ≤ (addr + size).toNat / pageSize ∧
      ((pagLogInitCode ≤ addr.toNat / pageSize ∧
        (addr + size).toNat / pageSize ≤ pagLogInitData + numPagData) ∨
      (pagLogInitHeap ≤ addr.toNat / pageSize + k.space.runningPages ∧
        addr.toNat / pageSize ≤ pagLogInitHeap)) := by
  obtain ⟨code, data, heap, most⟩ := Mm.regions
  obtain ⟨inside, room⟩ := laid.top k.current (Space.housed owner)
  have shift : ∀ x : Nat, x >>> 12 = x / pageSize := fun x => Nat.shiftRight_eq_div_pow x 12
  have pages : getHeapPageSize k.currentTask.heapTop = k.space.runningPages :=
    getHeapPageSize_eq inside
  change k.space.runningPages ≤ Mm.maxHeapPages at room
  have low : (BitVec.ofInt 32 ((pagLogInitHeap : Int) - k.space.runningPages)).toNat =
      pagLogInitHeap - k.space.runningPages := by
    rw [BitVec.toNat_ofInt]
    omega
  unfold Kernel.accessOk
  dsimp only
  rw [pages, low, shift, shift]
  generalize addr.toNat / pageSize = first
  generalize (addr + size).toNat / pageSize = last
  by_cases wrong : last < first
  · rw [if_pos wrong]
    constructor
    · intro impossible
      cases impossible
    · intro both
      omega
  · rw [if_neg wrong]
    have user : userFirstPage = 256 := rfl
    simp only [numPagCode, numPagData]
    split
    · rename_i granted
      obtain ⟨_, place⟩ := granted
      refine iff_of_true rfl ⟨by omega, ?_⟩
      rcases place with inData | inHeap
      · left
        omega
      · right
        omega
    · rw [decide_eq_true_eq]
      omega

theorem reach_of_accessOk (laid : k.space.Laid) (owner : k.space.dir k.current = some home)
    {addr : DWord} (granted : k.accessOk .write addr 1 = true) :
    k.space.Reach (addr.toNat / pageSize) := by
  obtain ⟨order, inData | inHeap⟩ := (accessOk_iff laid owner).mp granted
  · left
    omega
  · exact Or.inr inHeap

/-- What `pf_rsi` does on an address of the page. -/
inductive Handled (k : Kernel) (home : DirId) (page : Nat) (k' : Kernel) : Prop where
  | lost : k'.stuck = true → k'.space = k.space.miss page → Handled k home page k'
  | own : k.space.Reach page → k.mm.cowCountMem (k.space.frame home page) = 1 →
      k'.space = k.space.own home page → Handled k home page k'
  | split (frame : Nat) : k.space.Reach page →
      2 ≤ k.mm.cowCountMem (k.space.frame home page) →
      (k.space.released home page).allocFrame =
        ((k.space.released home page).take frame, some frame) →
      k'.space = k.space.split home page frame → Handled k home page k'
  | exhausted : k.space.Reach page → 2 ≤ k.mm.cowCountMem (k.space.frame home page) →
      (k.space.released home page).allocFrame = (k.space.released home page, none) →
      k'.stuck = true → k'.space = { k.space with mm := k.space.released home page } →
      Handled k home page k'

theorem handled_pfRsi (laid : k.space.Laid) (owner : k.space.dir k.current = some home)
    {addr : DWord} : Handled k home (addr.toNat / pageSize)
      (Kernel.pfRsi { k with mm := k.mm.fault (addr.toNat / pageSize) } addr) := by
  have table : Kernel.getPT { k with mm := k.mm.fault (addr.toNat / pageSize) } k.current = home := by
    change (k.space.dir k.current).getD 0 = home
    rw [owner]
    rfl
  have shift : addr.toNat >>> 12 = addr.toNat / pageSize := Nat.shiftRight_eq_div_pow _ 12
  have access : Kernel.accessOk { k with mm := k.mm.fault (addr.toNat / pageSize) } .write addr 1 =
      k.accessOk .write addr 1 := rfl
  unfold Kernel.pfRsi
  rw [access]
  split
  · exact .lost rfl rfl
  · rename_i granted
    have reach := reach_of_accessOk laid owner (by simpa using granted)
    have frame : (k.mm.fault (addr.toNat / pageSize)).getFrame home (addr.toNat / pageSize) =
        k.space.frame home (addr.toNat / pageSize) := rfl
    dsimp only
    rw [shift, table, frame, Mm.cowCountMem_fault]
    split
    · rename_i single
      exact .own reach single rfl
    · split
      · rename_i many
        have free : (k.mm.fault (addr.toNat / pageSize)).setCow
            (k.space.frame home (addr.toNat / pageSize))
            (k.mm.cowCountMem (k.space.frame home (addr.toNat / pageSize)) - 1) =
            k.space.released home (addr.toNat / pageSize) := rfl
        rw [free]
        cases left : (k.space.released home (addr.toNat / pageSize)).freeFrames with
        | nil =>
            have none : (k.space.released home (addr.toNat / pageSize)).allocFrame =
                (k.space.released home (addr.toNat / pageSize), none) := by
              rw [Mm.allocFrame_eq, left]
            rw [none]
            exact .exhausted reach many none rfl rfl
        | cons frame rest =>
            have some : (k.space.released home (addr.toNat / pageSize)).allocFrame =
                ((k.space.released home (addr.toNat / pageSize)).take frame, some frame) := by
              rw [Mm.allocFrame_eq, left]
            rw [some]
            exact .split frame reach many some rfl
      · exact .lost rfl rfl

/-! ### Accesses -/

/-- What `pf_rsi` can repair is there, for reading. -/
theorem mapped_of_counted (laid : k.space.Laid) (owner : k.space.dir k.current = some home)
    {page : Nat} (reach : k.space.Reach page)
    (counted : k.mm.cowCountMem (k.space.frame home page) ≠ 0) :
    (k.mm.mapped page).present = true ∧ (k.mm.mapped page).user = true := by
  obtain ⟨code, data, heap, most⟩ := Mm.regions
  obtain ⟨_, plain⟩ := laid.repaired owner reach counted
  obtain ⟨_, high⟩ := laid.reach_bounds owner reach
  have cr3 : k.mm.cr3 = some home := laid.steered owner
  have entry : k.mm.mapped page = k.mm.getEntry home page := by
    rw [Mm.mapped, cr3]
    dsimp only
    rw [if_pos (by simp only [totalPages]; omega)]
  rw [entry]
  exact ⟨plain.1, plain.2.1⟩

/-- A fault on a page that is not there, or not the user's, is the end. -/
theorem Handled.gone {page : Nat} (handled : Handled k home page k') (laid : k.space.Laid)
    (owner : k.space.dir k.current = some home)
    (missing : ¬ ((k.mm.mapped page).present = true ∧ (k.mm.mapped page).user = true)) :
    k'.stuck = true ∧ k'.space = k.space.miss page := by
  cases handled with
  | lost stuck same => exact ⟨stuck, same⟩
  | own reach single _ =>
      exact absurd (mapped_of_counted laid owner reach (by rw [single]; decide)) missing
  | split frame reach many _ _ =>
      refine absurd (mapped_of_counted laid owner reach ?_) missing
      intro none
      rw [none] at many
      cases many
  | exhausted reach many _ _ _ =>
      refine absurd (mapped_of_counted laid owner reach ?_) missing
      intro none
      rw [none] at many
      cases many

/-- An access that needs no more than a page of the user either goes on or breaks the
machine. -/
theorem withFault_quiet (laid : k.space.Laid) (owner : k.space.dir k.current = some home)
    (addr : DWord) (allowed : Mm → Bool)
    (enough : (k.mm.mapped (addr.toNat / pageSize)).present = true ∧
      (k.mm.mapped (addr.toNat / pageSize)).user = true → allowed k.mm = true) :
    (allowed k.mm = true ∧ k.withFault addr allowed = k) ∨
      ((k.withFault addr allowed).stuck = true ∧
        (k.withFault addr allowed).space = k.space.miss (addr.toNat / pageSize)) := by
  unfold Kernel.withFault
  by_cases fine : allowed k.mm = true
  · exact Or.inl ⟨fine, if_pos fine⟩
  · right
    have handled := @handled_pfRsi k home laid owner addr
    obtain ⟨stuck, same⟩ := handled.gone laid owner fun both => fine (enough both)
    rw [if_neg fine]
    dsimp only
    rw [stuck, Bool.true_or, if_pos rfl]
    exact ⟨stuck, same⟩

theorem minors_load (laid : k.space.Laid) (owner : k.space.dir k.current = some home)
    {addr : DWord} {allowed : Mm → Bool}
    (enough : (k.mm.mapped (addr.toNat / pageSize)).present = true ∧
      (k.mm.mapped (addr.toNat / pageSize)).user = true → allowed k.mm = true) :
    Minors k.space (k.withFault addr allowed).space := by
  rcases withFault_quiet laid owner addr allowed enough with ⟨_, same⟩ | ⟨_, missed⟩
  · rw [same]
  · rw [missed]
    exact .single (.miss _)

/-- Ring 0 ignores the write protection. -/
theorem kernelWritable_eq (laid : k.space.Laid) {page : Nat} :
    k.mm.kernelWritable page = (k.mm.mapped page).present := by
  have unprotected : k.mm.writeProtect = false := laid.tidy.unprotected
  rw [Mm.kernelWritable, unprotected, Bool.not_false, Bool.or_true, Bool.and_true]

theorem minors_kernelStore (laid : k.space.Laid) (owner : k.space.dir k.current = some home)
    {addr : DWord} {value : Byte} : Minors k.space (k.kernelStore addr value).space := by
  have attempt : Kernel.space { k with stores := (k.current, addr) :: k.stores } =
      k.space.attempt addr := rfl
  have laid' := laid.minor (.attempt addr)
  rw [← attempt] at laid'
  unfold Kernel.kernelStore Kernel.storeWith
  dsimp only
  rcases withFault_quiet laid' owner addr
    (fun m => m.kernelWritable (addr.toNat / pageSize)) (by
      intro both
      exact (kernelWritable_eq laid).trans both.1) with ⟨fine, same⟩ | ⟨stuck, missed⟩
  · rw [same]
    split
    · exact .single (.attempt addr)
    · exact .single (.store addr value ((kernelWritable_eq laid).symm.trans fine))
  · rw [if_pos stuck, missed, attempt]
    exact .tail (.single (.attempt addr)) (.miss _)

/-- The running task and its directory are seen by the scheduler. -/
theorem owner_of_view (same : k'.view = k.view) (owner : k.space.dir k.current = some home) :
    k'.space.dir k'.current = some home := by
  have current : k'.current = k.current := congrArg View.current same
  rw [current]
  exact (congrArg TaskCore.dir (core_of_view same k.current)).trans owner

theorem minors_kernelStores (values : List Byte) : ∀ (k : Kernel) (addr : DWord), k.space.Laid →
    k.space.dir k.current = some home → Minors k.space (k.kernelStores addr values).space := by
  induction values with
  | nil => exact fun _ _ _ _ => .refl
  | cons value rest ih =>
      intro k addr laid owner
      have first := @minors_kernelStore k home laid owner addr value
      rw [Kernel.kernelStores]
      exact first.trans (ih _ _ (laid.minors first) (owner_of_view view_storeWith owner))

theorem minors_kernelLoad (laid : k.space.Laid) (owner : k.space.dir k.current = some home)
    {addr : DWord} : Minors k.space (k.kernelLoad addr).space :=
  @minors_load { k with loads := (k.current, addr) :: k.loads } home laid owner addr _ And.left

theorem minors_kernelLoads (size : Nat) : ∀ (k : Kernel) (addr : DWord), k.space.Laid →
    k.space.dir k.current = some home → Minors k.space (Kernel.kernelLoads size k addr).1.space := by
  induction size with
  | zero => exact fun _ _ _ _ => .refl
  | succ size ih =>
      intro k addr laid owner
      have first := @minors_kernelLoad k home laid owner addr
      exact first.trans (ih _ _ (laid.minors first) (owner_of_view view_withFault owner))

theorem minors_copyFromUser (size : Nat) : ∀ (k : Kernel) (start : DWord), k.space.Laid →
    k.space.dir k.current = some home → Minors k.space (Kernel.copyFromUser size k start).1.space := by
  induction size using Nat.strongRecOn with
  | ind size ih =>
      intro k start laid owner
      match size with
      | 0 | 1 | 2 | 3 | 4 => exact minors_kernelLoads _ k start laid owner
      | size + 5 =>
          have first := minors_kernelLoads 4 k start laid owner
          exact first.trans (ih (size + 1) (by omega) _ _ (laid.minors first)
            (owner_of_view (view_kernelLoads 4 k start) owner))

theorem minors_writeLoop (fuel : Nat) : ∀ (k : Kernel) (buffer : DWord) (size offset : Nat),
    k.space.Laid → k.space.dir k.current = some home →
    Minors k.space (Kernel.writeLoop fuel k buffer size offset).space := by
  induction fuel with
  | zero => exact fun _ _ _ _ _ _ => .refl
  | succ fuel ih =>
      intro k buffer size offset laid owner
      unfold Kernel.writeLoop
      split
      · have first := minors_copyFromUser (min size chunkSize) k
          (buffer + BitVec.ofNat 32 offset) laid owner
        have view := view_copyFromUser (min size chunkSize) k (buffer + BitVec.ofNat 32 offset)
        apply first.trans
        dsimp only
        generalize Kernel.copyFromUser (min size chunkSize) k (buffer + BitVec.ofNat 32 offset) =
          copied at first view
        obtain ⟨k₁, bytes⟩ := copied
        have laid₁ := laid.minors first
        have owner₁ := owner_of_view view owner
        dsimp only at laid₁ owner₁ ⊢
        split
        · exact ih _ _ _ _ laid₁ owner₁
        · exact ih { k₁ with console := k₁.console ++ bytes } _ _ _ laid₁ owner₁
      · exact .refl

theorem minors_sysWrite (laid : k.space.Laid) (owner : k.space.dir k.current = some home)
    {fd size : Int} {buffer : DWord} : Minors k.space (k.sysWrite fd buffer size).1.space := by
  unfold Kernel.sysWrite
  split
  · exact .refl
  · split
    · exact .refl
    · split
      · exact .refl
      · exact minors_writeLoop _ k buffer _ 0 laid owner

theorem minors_sysGetStats (laid : k.space.Laid) (owner : k.space.dir k.current = some home)
    {pid : Int} {st : DWord} : Minors k.space (k.sysGetStats pid st).1.space := by
  unfold Kernel.sysGetStats
  split
  · exact .refl
  · split
    · exact .refl
    · split
      · exact .refl
      · split
        · exact .refl
        · rename_i i _ _
          dsimp only
          generalize refreshed : (if (k.tasks i).state = .ready ∨ (k.tasks i).state = .blocked then
            k.updateStats i .refresh else k) = k₁
          have space : k₁.space = k.space := by
            rw [← refreshed]
            split
            · exact space_updateStats
            · rfl
          have view : k₁.view = k.view := by
            rw [← refreshed]
            split
            · exact view_updateStats
            · rfl
          have stored := minors_kernelStores (statsBytes (k₁.tasks i).st) k₁ st (space ▸ laid)
            (owner_of_view view owner)
          rw [space] at stored
          exact stored

/-! ### Reads from the keyboard -/

theorem minors_readBuffer (size : Nat) : ∀ (k : Kernel) (buffer : DWord) (count : Nat),
    k.space.Laid → k.space.dir k.current = some home →
    Minors k.space (Kernel.readFromKeyboardBuffer size k buffer count).1.space := by
  induction size with
  | zero => exact fun _ _ _ _ _ => .refl
  | succ size ih =>
      intro k buffer count laid owner
      unfold Kernel.readFromKeyboardBuffer
      split
      · exact .refl
      · dsimp only
        have first := @minors_kernelStore k home laid owner (buffer + BitVec.ofNat 32 count)
          k.keyboard.front
        have same : (k.kernelStore (buffer + BitVec.ofNat 32 count) k.keyboard.front).view =
          k.view := view_storeWith
        have owner' := owner_of_view same owner
        refine first.trans (minors_of_same ?_ (ih _ _ _ ?_ ?_))
        · rfl
        · exact laid.minors first
        · exact owner'

theorem minors_readLoop {buffer : DWord} {totalSize size : Int} :
    Minors k.space (k.readKeyboardLoop buffer totalSize size).1.space := by
  unfold Kernel.readKeyboardLoop
  split
  · exact minors_of_same (by rfl) minors_blockInRead
  · exact .refl

theorem minors_readFirst (laid : k.space.Laid) (owner : k.space.dir k.current = some home)
    {buffer : DWord} {totalSize : Int} :
    Minors k.space (k.readKeyboardFirst buffer totalSize).1.space := by
  unfold Kernel.readKeyboardFirst
  exact (minors_readBuffer totalSize.toNat k buffer 0 laid owner).trans minors_readLoop

theorem minors_readAgain (laid : k.space.Laid) (owner : k.space.dir k.current = some home)
    {buffer : DWord} {totalSize size : Int} :
    Minors k.space (k.readKeyboardAgain buffer totalSize size).1.space := by
  unfold Kernel.readKeyboardAgain
  exact (minors_readBuffer size.toNat k _ 0 laid owner).trans minors_readLoop

theorem minors_sysRead (laid : k.space.Laid) (owner : k.space.dir k.current = some home)
    {fd : Int} {buffer size : DWord} : Minors k.space (k.sysRead fd buffer size).1.space := by
  unfold Kernel.sysRead
  split
  · exact .refl
  · split
    · exact .refl
    · split
      · exact .refl
      · split
        · exact .refl
        · unfold Kernel.sysReadKeyboard
          dsimp only
          split
          · exact minors_of_same (by rfl) minors_blockInRead
          · exact minors_readFirst (k := k.note _) laid owner

end Zeos
