import Zeos.Refinement.Semaphores

set_option autoImplicit false

/-! `sys_fork`, `sys_clone` and `sys_exit` against the abstract scheduler. -/

namespace Zeos

open CircularList (Heap Represents Loose)

variable {k k' : Kernel} {r r' : Roster} {task : TaskId} {q q' : Queue} {sem : SemId}

/-! ### Creation -/

theorem family_freeDirs {dirs : List DirId} :
    ({ r with freeDirs := dirs } : Roster).family =
      Function.update r.family .freeDirs (some (dirs.map .dirAnchor)) := by
  rw [Function.eq_update_iff]
  refine ⟨rfl, fun node different => ?_⟩
  cases node <;> first | rfl | exact absurd rfl different

theorem Refines.setDir (ref : Refines k r) (task : TaskId) (dir : Option DirId) :
    Refines (k.setDir task dir) (r.setTask task { r.task task with dir := dir }) := by
  have set := ref.setTask task { k.tasks task with dirPagesBaseAddr := dir }
  have same : ({ k.tasks task with dirPagesBaseAddr := dir } : TaskStruct).core =
      { r.task task with dir := dir } := by
    rw [← ref.core]
    rfl
  rw [same] at set
  exact set

theorem Refines.setDirCount (ref : Refines k r) (dir : DirId) (count : Int) :
    Refines (k.setDirCount dir count)
      { r with dirCount := Function.update r.dirCount dir count } :=
  ⟨ref.lists, ref.core, ref.sems, by rw [← ref.dirCount]; rfl, ref.current, ref.idle, ref.mode,
    ref.lastPid, ref.trace, ref.fromInside, ref.toInside, ref.contents⟩

/-- `allocate_DIR` takes the first spare directory. -/
theorem Refines.allocateDIR (ref : Refines k r) (task : TaskId) {dir : DirId}
    {dirs : List DirId} (spare : r.freeDirs = dir :: dirs) :
    (k.allocateDIR task).2 = true ∧ Refines (k.allocateDIR task).1
      ((r.newDir dir).setTask task { r.task task with dir := some dir }) := by
  have stored : r.family .freeDirs = some (Node.dirAnchor dir :: dirs.map .dirAnchor) := by
    rw [← List.map_cons, ← spare]
    rfl
  have nonempty : ¬ listEmpty k.links .freeDirs = true := by
    rw [listEmpty_iff ref.lists stored]
    simp
  have removed := represents_listDel ref.lists stored List.mem_cons_self
  rw [List.erase_cons_head, ← family_freeDirs] at removed
  have unlinked : Refines { k with links := listDel k.links (.dirAnchor dir) }
      { r with freeDirs := dirs } :=
    ⟨removed, ref.core, ref.sems, ref.dirCount, ref.current, ref.idle, ref.mode, ref.lastPid,
      ref.trace, ref.fromInside, ref.toInside, ref.contents⟩
  unfold Kernel.allocateDIR
  rw [if_neg nonempty, listFirst_cons ref.lists stored]
  refine ⟨rfl, ?_⟩
  have counted := ((unlinked.setDir task (some dir)).setDirCount dir 1).note (.dirOpened dir)
  have shape : (r.newDir dir).setTask task { r.task task with dir := some dir } =
      { ({ r with freeDirs := dirs }.setTask task { r.task task with dir := some dir }) with
        dirCount := Function.update r.dirCount dir 1 }.note (.dirOpened dir) := by
    simp [Roster.newDir, Roster.note, Roster.setTask, spare]
  rw [shape]
  exact counted

theorem family_born (empty : r.owned task = []) :
    ({ r with born := Function.update r.born task true } : Roster).family =
      Function.update r.family (.semaphores task) (some []) := by
  rw [Function.eq_update_iff]
  constructor
  · simp [Roster.family, empty]
  · intro node different
    cases node with
    | semaphores t =>
        have other : t ≠ task := fun same => different (by rw [same])
        simp [Roster.family, Function.update_of_ne other]
    | _ => rfl

theorem loose_semaphores (unborn : r.born task = false) : Loose r.family (.semaphores task) := by
  refine ⟨by simp [Roster.family, unborn], fun head members stored inside => ?_⟩
  rcases family_member stored inside with ⟨q, t, _, same, _⟩ | ⟨d, _, same, _⟩ |
    ⟨t, s, _, same, _⟩ <;> cases same

/-- The part of `allocate_process` after the directory was found. -/
def Kernel.initProcess (k : Kernel) (task : TaskId) : Kernel :=
  let k := { k with links := listDel k.links (.anchor task) }
  let k := k.setTask task { k.tasks task with pid := k.lastPid }
  let k := { k with lastPid := k.lastPid + 1
                    stuck := k.stuck || decide (k.lastPid = intMax) }
  let k := k.setTask task { k.tasks task with heapTop := BitVec.ofNat 32 heapStart }
  let k := { k with links := initListHead k.links (.semaphores task) }
  let k := k.setTask task { k.tasks task with semDeleted := false
                                              quantum := defaultQuantum }
  k.resetStats task

theorem initProcess_core (t : TaskId) : ((k.initProcess task).tasks t).core =
    Function.update (fun t => (k.tasks t).core) task
      { (k.tasks task).core with pid := k.lastPid, aborted := false } t := by
  simp only [Kernel.initProcess, Kernel.resetStats, Kernel.setStats, Kernel.setTask,
    Function.update_apply]
  split
  · rename_i same
    simp [TaskStruct.core]
  · rfl

theorem Refines.initProcess (ref : Refines k r) {dir : DirId} {others : List TaskId}
    (pool : r.queue .free = task :: others) (empty : r.owned task = [])
    (housed : (r.task task).dir = some dir) :
    Refines (k.initProcess task) (r.allocate task dir) := by
  have taken := represents_take (q := .free) ref (by simp [Started])
    (show task ∈ r.queue .free by simp [pool])
  have unused : Loose (r.take task .free).family (.semaphores task) ∨
      (r.take task .free).family (.semaphores task) = some [] := by
    by_cases born : r.born task = true
    · right
      have stored := family_semaphores (r := r.take task .free) born
      rw [stored]
      change some ((r.owned task).map Node.semAnchor) = _
      rw [empty]
      rfl
    · left
      exact loose_semaphores (show r.born task = false by simpa using born)
  have lists := represents_initListHead taken unused
  rw [← family_born (r := r.take task .free) empty] at lists
  have owned : Function.update r.owned task [] = r.owned := by
    rw [← empty, Function.update_eq_self]
  have shape : r.allocate task dir = { r.take task .free with
      born := Function.update r.born task true
      task := Function.update r.task task
        { r.task task with pid := r.lastPid, aborted := false, dir := some dir }
      lastPid := r.lastPid + 1 } := by
    simp [Roster.allocate, Roster.take, Roster.setQueue, Roster.setTask, pool, owned]
  rw [shape]
  refine ⟨lists, ?_, ref.sems, ref.dirCount, ref.current, ref.idle, ref.mode, ?_, ref.trace,
    ref.fromInside, ref.toInside, ref.contents⟩
  · intro t
    rw [initProcess_core]
    simp only [Function.update_apply, ref.core, ref.lastPid, ← housed]
  · change k.lastPid + 1 = r.lastPid + 1
    rw [ref.lastPid]

/-- What `allocate_process` finds in the list of free task structs. -/
theorem Refines.free_head (ref : Refines k r) (sound : Roster.Sound r) :
    (r.queue .free = [] ∧ listEmpty k.links .freeQueue = true) ∨
    ∃ task others, r.queue .free = task :: others ∧ ¬ listEmpty k.links .freeQueue = true ∧
      Kernel.listHeadToTaskStruct (listFirst k.links .freeQueue) = some task ∧
      ¬ r.live task ∧ r.owned task = [] := by
  have started : Started r .free := by simp [Started]
  have none : listEmpty k.links .freeQueue = true ↔ r.queue .free = [] :=
    listEmpty_queue (q := .free) ref started
  cases pool : r.queue .free with
  | nil => exact Or.inl ⟨rfl, none.mpr pool⟩
  | cons task others =>
      have inside : task ∈ r.queue .free := by simp [pool]
      have dead : ¬ r.live task := by
        rw [Roster.live, sound.queues.tagged inside]
        exact fun alive => alive rfl
      refine Or.inr ⟨task, others, rfl, ?_, first_queue (q := .free) ref started pool, dead, ?_⟩
      · intro empty
        exact absurd (pool.symm.trans (none.mp empty)) (List.cons_ne_nil task others)
      · exact sound.owners.owned_nil fun fine => dead fine.1

/-- `allocate_process` for a new address space: it does nothing, or takes the first
task struct and the first directory. -/
theorem Refines.allocateNew (ref : Refines k r) (sound : Roster.Sound r) :
    (r.queue .free = [] ∧ k.allocateProcess none = (k, none)) ∨
    ∃ task others dir dirs, r.queue .free = task :: others ∧ r.freeDirs = dir :: dirs ∧
      (k.allocateProcess none).2 = some task ∧
      Refines (k.allocateProcess none).1 ((r.newDir dir).allocate task dir) := by
  unfold Kernel.allocateProcess
  obtain ⟨free, none⟩ | ⟨task, others, pool, some, head, dead, empty⟩ := ref.free_head sound
  · rw [if_pos none]
    exact Or.inl ⟨free, rfl⟩
  · rw [if_neg some, head]
    dsimp only
    cases spare : r.freeDirs with
    | nil => exact absurd spare (sound.identity.spare_dir dead)
    | cons dir dirs =>
        obtain ⟨done, placed⟩ := ref.allocateDIR task spare
        have split : k.allocateDIR task = ((k.allocateDIR task).1, true) := by
          rw [← done]
        rw [split]
        refine Or.inr ⟨task, others, dir, dirs, pool, rfl, rfl, ?_⟩
        have made := placed.initProcess pool empty
          (show (((r.newDir dir).setTask task _).task task).dir = Option.some dir by
            simp [Roster.setTask])
        have shape : (((r.newDir dir).setTask task { r.task task with dir := Option.some dir }).allocate
            task dir) = (r.newDir dir).allocate task dir := by
          simp [Roster.allocate, Roster.setTask, Roster.setQueue, Roster.newDir, Roster.note]
        rw [← shape]
        exact made

theorem Refines.reuseDIR (ref : Refines k r) (dir : DirId) (task : TaskId) :
    Refines (k.reuseDIR dir task)
      ((r.shareDir dir).setTask task { r.task task with dir := some dir }) := by
  have counted := (ref.setDir task (some dir)).setDirCount dir (r.dirCount dir + 1)
  unfold Kernel.reuseDIR
  dsimp only
  have same : (k.setDir task (some dir)).dirCount = r.dirCount := ref.dirCount
  rw [same]
  exact counted

/-- `allocate_process` in the address space of the caller. -/
theorem Refines.allocateShared (ref : Refines k r) (sound : Roster.Sound r) (dir : DirId) :
    (r.queue .free = [] ∧ k.allocateProcess (some dir) = (k, none)) ∨
    ∃ task others, r.queue .free = task :: others ∧
      (k.allocateProcess (some dir)).2 = some task ∧
      Refines (k.allocateProcess (some dir)).1 ((r.shareDir dir).allocate task dir) := by
  unfold Kernel.allocateProcess
  obtain ⟨free, none⟩ | ⟨task, others, pool, some, head, _, empty⟩ := ref.free_head sound
  · rw [if_pos none]
    exact Or.inl ⟨free, rfl⟩
  · rw [if_neg some, head]
    refine Or.inr ⟨task, others, pool, rfl, ?_⟩
    have made := (ref.reuseDIR dir task).initProcess pool empty
      (show (((r.shareDir dir).setTask task _).task task).dir = Option.some dir by
        simp [Roster.setTask])
    have shape : (((r.shareDir dir).setTask task { r.task task with dir := Option.some dir }).allocate
        task dir) = (r.shareDir dir).allocate task dir := by
      simp [Roster.allocate, Roster.setTask, Roster.setQueue, Roster.shareDir]
    rw [← shape]
    exact made

/-- The new task becomes ready. -/
theorem Refines.launch (ref : Refines k r) (out : ¬ r.Queued task) (start : Resume) {k' : Kernel}
    (saved : k'.view = (k.setTask task { k.tasks task with kernelEsp := start }).view) :
    Refines (k'.addProcessToScheduling task .freeToReady false) (r.launch task start) := by
  have set := ref.setTask task { k.tasks task with kernelEsp := start }
  have same : ({ k.tasks task with kernelEsp := start } : TaskStruct).core =
      { r.task task with resume := start } := by
    rw [← ref.core]
    rfl
  rw [same] at set
  have placed := (Refines.of_view set saved).place (q := .ready) (by simp [Started])
    (show ¬ (r.setTask task { r.task task with resume := start }).Queued task from out) false
  exact Refines.of_view placed view_addProcess

theorem view_setTask_congr {struct struct' : TaskStruct} (same : k'.view = k.view)
    (core : struct'.core = struct.core) :
    (k'.setTask task struct').view = (k.setTask task struct).view := by
  have cores : (fun t => ((k'.setTask task struct').tasks t).core) =
      fun t => ((k.setTask task struct).tasks t).core := by
    funext t
    have before : (fun t => (k'.tasks t).core) = fun t => (k.tasks t).core :=
      congrArg View.core same
    rw [core_setTask, core_setTask, core, before]
  simp only [Kernel.view, View.mk.injEq] at same ⊢
  exact ⟨same.1, cores, same.2.2⟩

/-- A task just allocated is on no queue. -/
theorem allocate_out {r₁ : Roster} {dir : DirId} {others : List TaskId} (queues : r.QueueSound)
    (pool : r.queue .free = task :: others) (same : r₁.queue = r.queue) :
    ¬ (r₁.allocate task dir).Queued task := by
  have inside : task ∈ r.queue .free := by simp [pool]
  have distinct := queues.nodup .free
  rw [pool, List.nodup_cons] at distinct
  rintro ⟨q, member⟩
  simp only [Roster.allocate, Roster.setQueue, Roster.setTask, Function.update_apply, same, pool,
    List.tail_cons] at member
  split at member
  · exact distinct.1 member
  · rename_i different
    exact different (queues.apart member inside)

theorem Refines.sysFork (ref : Refines k r) (sound : Roster.Sound r) (user : r.mode = .user)
    (busy : r.current ≠ r.idle) :
    ∃ r', Roster.Step k.seen r (some (.call .fork)) r' ∧ Refines k.sysFork.1 r' := by
  unfold Kernel.sysFork
  have choice := ref.allocateNew sound
  generalize k.allocateProcess none = allocated at choice ⊢
  obtain ⟨k₁, result⟩ := allocated
  rcases choice with ⟨none, same⟩ | ⟨task, others, dir, dirs, pool, spare, rfl, made⟩
  · cases same
    exact ⟨r, .quiet _ user none, ref⟩
  · refine ⟨_, .fork task dir others dirs user busy pool spare, ?_⟩
    refine Refines.launch made (allocate_out sound.queues pool rfl) .retFromFork ?_
    change (Kernel.setTask (Kernel.setTask k₁ task _) task _).view = _
    refine view_setTask_congr (view_setTask rfl) ?_
    simp [Kernel.setTask, TaskStruct.core]

theorem Refines.sysClone (ref : Refines k r) (sound : Roster.Sound r) (user : r.mode = .user)
    (busy : r.current ≠ r.idle) (function stack exitFunc : DWord) :
    ∃ r', Roster.Step k.seen r (some (.call (.clone function stack exitFunc))) r' ∧
      Refines (k.sysClone function stack exitFunc).1 r' := by
  unfold Kernel.sysClone
  split
  · rename_i refused
    rw [Bool.or_eq_true, Bool.not_eq_true', Bool.not_eq_true'] at refused
    exact ⟨r, .quiet _ user (refused.imp_right Or.inl), ref⟩
  · rename_i granted
    rw [Bool.or_eq_true, Bool.not_eq_true', Bool.not_eq_true', not_or] at granted
    obtain ⟨dir, housed⟩ := Option.ne_none_iff_exists'.mp
      ((sound.identity.housed r.current).mp (Roster.live_of_running sound.running))
    have own : k.currentTask.dirPagesBaseAddr = some dir := by
      rw [← housed, ← ref.core, Kernel.currentTask, ref.current]
      rfl
    have choice := ref.allocateShared sound dir
    rw [own]
    generalize k.allocateProcess (some dir) = allocated at choice ⊢
    obtain ⟨k₁, result⟩ := allocated
    rcases choice with ⟨none, same⟩ | ⟨task, others, pool, rfl, made⟩
    · cases same
      exact ⟨r, .quiet _ user (.inr (.inr none)), ref⟩
    · have allowed : ¬ r.Refuses k.seen (.call (.clone function stack exitFunc)) := by
        rintro (function | stack | none)
        · exact granted.1 function
        · exact granted.2 stack
        · exact absurd (pool.symm.trans none) (List.cons_ne_nil task others)
      refine ⟨_, .clone function stack exitFunc task dir others user busy pool housed allowed, ?_⟩
      refine Refines.launch made (allocate_out sound.queues pool rfl) .cloned ?_
      rw [view_kernelStores]
      refine view_setTask_congr rfl ?_
      rfl

/-! ### Death -/

theorem loose_dir {dir : DirId} (used : dir ∉ r.freeDirs) : Loose r.family (.dirAnchor dir) := by
  refine ⟨rfl, fun head members stored inside => ?_⟩
  rcases family_member stored inside with ⟨q, t, _, same, _⟩ | ⟨d, _, same, member⟩ |
    ⟨t, s, _, same, _⟩
  · cases same
  · cases same
    exact used member
  · cases same

/-- A spare directory goes to the front of `free_dirs`. -/
theorem Refines.listDir (ref : Refines k r) {dir : DirId} (used : dir ∉ r.freeDirs) :
    Refines { k with links := listAdd k.links (.dirAnchor dir) .freeDirs }
      { r with freeDirs := dir :: r.freeDirs } := by
  have listed := represents_listAdd ref.lists
    (show r.family .freeDirs = some (r.freeDirs.map .dirAnchor) from rfl) (loose_dir used)
  rw [← List.map_cons, ← family_freeDirs] at listed
  exact ⟨listed, ref.core, ref.sems, ref.dirCount, ref.current, ref.idle, ref.mode, ref.lastPid,
    ref.trace, ref.fromInside, ref.toInside, ref.contents⟩

/-- `free_DIR`: the last user of a directory gives it back. -/
theorem Refines.freeDIR (ref : Refines k r) (task : TaskId)
    (used : (r.task task).dir.getD 0 ∉ r.freeDirs) :
    Refines (k.freeDIR task) (r.releaseDir task) := by
  have table : k.getPT task = (r.task task).dir.getD 0 := by
    rw [← ref.core]
    rfl
  unfold Kernel.freeDIR Roster.releaseDir
  rw [table]
  generalize (r.task task).dir.getD 0 = dir at used ⊢
  have counted := ref.setDirCount dir (r.dirCount dir - 1)
  have count : k.dirCount dir - 1 = r.dirCount dir - 1 := by rw [ref.dirCount]
  dsimp only
  rw [count]
  generalize k.setDirCount dir (r.dirCount dir - 1) = k₁ at counted ⊢
  have left := congrFun counted.dirCount dir
  dsimp only at left
  rw [left]
  split
  · have listed := (counted.listDir used).note (.dirReleased dir)
    exact Refines.setDir (k := { { k₁ with
      mm := k₁.mm.freeUserPages dir (k₁.tasks task).heapTop }.note (.dirReleased dir) with
      links := listAdd k₁.links (.dirAnchor dir) .freeDirs }) (listed.of_view rfl) task none
  · exact counted.setDir task none

/-- The loop of `free_semaphores` destroys what the dying task owns, in order. -/
theorem Refines.destroyAll (ref : Refines k r) {base : Roster} (dying : Roster.Dying base r)
    (born : r.born base.current = true) {inv : Kernel → Prop} (kept : Outlasts inv)
    (holds : inv k) :
    Refines (k.forEachSafe (.semaphores base.current) Kernel.destroyOwned)
      ((r.owned base.current).foldl (Roster.semDestroy base.current) r) ∧
    inv (k.forEachSafe (.semaphores base.current) Kernel.destroyOwned) := by
  have loop := @forEachSafe_fold k r nrSemaphores (.semaphores base.current) Kernel.destroyOwned
    .semAnchor (fun r' => r'.owned base.current) (Roster.semDestroy base.current)
    (fun k' r' => Refines k' r' ∧ Roster.Dying base r' ∧ r'.born base.current = true ∧ inv k')
    ?_ ?_ ⟨ref, dying, born, holds⟩ (dying.steady.owners.distinct base.current) (by decide)
  · exact ⟨loop.1, loop.2.2.2⟩
  · rintro k' r' ⟨ref', _, born', _⟩
    exact ref'.lists.ring (family_semaphores born')
  · rintro k' r' first others ⟨ref', dying', born', holds'⟩ owned
    have member : first ∈ r'.owned base.current := by simp [owned]
    have current := dying'.current
    have destroyed : Refines (Kernel.destroyOwned (.semAnchor first) k')
          (Roster.semDestroy base.current r' first) ∧
        inv (Kernel.destroyOwned (.semAnchor first) k') := by
      rw [← current] at member born' ⊢
      exact ref'.destroyOwn dying'.steady.queues dying'.steady.owners born' member
        (semAt_val first) kept holds'
    refine ⟨⟨destroyed.1, dying'.semDestroy member, ?_, destroyed.2⟩, ?_⟩
    · rw [Roster.semDestroy_eq]
      exact born'
    · simp [Roster.semDestroy_eq, owned]

theorem foldl_born {owner : TaskId} (sems : List SemId) : ∀ r : Roster,
    (sems.foldl (Roster.semDestroy owner) r).born = r.born := by
  induction sems with
  | nil => exact fun _ => rfl
  | cons first rest ih =>
      intro r
      rw [List.foldl_cons, ih, Roster.semDestroy_eq]

/-- `free_process` of the running task; what the loops keep holds at the end. -/
theorem Refines.freeProcess (ref : Refines k r) (sound : Roster.Sound r) (user : r.mode = .user)
    (busy : r.current ≠ r.idle) {inv : Kernel → Prop} (kept : Outlasts inv)
    (holds : inv ((k.updateProcessStateRr k.current (some .freeQueue)).freeDIR k.current)) :
    ∃ r', Refines (k.freeProcess k.current) r' ∧ r'.QueueSound ∧
      r.exit = r'.schedNext .exited ∧ inv (k.freeProcess k.current) := by
  have alive := Roster.live_of_running sound.running
  obtain ⟨dir, housed⟩ := Option.ne_none_iff_exists'.mp ((sound.identity.housed _).mp alive)
  have placed := ref.place (q := .free) (by simp [Started]) sound.running.out false
  have spare : ((r.place r.current .free false).task r.current).dir.getD 0 ∉
      (r.place r.current .free false).freeDirs := by
    have same : ((r.place r.current .free false).task r.current).dir = some dir := by
      simp [Roster.place, Roster.setState, Roster.setTask, Roster.setQueue, housed]
    rw [same]
    change dir ∉ r.freeDirs
    rw [sound.identity.spare, sound.identity.counted]
    have occupied : 0 < dirUsers (fun t => (r.task t).dir) dir :=
      dirUsers_pos.mpr ⟨r.current, housed⟩
    omega
  have retired : Refines ((k.updateProcessStateRr r.current (some .freeQueue)).freeDIR r.current)
      r.retire := placed.freeDIR r.current spare
  have dying := sound.dying user busy
  have born : r.retire.born r.current = true := by
    rw [Roster.retire_eq]
    exact sound.identity.born _ alive
  have owned : r.retire.owned r.current = r.owned r.current := by rw [Roster.retire_eq]
  rw [ref.current] at holds
  obtain ⟨destroyed, outlived⟩ := retired.destroyAll dying born kept holds
  obtain ⟨rule, none⟩ := Roster.foldl_semDestroy (Roster.Dying r)
    (fun s sem dying member => dying.semDestroy member) (r.owned r.current) r.retire dying owned
  have bornAfter := @foldl_born r.current (r.owned r.current) r.retire
  rw [owned] at destroyed
  rw [Roster.exit_eq]
  unfold Kernel.freeProcess Kernel.freeSemaphores
  rw [ref.current]
  dsimp only
  revert destroyed outlived rule none bornAfter
  generalize (r.owned r.current).foldl (Roster.semDestroy r.current) r.retire = s
  generalize ((k.updateProcessStateRr r.current (some .freeQueue)).freeDIR r.current).forEachSafe
    (.semaphores r.current) Kernel.destroyOwned = k₁
  intro destroyed outlived rule none bornAfter
  have bornS : s.born r.current = true := by rw [bornAfter]; exact born
  have empty : s.family (.semaphores r.current) = some [] := by
    rw [family_semaphores bornS, none]
    rfl
  have cleared := represents_initListHead destroyed.lists (Or.inr empty)
  rw [← List.map_nil, ← family_setOwned bornS] at cleared
  have final : Refines { k₁ with links := initListHead k₁.links (.semaphores r.current) }
      { s with owned := Function.update s.owned r.current [] } :=
    ⟨cleared, destroyed.core, destroyed.sems, destroyed.dirCount, destroyed.current,
      destroyed.idle, destroyed.mode, destroyed.lastPid, destroyed.trace, destroyed.fromInside,
      destroyed.toInside, destroyed.contents⟩
  have queues : ({ s with owned := Function.update s.owned r.current [] } : Roster).QueueSound :=
    rule.steady.queues.congr rfl (fun _ => rfl) rfl
  exact ⟨_, final, queues, rfl, kept.relinked _ outlived⟩

/-- `sys_exit`. -/
theorem Refines.sysExit (ref : Refines k r) (sound : Roster.Sound r) (user : r.mode = .user)
    (busy : r.current ≠ r.idle) : Refines k.sysExit.1 r.exit := by
  obtain ⟨r', freed, queues, same, _⟩ := ref.freeProcess sound user busy outlasts_true trivial
  rw [same]
  exact freed.schedNext queues .exited

end Zeos
