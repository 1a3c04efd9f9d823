import Zeos.Keyboard

set_option autoImplicit false

/-! `sys.c`: the system calls. A call that blocks leaves the machine `switching`;
its number result is then meaningless, and the call goes on at the point its
`Resume` names. -/

namespace Zeos

abbrev ESRCH : Int := 3
abbrev EBADF : Int := 9
abbrev EAGAIN : Int := 11
abbrev ENOMEM : Int := 12
abbrev EFAULT : Int := 14
abbrev EBUSY : Int := 16
abbrev EINVAL : Int := 22
abbrev ENOSYS : Int := 38

abbrev readOperation : Int := 0
abbrev writeOperation : Int := 1
abbrev chunkSize : Nat := 256

/-- `check_fd`. -/
def checkFd (fd permissions : Int) : Int :=
  if fd ≠ 0 ∧ fd ≠ 1 then -EBADF
  else if fd = 1 ∧ permissions ≠ writeOperation then -EBADF
  else if fd = 0 ∧ permissions ≠ readOperation then -EBADF
  else 0

/-- `&semaphores[n_sem]` for an index in range. -/
def semAt (nSem : Int) : Option SemId :=
  if h : 0 ≤ nSem ∧ nSem < nrSemaphores then some ⟨nSem.toNat, by omega⟩ else none

/-- The bytes of a double word in memory, lowest first. -/
def dwordBytes (value : DWord) : List Byte :=
  [value.extractLsb' 0 8, value.extractLsb' 8 8, value.extractLsb' 16 8, value.extractLsb' 24 8]

def statsBytes (st : Stats) : List Byte :=
  dwordBytes st.userTicks ++ dwordBytes st.systemTicks ++ dwordBytes st.blockedTicks ++
    dwordBytes st.readyTicks ++ dwordBytes st.elapsedTotalTicks ++ dwordBytes st.totalTrans ++
    dwordBytes st.remainingTicks

namespace Kernel

/-- `list_for_each_safe`: `aux` is read before the body changes the links. No
list is longer than the fuel, the number of list nodes. -/
def listForEachSafe (head : Node) (body : Node → Kernel → Kernel) :
    Nat → Option Node → Option Node → Kernel → Kernel
  | 0, _, _, k => k.hang
  | fuel + 1, pos, aux, k =>
      if pos = some head then k
      else match pos with
        | none => k.hang
        | some node =>
            let k := body node k
            listForEachSafe head body fuel aux (nextOf k.links aux) k

abbrev nodeCount : Nat := 4 + 3 * nrTasks + 2 * nrSemaphores

def forEachSafe (k : Kernel) (head : Node) (body : Node → Kernel → Kernel) : Kernel :=
  let pos := listFirst k.links head
  listForEachSafe head body nodeCount pos (nextOf k.links pos) k

def sysNiSyscall : Int := -ENOSYS

def sysGetpid (k : Kernel) : Int := k.currentTask.pid

def sysGettime (k : Kernel) : Int := k.zeosTicks.toInt

/-- `sys_sem_init`. `value` is unsigned, so the second test never holds. -/
def sysSemInit (k : Kernel) (nSem : Int) (value : DWord) : Kernel × Int :=
  match semAt nSem with
  | none => (k, -EINVAL)
  | some sem =>
      if value < 0#32 then (k, -EINVAL)
      else if (k.semaphores sem).used then (k, -EBUSY)
      else
        let k := k.setSem sem { used := true, count := value.toInt, owner := some k.current }
        let k := { k with links := initListHead k.links (.blocked sem) }
        let k := { k with links := listAdd k.links (.semAnchor sem) (.semaphores k.current) }
        (k.note (.semCreated sem k.currentTask.pid value), 0)

/-- `sys_sem_wait`. -/
def sysSemWait (k : Kernel) (nSem : Int) : Kernel × Int :=
  match semAt nSem with
  | none => (k, -EINVAL)
  | some sem =>
      if !(k.semaphores sem).used then (k, -EINVAL)
      else if (k.semaphores sem).count = 0 then
        let k := k.note (.semBlocked sem k.current)
        let k := k.updateProcessStateRr k.current (some (.blocked sem))
        let k := k.updateStats k.current .sysToBlocked
        (k.schedNextRr (.semWait sem), 0)
      else
        -- `sem->count--`
        let count := (k.semaphores sem).count - 1
        let k := k.setSem sem { k.semaphores sem with count := count }
        let k := { k with stuck := k.stuck || decide (count < intMin) }
        (k.note (.semTaken sem k.current), 0)

/-- `sys_sem_wait` after `sched_next_rr` returned. -/
def semWaitResumed (k : Kernel) : Kernel × Int :=
  if k.currentTask.semDeleted then
    let k := k.setTask k.current { k.currentTask with semDeleted := false }
    (k.note (.waitReturned k.current (-1)), -1)
  else (k.note (.waitReturned k.current 0), 0)

/-- `sys_sem_signal`. -/
def sysSemSignal (k : Kernel) (nSem : Int) : Kernel × Int :=
  match semAt nSem with
  | none => (k, -EINVAL)
  | some sem =>
      if !(k.semaphores sem).used then (k, -EINVAL)
      else if listEmpty k.links (.blocked sem) then
        -- `++sem->count`
        let count := (k.semaphores sem).count + 1
        let k := k.setSem sem { k.semaphores sem with count := count }
        let k := { k with stuck := k.stuck || decide (count > intMax) }
        (k.note (.semRaised sem), 0)
      else match listHeadToTaskStruct (listFirst k.links (.blocked sem)) with
        | none => (k.hang, 0)
        | some task =>
            let k := k.addProcessToScheduling task .blockedToReady false
            (k.note (.semGranted sem task), 0)

/-- The body of the loop of `sys_sem_destroy`. -/
def abortWaiter (sem : SemId) (taskAnchor : Node) (k : Kernel) : Kernel :=
  match listHeadToTaskStruct (some taskAnchor) with
  | none => k.hang
  | some task =>
      let k := k.addProcessToScheduling task .blockedToReady false
      let k := k.setTask task { k.tasks task with semDeleted := true }
      k.note (.semAborted sem task)

/-- `sem->owner->PID`. -/
def ownerPid (k : Kernel) (sem : SemId) : Option Int :=
  (k.semaphores sem).owner.map fun owner => (k.tasks owner).pid

/-- `sys_sem_destroy`. -/
def sysSemDestroy (k : Kernel) (nSem : Int) : Kernel × Int :=
  match semAt nSem with
  | none => (k, -EINVAL)
  | some sem =>
      if !(k.semaphores sem).used then (k, -EINVAL)
      else if some k.currentTask.pid ≠ k.ownerPid sem then (k, -1)
      else
        let k := k.setSem sem { k.semaphores sem with used := false }
        let k := { k with links := listDel k.links (.semAnchor sem) }
        let k := k.note (.semDestroyed sem)
        (k.forEachSafe (.blocked sem) (abortWaiter sem), 0)

/-- The body of the loop of `free_semaphores`: `sem - &semaphores[0]` is the
index of the semaphore around the anchor. -/
def destroyOwned (semAnchor : Node) (k : Kernel) : Kernel :=
  match semAnchor with
  | .semAnchor sem => (k.sysSemDestroy sem.val).1
  | _ => k.hang

/-- `free_semaphores`. -/
def freeSemaphores (k : Kernel) (task : TaskId) : Kernel :=
  let k := k.forEachSafe (.semaphores task) destroyOwned
  { k with links := initListHead k.links (.semaphores task) }

/-- `free_process`. -/
def freeProcess (k : Kernel) (task : TaskId) : Kernel :=
  let k := k.updateProcessStateRr task (some .freeQueue)
  let k := k.freeDIR task
  k.freeSemaphores task

/-- `sys_exit`. -/
def sysExit (k : Kernel) : Kernel × Int :=
  ((k.freeProcess k.current).schedNextRr .exited, 0)

/-- The first loop of `sys_fork`. -/
def copyCodePages (m : Mm) (parent child : DirId) : Mm :=
  Loop.upTo numPagCode (fun i m =>
    m.setEntry child (pagLogInitCode + i) (m.getEntry parent (pagLogInitCode + i))) m

/-- The second and third loop of `sys_fork`. -/
def sharePages (m : Mm) (parent child : DirId) (numPagHeap : Nat) : Mm :=
  let m := Loop.upTo numPagData (fun i m => m.shareCowPage parent child (pagLogInitData + i)) m
  Loop.upTo numPagHeap (fun i m => m.shareCowPage parent child (pagLogInitHeap - i)) m

/-- `sys_fork`. The copied kernel stack returns into `ret_from_fork`. -/
def sysFork (k : Kernel) : Kernel × Int :=
  match k.allocateProcess none with
  | (k, none) => (k, -EAGAIN)
  | (k, some task) =>
      let k := k.setTask task { k.tasks task with quantum := k.currentTask.quantum
                                                  heapTop := k.currentTask.heapTop }
      let k := k.setTask task { k.tasks task with kernelEsp := .retFromFork }
      let parent := k.getPT k.current
      let child := k.getPT task
      let numPagHeap := (getHeapPageSize k.currentTask.heapTop).toNat
      let k := { k with mm := sharePages (copyCodePages k.mm parent child) parent child numPagHeap }
      let k := { k with mm := k.mm.setCr3 (k.getDIR k.current) }
      let k := k.addProcessToScheduling task .freeToReady false
      (k, (k.tasks task).pid)

/-- `sys_clone`. -/
def sysClone (k : Kernel) (function stack exitFunc : DWord) : Kernel × Int :=
  if !k.accessOk .write function 4 || !k.accessOk .write stack 4 then (k, -EFAULT)
  else
    match k.allocateProcess k.currentTask.dirPagesBaseAddr with
    | (k, none) => (k, -EAGAIN)
    | (k, some task) =>
        let k := k.setTask task { k.tasks task with quantum := k.currentTask.quantum
                                                    kernelEsp := .cloned }
        let k := k.kernelStores (stack - 4) (dwordBytes exitFunc)
        let k := k.addProcessToScheduling task .freeToReady false
        (k, (k.tasks task).pid)

/-- `sys_get_stats`: the search stops at the first slot with this PID. -/
def sysGetStats (k : Kernel) (pid : Int) (st : DWord) : Kernel × Int :=
  if pid < 0 then (k, -EINVAL)
  else if st = 0 ∨ !k.accessOk .write st 28 then (k, -EFAULT)
  else match (List.finRange nrTasks).find? fun i => (k.tasks i).pid == pid with
    | none => (k, -ESRCH)
    | some i =>
        if (k.tasks i).state = .invalid then (k, -ESRCH)
        else
          let state := (k.tasks i).state
          let k := if state = .ready ∨ state = .blocked then k.updateStats i .refresh else k
          (k.kernelStores st (statsBytes (k.tasks i).st), 0)

/-- Loads of consecutive bytes. -/
def kernelLoads : Nat → Kernel → DWord → Kernel × List Byte
  | 0, k, _ => (k, [])
  | size + 1, k, addr =>
      let k := k.kernelLoad addr
      let (k', bytes) := kernelLoads size k (addr + 1)
      (k', k.mm.peek addr.toNat :: bytes)

/-- `copy_from_user` into a kernel buffer: words, then the remaining bytes. -/
def copyFromUser : Nat → Kernel → DWord → Kernel × List Byte
  | size + 5, k, start =>
      let (k, word) := kernelLoads 4 k start
      let (k, bytes) := copyFromUser (size + 1) k (start + 4)
      (k, word ++ bytes)
  | size, k, start => kernelLoads size k start

/-- The loop of `sys_write`; every round moves at least one byte, so `size`
rounds are enough. -/
def writeLoop : Nat → Kernel → DWord → Nat → Nat → Kernel
  | 0, k, _, _, _ => k
  | fuel + 1, k, buffer, size, offset =>
      if offset < size then
        let moveSize := min size chunkSize
        let (k, bytes) := copyFromUser moveSize k (buffer + BitVec.ofNat 32 offset)
        let k := if k.stuck then k else { k with console := k.console ++ bytes }
        writeLoop fuel k buffer size (offset + moveSize)
      else k

/-- `sys_write`. Printing does not change the bytes that are still to be printed: the screen and
`buffer_copy`, on the kernel stack, are no part of the memory that is read. -/
def sysWrite (k : Kernel) (fd : Int) (buffer : DWord) (size : Int) : Kernel × Int :=
  if checkFd fd writeOperation < 0 then (k, checkFd fd writeOperation)
  else if buffer = 0 then (k, -EFAULT)
  else if size < 0 then (k, -EINVAL)
  else (writeLoop size.toNat k buffer size.toNat 0, size)

/-- `sys_read`. -/
def sysRead (k : Kernel) (fd : Int) (buffer size : DWord) : Kernel × Int :=
  if checkFd fd readOperation < 0 then (k, checkFd fd readOperation)
  else if buffer = 0 then (k, -EFAULT)
  else if size.toInt < 0 then (k, -EINVAL)
  else if !k.accessOk .write buffer size then (k, -EFAULT)
  else k.sysReadKeyboard buffer size.toInt

/-- The page check of the growing branch of `sys_sbrk`. -/
def heapPagesFree (m : Mm) (dir : DirId) (heapPagesAct pagesIncr : Nat) : Bool :=
  (List.range pagesIncr).all fun i => m.isSsPagFree dir (pagLogInitHeap - heapPagesAct - i)

/-- The reservation loop: all the frames, or none after the roll-back. -/
def reserveFrames : Nat → Mm → List Nat → Mm × Option (List Nat)
  | 0, m, frames => (m, some frames)
  | pagesIncr + 1, m, frames =>
      match m.allocFrame with
      | (m, none) => (frames.foldl (fun m frame => m.freeFrame frame) m, none)
      | (m, some newFrame) => reserveFrames pagesIncr m (frames ++ [newFrame])

/-- `sys_sbrk`. The source tests the new top as an unsigned number, so the
subtraction is modulo `2^32`. -/
def sysSbrk (k : Kernel) (increment : DWord) : Kernel × Int :=
  if increment = 0 then (k, k.currentTask.heapTop.toInt)
  else
    let wrapped := k.currentTask.heapTop - increment
    if wrapped.toNat > heapStart ∧ ¬ increment.toInt < 0 then (k, -ENOMEM)
    else
      let newHeapTop := if wrapped.toNat > heapStart then BitVec.ofNat 32 heapStart else wrapped
      let heapPagesAct := (getHeapPageSize k.currentTask.heapTop).toNat
      let heapPagesNew := (getHeapPageSize newHeapTop).toNat
      let pt := k.getPT k.current
      if heapPagesAct < heapPagesNew then
        let pagesIncr := heapPagesNew - heapPagesAct
        if !heapPagesFree k.mm pt heapPagesAct pagesIncr then (k, -ENOMEM)
        else match reserveFrames pagesIncr k.mm [] with
          | (m, none) => ({ k with mm := m }, -ENOMEM)
          | (m, some frames) =>
              let m := Loop.upTo pagesIncr (fun i m =>
                m.setSsPag pt (pagLogInitHeap - heapPagesAct - i) (frames.getD i 0)) m
              let k := { k with mm := m }
              let k := k.setTask k.current { k.currentTask with heapTop := newHeapTop }
              (k, (newHeapTop + 1).toInt)
      else
        let pagesIncr := heapPagesAct - heapPagesNew
        let m := Loop.upTo pagesIncr (fun i m =>
          let page := pagLogInitHeap - heapPagesNew - i
          (m.freeFrame (m.getFrame pt page)).delSsPag pt page) k.mm
        let k := { k with mm := m.setCr3 (k.getDIR k.current) }
        let k := k.setTask k.current { k.currentTask with heapTop := newHeapTop }
        (k, newHeapTop.toInt)

end Kernel

end Zeos
