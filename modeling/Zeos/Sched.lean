import Zeos.Fault

set_option autoImplicit false

/-! `sched.c` and `sched.S`. -/

namespace Zeos

namespace Kernel

/-- `list_head_to_task_struct`; any other node is not inside a task struct. -/
def listHeadToTaskStruct : Option Node → Option TaskId
  | some (.anchor task) => some task
  | _ => none

def allocateProcess (k : Kernel) (dir : Option DirId) : Kernel × Option TaskId :=
  if listEmpty k.links .freeQueue then (k, none)
  else match listHeadToTaskStruct (listFirst k.links .freeQueue) with
    | none => (k.hang, none)
    | some task =>
        match (match dir with
            | none => k.allocateDIR task
            | some dir => (k.reuseDIR dir task, true)) with
        | (k, false) => (k, none)
        | (k, true) =>
            let k := { k with links := listDel k.links (.anchor task) }
            let k := k.setTask task { k.tasks task with pid := k.lastPid }
            -- `last_PID++`
            let k := { k with lastPid := k.lastPid + 1
                              stuck := k.stuck || decide (k.lastPid = intMax) }
            let k := k.setTask task { k.tasks task with heapTop := BitVec.ofNat 32 heapStart }
            let k := { k with links := initListHead k.links (.semaphores task) }
            let k := k.setTask task { k.tasks task with semDeleted := false
                                                        quantum := defaultQuantum }
            (k.resetStats task, some task)

def updateProcessState (k : Kernel) (task : TaskId) (dest : Option Node) (isFirst : Bool) :
    Kernel :=
  let k := if (k.links (.anchor task)).next ≠ none ∧ (k.links (.anchor task)).prev ≠ none then
      { k with links := listDel k.links (.anchor task) } else k
  match dest with
  | none => k.setState task .run
  | some dest =>
      let k := if isFirst then { k with links := listAdd k.links (.anchor task) dest }
        else { k with links := listAddTail k.links (.anchor task) dest }
      if dest = .readyqueue then k.setState task .ready
      else if dest = .freeQueue then k.setState task .invalid
      else k.setState task .blocked

def updateProcessStateRr (k : Kernel) (task : TaskId) (dest : Option Node) : Kernel :=
  k.updateProcessState task dest false

def addProcessToScheduling (k : Kernel) (task : TaskId) (e : Event) (isFirst : Bool) : Kernel :=
  (k.updateProcessState task (some .readyqueue) isFirst).updateStats task e

/-- `task_switch` and `inner_task_switch`: the running task will continue at
`saved`; CR3 is loaded only when the directory differs. -/
def taskSwitch (k : Kernel) (next : TaskId) (saved : Resume) : Kernel :=
  let k := k.setTask k.current { k.currentTask with kernelEsp := saved }
  let k := if k.currentTask.dirPagesBaseAddr ≠ (k.tasks next).dirPagesBaseAddr then
      { k with mm := k.mm.setCr3 (k.getDIR next) } else k
  { k with current := next, mode := .switching }

def schedNextRr (k : Kernel) (saved : Resume) : Kernel :=
  match (if listEmpty k.links .readyqueue then some k.idleTask
      else listHeadToTaskStruct (listFirst k.links .readyqueue)) with
  | none => k.hang
  | some nextTask =>
      let k := k.updateProcessStateRr nextTask none
      let k := k.updateStats nextTask .readyToSys
      let k := { k with currentTicks := 0 }
      let k := k.updateStats nextTask .currentTicksUpdated
      k.taskSwitch nextTask saved

def updateSchedDataRr (k : Kernel) : Kernel :=
  let k := { k with currentTicks := k.currentTicks + 1 }
  k.updateStats k.current .currentTicksUpdated

def needsSchedRr (k : Kernel) : Bool :=
  (k.current == k.idleTask && !listEmpty k.links .readyqueue) ||
    k.currentTask.st.remainingTicks == 0

def executeScheduling (k : Kernel) : Kernel :=
  let k := k.updateSchedDataRr
  if k.needsSchedRr then
    let k := if k.current ≠ k.idleTask then
        k.updateProcessStateRr k.current (some .readyqueue) else k
    let k := k.updateStats k.current .sysToReady
    k.schedNextRr .handler
  else k

def clockRoutine (k : Kernel) : Kernel :=
  if k.currentTask.state = .run then
    { k with zeosTicks := k.zeosTicks + 1 }.executeScheduling
  else k

def initIdle (k : Kernel) : Kernel :=
  match k.allocateProcess none with
  | (k, none) => k.hang
  | (k, some idleTask) =>
      let k := { k with idleTask := idleTask }
      let k := k.setTask idleTask { k.tasks idleTask with kernelEsp := .cpuIdle }
      k.setState idleTask .ready

/-- `init_task1`, then `return_gate`, after which task 1 is running. -/
def initTask1 (k : Kernel) : Kernel :=
  match k.allocateProcess none with
  | (k, none) => k.hang
  | (k, some task1) =>
      let k := { k with mm := k.mm.setUserPages (k.getPT task1) }
      let k := { k with mm := k.mm.setCr3 (k.getDIR task1) }
      let k := k.setState task1 .run
      { k.updateStats task1 .freeToReady with current := task1 }

def initSched (k : Kernel) : Kernel :=
  let k := { k with currentTicks := 0, lastPid := 0 }
  let k := { k with links := initListHead k.links .freeQueue }
  let k := { k with links := initListHead k.links .readyqueue }
  let k := Loop.upTo nrTasks (fun i k =>
    k.updateProcessStateRr (Fin.ofNat nrTasks i) (some .freeQueue)) k
  { k with semaphores := fun sem => { k.semaphores sem with used := false, count := 0 } }

end Kernel

end Zeos
