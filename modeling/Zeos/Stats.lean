import Zeos.State

set_option autoImplicit false

/-! `stats.c`. -/

namespace Zeos

namespace Kernel

def setStats (k : Kernel) (task : TaskId) (st : Stats) : Kernel :=
  k.setTask task { k.tasks task with st := st }

def resetStats (k : Kernel) (task : TaskId) : Kernel :=
  k.setStats task ⟨0, 0, 0, 0, 0, 0, 0⟩

/-- The bucket an event closes, before the new stamp is stored. -/
def creditStats (struct : TaskStruct) (e : Event) (incr : DWord) : Stats :=
  let st := struct.st
  match e with
  | .freeToReady => { st with remainingTicks := BitVec.ofInt 32 struct.quantum }
  | .userToSys => { st with userTicks := st.userTicks + incr }
  | .sysToUser => { st with systemTicks := st.systemTicks + incr }
  | .sysToReady =>
      { st with systemTicks := st.systemTicks + incr
                remainingTicks := BitVec.ofInt 32 struct.quantum }
  | .readyToSys => { st with readyTicks := st.readyTicks + incr, totalTrans := st.totalTrans + 1 }
  | .sysToBlocked => { st with systemTicks := st.systemTicks + incr }
  | .blockedToReady => { st with blockedTicks := st.blockedTicks + incr }
  | .refresh =>
      if struct.state = .ready then { st with readyTicks := st.readyTicks + incr }
      else if struct.state = .blocked then { st with blockedTicks := st.blockedTicks + incr }
      else st
  | .quantumUpdated | .currentTicksUpdated => st

/-- What a task is doing, read off its state field; a running task is in the
kernel from the entry into a handler until the handler is left. -/
def phase (k : Kernel) (task : TaskId) : Phase :=
  match (k.tasks task).state with
  | .run => if k.handling then .system else .user
  | .ready => .ready
  | .blocked => .blocked
  | .zombie | .invalid => .dead

def updateStats (k : Kernel) (task : TaskId) (e : Event) : Kernel :=
  if e = .quantumUpdated ∨ e = .currentTicksUpdated then
    let aux := (k.tasks task).quantum - k.currentTicks
    k.setStats task { (k.tasks task).st with
      remainingTicks := if aux ≥ 0 then BitVec.ofInt 32 aux else 0 }
  else
    let elapsed := (k.tasks task).st.elapsedTotalTicks
    let current := k.clock k.clockReads
    let incr := current - elapsed
    let k := { k with clockReads := k.clockReads + 1 }
    -- `while(1)`: only a ready or blocked task can be refreshed.
    if e = .refresh ∧ (k.tasks task).state ≠ .ready ∧ (k.tasks task).state ≠ .blocked then k.hang
    else
      let st := { creditStats (k.tasks task) e incr with elapsedTotalTicks := current }
      { k.setStats task st with marks := ⟨task, e, current, st, k.phase⟩ :: k.marks }

def updateEnteringSys (k : Kernel) : Kernel :=
  { k with handling := true }.updateStats k.current .userToSys

def updateLeavingSys (k : Kernel) : Kernel :=
  { k with handling := false }.updateStats k.current .sysToUser

end Kernel

end Zeos
