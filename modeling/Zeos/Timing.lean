import Zeos.Machine

set_option autoImplicit false

/-! What the kernel does with time: the ticks of the running task, the statistics of all
tasks, and the readings of the clock. -/

namespace Zeos

/-- The part of the kernel that time goes through. -/
structure Timing where
  current : TaskId
  idle : TaskId
  mode : Mode
  handling : Bool
  ticks : Int
  state : TaskId → TaskState
  resume : TaskId → Resume
  quantum : TaskId → Int
  st : TaskId → Stats
  clock : Nat → DWord
  reads : Nat
  marks : List Mark

def Kernel.timing (k : Kernel) : Timing where
  current := k.current
  idle := k.idleTask
  mode := k.mode
  handling := k.handling
  ticks := k.currentTicks
  state t := (k.tasks t).state
  resume t := (k.tasks t).kernelEsp
  quantum t := (k.tasks t).quantum
  st t := (k.tasks t).st
  clock := k.clock
  reads := k.clockReads
  marks := k.marks

/-- A stack that the task left inside the kernel, so that it leaves the handler when it goes
on. -/
def Resume.returns : Resume → Bool
  | .cpuIdle | .exited => false
  | _ => true

namespace Timing

/-- What a task is doing. -/
def phase (c : Timing) (task : TaskId) : Phase :=
  match c.state task with
  | .run => if c.handling then .system else .user
  | .ready => .ready
  | .blocked => .blocked
  | .zombie | .invalid => .dead

/-- The bucket an event closes. -/
def credit (c : Timing) (task : TaskId) (e : Event) (incr : DWord) : Stats :=
  let st := c.st task
  match e with
  | .freeToReady => { st with remainingTicks := BitVec.ofInt 32 (c.quantum task) }
  | .userToSys => { st with userTicks := st.userTicks + incr }
  | .sysToUser => { st with systemTicks := st.systemTicks + incr }
  | .sysToReady =>
      { st with systemTicks := st.systemTicks + incr
                remainingTicks := BitVec.ofInt 32 (c.quantum task) }
  | .readyToSys => { st with readyTicks := st.readyTicks + incr, totalTrans := st.totalTrans + 1 }
  | .sysToBlocked => { st with systemTicks := st.systemTicks + incr }
  | .blockedToReady => { st with blockedTicks := st.blockedTicks + incr }
  | .refresh =>
      if c.state task = .ready then { st with readyTicks := st.readyTicks + incr }
      else if c.state task = .blocked then { st with blockedTicks := st.blockedTicks + incr }
      else st
  | .quantumUpdated | .currentTicksUpdated => st

/-- The statistics a reading of the clock leaves. -/
def stamped (c : Timing) (task : TaskId) (e : Event) : Stats :=
  { c.credit task e (c.clock c.reads - (c.st task).elapsedTotalTicks) with
    elapsedTotalTicks := c.clock c.reads }

/-- A reading of the clock for an event of a task. -/
def stamp (c : Timing) (task : TaskId) (e : Event) : Timing :=
  { c with
    reads := c.reads + 1
    st := Function.update c.st task (c.stamped task e)
    marks := ⟨task, e, c.clock c.reads, c.stamped task e, c.phase⟩ :: c.marks }

/-- The ticks left to a task. -/
def left (c : Timing) (task : TaskId) : DWord :=
  if c.quantum task - c.ticks ≥ 0 then BitVec.ofInt 32 (c.quantum task - c.ticks) else 0

/-- The remaining ticks are computed again. -/
def refreshTicks (c : Timing) (task : TaskId) : Timing :=
  { c with st := Function.update c.st task { c.st task with remainingTicks := c.left task } }

def setState (c : Timing) (task : TaskId) (state : TaskState) : Timing :=
  { c with state := Function.update c.state task state }

/-! ### What happens to a task -/

/-- Entry into a handler. -/
def enter (c : Timing) : Timing := { c with handling := true }.stamp c.current .userToSys

/-- The end of a handler, unless the CPU went to another task. -/
def close (c : Timing) : Timing :=
  if c.mode = .switching then c else { c with handling := false }.stamp c.current .sysToUser

/-- A task that waited becomes ready. -/
def grant (c : Timing) (task : TaskId) : Timing :=
  (c.setState task .ready).stamp task .blockedToReady

/-- A task struct from the pool is set up. -/
def born (c : Timing) (child : TaskId) (start : Resume) : Timing :=
  { c with
    quantum := Function.update c.quantum child (c.quantum c.current)
    st := Function.update c.st child ⟨0, 0, 0, 0, 0, 0, 0⟩
    resume := Function.update c.resume child start }.setState child .ready

/-- A task struct from the pool becomes a ready task. -/
def spawn (c : Timing) (child : TaskId) (start : Resume) : Timing :=
  (c.born child start).stamp child .freeToReady

/-- The running task blocks. -/
def block (c : Timing) : Timing := (c.setState c.current .blocked).stamp c.current .sysToBlocked

/-- The running task goes back to the ready ones. -/
def requeue (c : Timing) : Timing := (c.setState c.current .ready).stamp c.current .sysToReady

/-- The running task leaves for good. -/
def retire (c : Timing) : Timing := c.setState c.current .invalid

/-- One more tick of the running task. -/
def tick (c : Timing) : Timing := { c with ticks := c.ticks + 1 }.refreshTicks c.current

/-- The CPU goes to another task, with a full quantum. -/
def dispatch (c : Timing) (next : TaskId) (saved : Resume) : Timing :=
  let c' := { (c.setState next .run).stamp next .readyToSys with ticks := 0 }.refreshTicks next
  { c' with resume := Function.update c.resume c.current saved, current := next, mode := .switching }

/-- The task just switched to goes on. -/
def goOn (c : Timing) : Timing := { c with mode := .user }

/-- A task that can get the CPU. -/
def Eligible (c : Timing) (task : TaskId) : Prop := c.state task = .ready ∨ task = c.idle

/-- The clock interrupt takes the CPU away; `waiting` says whether somebody is ready. -/
def NeedsSched (c : Timing) (waiting : Prop) : Prop :=
  c.current = c.idle ∧ waiting ∨ (c.st c.current).remainingTicks = 0

/-- Tasks that waited become ready, one after another. -/
inductive Grants (c : Timing) : Timing → Prop where
  | none : Grants c c
  | more {c' : Timing} (task : TaskId) : Grants c c' → c'.state task = .blocked →
      Grants c (c'.grant task)

/-- What a call does between the entry and the end. -/
inductive Serves (c : Timing) : Timing → Prop where
  | refresh (task : TaskId) : c.state task = .ready ∨ c.state task = .blocked →
      Serves c (c.stamp task .refresh)
  | spawn (child : TaskId) (start : Resume) : c.state child = .invalid → start.returns = true →
      Serves c (c.spawn child start)
  | grants {c' : Timing} : Grants c c' → Serves c c'
  | block (next : TaskId) (saved : Resume) : c.current ≠ c.idle → saved.returns = true →
      c.block.Eligible next → Serves c (c.block.dispatch next saved)
  | exit {c' : Timing} (next : TaskId) : c.current ≠ c.idle → Grants c.retire c' →
      c'.Eligible next → Serves c (c'.dispatch next .exited)

/-- What the keyboard does. Idle, which is on no queue, keeps its state. -/
inductive Wakes (c : Timing) : Timing → Prop where
  | quiet : Wakes c c
  | busy (reader : TaskId) : c.current ≠ c.idle → c.state reader = .blocked →
      Wakes c ((c.requeue.grant reader).dispatch reader .handler)
  | idle (reader : TaskId) : c.current = c.idle → c.state reader = .blocked →
      Wakes c ((c.grant reader).dispatch reader .handler)

/-- What the clock does. -/
inductive Ticks (c : Timing) : Timing → Prop where
  | stay (waiting : Prop) : ¬ c.tick.NeedsSched waiting → Ticks c c.tick
  | preempt (waiting : Prop) (next : TaskId) : c.current ≠ c.idle → c.tick.NeedsSched waiting →
      c.tick.requeue.Eligible next → Ticks c (c.tick.requeue.dispatch next .handler)
  | idleOver (waiting : Prop) (next : TaskId) : c.current = c.idle → c.tick.NeedsSched waiting →
      c.tick.Eligible next → Ticks c ((c.tick.stamp c.current .sysToReady).dispatch next .handler)

/-- One step, as far as time is concerned. -/
inductive Step (c : Timing) : Option Action → Timing → Prop where
  | access (action : Action) : c.mode = .user → action ≠ .clock → Step c (some action) c
  | call (request : Syscall) {c' : Timing} : c.mode = .user → c.enter.Serves c' →
      Step c (some (.call request)) c'.close
  | keyboard (value : Byte) {c' : Timing} : c.mode = .user → c.enter.Wakes c' →
      Step c (some (.keyboard value)) c'.close
  | clock {c' : Timing} : c.mode = .user → c.enter.Ticks c' → Step c (some .clock) c'.close
  | resume {c' : Timing} : c.mode = .switching → (c.resume c.current).returns = true →
      c.goOn.Serves c' → Step c none c'.close
  | resumeIdle : c.mode = .switching → (c.resume c.current).returns = false → Step c none c.goOn

/-! ### What stays the same -/

variable {c c' : Timing} {task : TaskId}

theorem close_switching (switching : c.mode = .switching) : c.close = c := if_pos switching

theorem mode_close : c.close.mode = c.mode := by
  unfold close
  split
  · rfl
  · rfl

theorem mode_grants (grants : Grants c c') : c'.mode = c.mode := by
  induction grants with
  | none => rfl
  | more task _ _ ih => exact ih

theorem current_grants (grants : Grants c c') : c'.current = c.current := by
  induction grants with
  | none => rfl
  | more task _ _ ih => exact ih

theorem idle_grants (grants : Grants c c') : c'.idle = c.idle := by
  induction grants with
  | none => rfl
  | more task _ _ ih => exact ih

/-- Only tasks that waited change their state. -/
theorem state_grants (grants : Grants c c') (stays : c.state task ≠ .blocked) :
    c'.state task = c.state task := by
  induction grants with
  | none => rfl
  | @more c' other _ blocked ih =>
      have apart : task ≠ other := fun same => stays (by rw [← ih, same, blocked])
      exact (Function.update_of_ne apart ..).trans ih

theorem current_close : c.close.current = c.current := by
  unfold close
  split
  · rfl
  · rfl

theorem state_close : c.close.state = c.state := by
  unfold close
  split
  · rfl
  · rfl

end Timing

end Zeos
