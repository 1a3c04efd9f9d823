import Zeos.State

set_option autoImplicit false

/-! What a recorded history says. A trace is newest first, so each reading is a
fold from its end. -/

namespace Zeos

namespace History

/-! ### Semaphores -/

/-- The PID of the task that made the last creation of a semaphore. -/
def creatorNext (sem : SemId) : Note → Option Int → Option Int
  | .semCreated sem' creator _, made => if sem' = sem then some creator else made
  | _, made => made

def creator (sem : SemId) (trace : List Note) : Option Int :=
  trace.foldr (creatorNext sem) none

/-- One lifetime of a semaphore: its initial value, the successful signals, the
waits granted, and the tasks that blocked and those a signal dequeued, in order. -/
structure Lifetime where
  value : DWord
  signals : Nat
  granted : Nat
  blocked : List TaskId
  served : List TaskId

def Lifetime.next : Note → Lifetime → Lifetime
  | .semTaken _ _, life => { life with granted := life.granted + 1 }
  | .semBlocked _ task, life => { life with blocked := life.blocked ++ [task] }
  | .semRaised _, life => { life with signals := life.signals + 1 }
  | .semGranted _ task, life =>
      { life with signals := life.signals + 1, granted := life.granted + 1
                  served := life.served ++ [task] }
  | _, life => life

/-- The semaphore a note is about. -/
def subject : Note → Option SemId
  | .semCreated sem _ _ | .semTaken sem _ | .semBlocked sem _ | .semRaised sem
  | .semGranted sem _ | .semDestroyed sem | .semAborted sem _ => some sem
  | _ => none

def lifetimeNext (sem : SemId) (entry : Note) (life : Option Lifetime) : Option Lifetime :=
  if subject entry = some sem then
    match entry with
    | .semCreated _ _ value => some ⟨value, 0, 0, [], []⟩
    | .semDestroyed _ => none
    | entry => life.map (Lifetime.next entry)
  else life

/-- The present lifetime of a semaphore; `none` before its creation and after
its destruction. -/
def lifetime (sem : SemId) (trace : List Note) : Option Lifetime :=
  trace.foldr (lifetimeNext sem) none

/-- Who waits for each semaphore, and how the wait of each task ended: 0 if a
signal dequeued it, -1 if its semaphore was destroyed first. `answered` says
that every wait that returned gave this result. -/
structure Waits where
  waiting : SemId → List TaskId
  outcome : TaskId → Option Int
  answered : Bool

def Waits.next : Note → Waits → Waits
  | .semBlocked sem task, w =>
      { w with waiting := Function.update w.waiting sem (w.waiting sem ++ [task]) }
  | .semGranted sem task, w =>
      { w with waiting := Function.update w.waiting sem ((w.waiting sem).erase task)
               outcome := Function.update w.outcome task (some 0) }
  | .semDestroyed sem, w =>
      { w with waiting := Function.update w.waiting sem []
               outcome := fun task =>
                 if task ∈ w.waiting sem then some (-1) else w.outcome task }
  | .waitReturned task result, w =>
      { w with outcome := Function.update w.outcome task none
               answered := w.answered && decide (w.outcome task = some result) }
  | _, w => w

def waits (trace : List Note) : Waits :=
  trace.foldr Waits.next ⟨fun _ => [], fun _ => none, true⟩

/-! ### Directories -/

/-- How often a directory was handed out. -/
def opened (dir : DirId) (trace : List Note) : Nat := trace.count (.dirOpened dir)

/-- How often the pages of a directory were released. -/
def released (dir : DirId) (trace : List Note) : Nat := trace.count (.dirReleased dir)

/-! ### Reads -/

/-- A call of `sys_read` that reached the keyboard: the bytes it has got so far
with the places they were stored to, and whether it has returned. -/
structure Call where
  task : TaskId
  buffer : DWord
  size : Nat
  stored : List (DWord × Byte)
  done : Bool

/-- The characters a call has got. -/
def Call.data (call : Call) : List Byte := call.stored.map Prod.snd

/-- Characters at consecutive places, the first at `buffer + count`. -/
def landed (buffer : DWord) : Nat → List Byte → List (DWord × Byte)
  | _, [] => []
  | count, key :: rest =>
      (buffer + BitVec.ofNat 32 count, key) :: landed buffer (count + 1) rest

def Call.update (task : TaskId) (change : Call → Call) (call : Call) : Call :=
  if call.task = task ∧ call.done = false then change call else call

def callsNext : Note → List Call → List Call
  | .readCalled task buffer size, calls => calls ++ [⟨task, buffer, size, [], false⟩]
  | .delivered task place key, calls =>
      calls.map (Call.update task fun call => { call with stored := call.stored ++ [(place, key)] })
  | .readDone task, calls => calls.map (Call.update task fun call => { call with done := true })
  | _, calls => calls

/-- The calls in the order in which they were made. -/
def calls (trace : List Note) : List Call := trace.foldr callsNext []

def acceptedNext : Note → List Byte → List Byte
  | .accepted key, keys => keys ++ [key]
  | _, keys => keys

/-- The characters `keyboard_routine` accepted, oldest first. -/
def accepted (trace : List Note) : List Byte := trace.foldr acceptedNext []

end History

end Zeos
