import Zeos.Machine

set_option autoImplicit false

/-! The abstract scheduler. Pointer lists become sequences, the keyboard ring
becomes the sequence of characters in it, and what depends on clocks, memory or
arguments becomes a choice. -/

namespace Zeos

/-- The queues a task can be on. -/
inductive Queue where
  | free | ready | readers
  | waiters (sem : SemId)
  deriving DecidableEq

namespace Queue

def head : Queue → Node
  | .free => .freeQueue
  | .ready => .readyqueue
  | .readers => .keyboardqueue
  | .waiters sem => .blocked sem

/-- The state of the tasks on a queue. -/
def state : Queue → TaskState
  | .free => .invalid
  | .ready => .ready
  | .readers | .waiters _ => .blocked

end Queue

/-- What the scheduler knows of a task. -/
structure TaskCore where
  state : TaskState
  resume : Resume
  aborted : Bool
  pid : Int
  dir : Option DirId
  deriving DecidableEq

def TaskStruct.core (struct : TaskStruct) : TaskCore :=
  ⟨struct.state, struct.kernelEsp, struct.semDeleted, struct.pid, struct.dirPagesBaseAddr⟩

/-- `started` and `born` tell which list heads have been initialised. -/
structure Roster where
  queue : Queue → List TaskId
  started : SemId → Bool
  owned : TaskId → List SemId
  born : TaskId → Bool
  freeDirs : List DirId
  task : TaskId → TaskCore
  sem : SemId → Semaphore
  dirCount : DirId → Int
  current : TaskId
  idle : TaskId
  mode : Mode
  lastPid : Int
  pending : List Byte
  trace : List Note

/-- What the handlers ask outside of the scheduler: which blocks `access_ok` grants, whether this
tick is the last of the slice, and whether this key is the last that the first reader waits
for. -/
structure Seen where
  accessOk : Verify → DWord → DWord → Bool
  sliceOver : Bool
  satisfied : Bool

/-- The answers in a state of the kernel. -/
def Kernel.seen (k : Kernel) : Seen where
  accessOk := k.accessOk
  sliceOver := k.updateSchedDataRr.currentTask.st.remainingTicks == 0
  satisfied := decide (k.keyboard.remainingToRead - 1 ≤ 0)

namespace Roster

/-- The lists in memory, by their heads. -/
def family (r : Roster) : Node → Option (List Node)
  | .freeQueue => some ((r.queue .free).map .anchor)
  | .readyqueue => some ((r.queue .ready).map .anchor)
  | .keyboardqueue => some ((r.queue .readers).map .anchor)
  | .freeDirs => some (r.freeDirs.map .dirAnchor)
  | .blocked sem =>
      if r.started sem then some ((r.queue (.waiters sem)).map .anchor) else none
  | .semaphores task => if r.born task then some ((r.owned task).map .semAnchor) else none
  | .anchor _ | .semAnchor _ | .dirAnchor _ => none

/-- A task struct in use: not on `free_queue`. -/
def live (r : Roster) (task : TaskId) : Prop := (r.task task).state ≠ .invalid

def note (r : Roster) (entry : Note) : Roster := { r with trace := entry :: r.trace }

def setTask (r : Roster) (task : TaskId) (core : TaskCore) : Roster :=
  { r with task := Function.update r.task task core }

def setQueue (r : Roster) (q : Queue) (members : List TaskId) : Roster :=
  { r with queue := Function.update r.queue q members }

def setState (r : Roster) (task : TaskId) (state : TaskState) : Roster :=
  r.setTask task { r.task task with state := state }

/-- Add a task that is on no queue. -/
def place (r : Roster) (task : TaskId) (q : Queue) (first : Bool) : Roster :=
  (r.setQueue q (if first then task :: r.queue q else r.queue q ++ [task])).setState task q.state

def take (r : Roster) (task : TaskId) (q : Queue) : Roster :=
  r.setQueue q ((r.queue q).erase task)

/-- The task that `sched_next_rr` chooses. -/
def nextTask (r : Roster) : TaskId := (r.queue .ready).headD r.idle

def schedNext (r : Roster) (saved : Resume) : Roster :=
  let next := r.nextTask
  let r := r.setQueue .ready (r.queue .ready).tail
  let r := r.setState next .run
  let r := r.setTask r.current { r.task r.current with resume := saved }
  { r with current := next, mode := .switching }

/-- The running task gives up the CPU but stays ready; idle is on no queue. -/
def yield (r : Roster) : Roster :=
  if r.current ≠ r.idle then r.place r.current .ready false else r

def accept (r : Roster) (key : Byte) : Roster :=
  { r with pending := r.pending ++ [key] }.note (.accepted key)

/-- A keyboard wake-up of the first reader. -/
def wake (r : Roster) (reader : TaskId) : Roster :=
  ((r.yield.take reader .readers).place reader .ready true).schedNext .handler

/-- A task struct leaves the pool, in address space `dir`. -/
def allocate (r : Roster) (task : TaskId) (dir : DirId) : Roster :=
  let r := r.setQueue .free (r.queue .free).tail
  let r := r.setTask task { r.task task with pid := r.lastPid, aborted := false, dir := some dir }
  { r with
    lastPid := r.lastPid + 1
    owned := Function.update r.owned task []
    born := Function.update r.born task true }

def newDir (r : Roster) (dir : DirId) : Roster :=
  { r with freeDirs := r.freeDirs.tail, dirCount := Function.update r.dirCount dir 1 }.note
    (.dirOpened dir)

def shareDir (r : Roster) (dir : DirId) : Roster :=
  { r with dirCount := Function.update r.dirCount dir (r.dirCount dir + 1) }

/-- The new task becomes ready; it will start at `start`. -/
def launch (r : Roster) (task : TaskId) (start : Resume) : Roster :=
  (r.setTask task { r.task task with resume := start }).place task .ready false

def releaseDir (r : Roster) (task : TaskId) : Roster :=
  let dir := (r.task task).dir.getD 0
  let r := { r with dirCount := Function.update r.dirCount dir (r.dirCount dir - 1) }
  let r := if r.dirCount dir = 0 then
      { r with freeDirs := dir :: r.freeDirs }.note (.dirReleased dir) else r
  r.setTask task { r.task task with dir := none }

def semCreate (r : Roster) (sem : SemId) (value : DWord) : Roster :=
  { r with
    sem := Function.update r.sem sem
      { used := true, count := value.toInt, owner := some r.current }
    started := Function.update r.started sem true
    queue := Function.update r.queue (.waiters sem) []
    owned := Function.update r.owned r.current (sem :: r.owned r.current) }.note
      (.semCreated sem (r.task r.current).pid value)

def semCount (r : Roster) (sem : SemId) (count : Int) : Roster :=
  { r with sem := Function.update r.sem sem { r.sem sem with count := count } }

def semTake (r : Roster) (sem : SemId) : Roster :=
  (r.semCount sem ((r.sem sem).count - 1)).note (.semTaken sem r.current)

def semRaise (r : Roster) (sem : SemId) : Roster :=
  (r.semCount sem ((r.sem sem).count + 1)).note (.semRaised sem)

def semBlock (r : Roster) (sem : SemId) : Roster :=
  ((r.note (.semBlocked sem r.current)).place r.current (.waiters sem) false).schedNext
    (.semWait sem)

def semGrant (r : Roster) (sem : SemId) (task : TaskId) : Roster :=
  ((r.take task (.waiters sem)).place task .ready false).note (.semGranted sem task)

def abort (sem : SemId) (r : Roster) (task : TaskId) : Roster :=
  let r := (r.take task (.waiters sem)).place task .ready false
  (r.setTask task { r.task task with aborted := true }).note (.semAborted sem task)

/-- The semaphore is unlinked from the list of `owner`, then its waiters are
aborted in order. -/
def semDestroy (owner : TaskId) (r : Roster) (sem : SemId) : Roster :=
  let r := { r with
    sem := Function.update r.sem sem { r.sem sem with used := false }
    owned := Function.update r.owned owner ((r.owned owner).erase sem) }
  let r := r.note (.semDestroyed sem)
  (r.queue (.waiters sem)).foldl (abort sem) r

def exit (r : Roster) : Roster :=
  let task := r.current
  let r := (r.place task .free false).releaseDir task
  let r := (r.owned task).foldl (semDestroy task) r
  { r with owned := Function.update r.owned task [] }.schedNext .exited

/-- Deliver up to `size` of the pending characters to the running task. -/
def popKeys : Nat → DWord → Nat → Roster → Roster × Nat
  | 0, _, count, r => (r, count)
  | size + 1, buffer, count, r =>
      match r.pending with
      | [] => (r, count)
      | key :: rest =>
          popKeys size buffer (count + 1) ({ r with pending := rest }.note
            (.delivered r.current (buffer + BitVec.ofNat 32 count) key))

def readLoop (r : Roster) (buffer : DWord) (totalSize size : Int) : Roster :=
  if size > 0 then
    (r.place r.current .readers true).schedNext (.readLoop buffer totalSize size)
  else r.note (.readDone r.current)

def readFirst (r : Roster) (buffer : DWord) (totalSize : Int) : Roster :=
  let popped := r.popKeys totalSize.toNat buffer 0
  popped.1.readLoop buffer totalSize (totalSize - popped.2)

def readAgain (r : Roster) (buffer : DWord) (totalSize size : Int) : Roster :=
  let popped := r.popKeys size.toNat (buffer + BitVec.ofInt 32 (totalSize - size)) 0
  popped.1.readLoop buffer totalSize (size - popped.2)

def read (r : Roster) (buffer : DWord) (size : Int) : Roster :=
  let r := r.note (.readCalled r.current buffer size.toNat)
  if r.queue .readers = [] then r.readFirst buffer size
  else (r.place r.current .readers false).schedNext (.readFirst buffer size)

/-- A blocked wait returns: `-1` and the flag is cleared, or `0`. -/
def waitReturn (r : Roster) : Roster :=
  if (r.task r.current).aborted then
    (r.setTask r.current { r.task r.current with aborted := false }).note
      (.waitReturned r.current (-1))
  else r.note (.waitReturned r.current 0)

/-- The action fails a check, or is none of the scheduler's business. -/
def Refuses (r : Roster) (seen : Seen) : Action → Prop
  | .clock => seen.sliceOver = false ∧ (r.current = r.idle → r.queue .ready = [])
  | .keyboard value => ∀ key, Kernel.pressedKey value = some key →
      r.pending.length + 1 = keyboardBufferSize
  | .call .exit => False
  | .call .fork => r.queue .free = []
  | .call (.clone function stack _) => seen.accessOk .write function 4 = false ∨
      seen.accessOk .write stack 4 = false ∨ r.queue .free = []
  | .call (.read fd buffer size) => checkFd fd.toInt readOperation < 0 ∨ buffer = 0 ∨
      size.toInt < 0 ∨ seen.accessOk .write buffer size = false
  | .call (.semInit nSem _) => ∀ sem, semAt nSem.toInt = some sem → (r.sem sem).used = true
  | .call (.semWait nSem) | .call (.semSignal nSem) => ∀ sem, semAt nSem.toInt = some sem →
      (r.sem sem).used = false
  | .call (.semDestroy nSem) => ∀ sem owner, semAt nSem.toInt = some sem →
      (r.sem sem).used = true → (r.sem sem).owner = some owner →
      (r.task owner).pid ≠ (r.task r.current).pid
  | _ => True

/-- One step of the abstract machine, given what its checks see. -/
inductive Step (seen : Seen) : Roster → Option Action → Roster → Prop where
  | quiet {r : Roster} (action : Action) : r.mode = .user → r.Refuses seen action →
      Step seen r (some action) r
  | preempt {r : Roster} : r.mode = .user → ¬ r.Refuses seen .clock →
      Step seen r (some .clock) (r.yield.schedNext .handler)
  | press {r : Roster} (value key : Byte) : r.mode = .user →
      Kernel.pressedKey value = some key → r.pending.length + 1 < keyboardBufferSize →
      (r.queue .readers = [] ∨ r.pending.length + 2 < keyboardBufferSize ∧ seen.satisfied = false) →
      Step seen r (some (.keyboard value)) (r.accept key)
  | wake {r : Roster} (value key : Byte) (reader : TaskId) (rest : List TaskId) :
      r.mode = .user → Kernel.pressedKey value = some key →
      r.pending.length + 1 < keyboardBufferSize → r.queue .readers = reader :: rest →
      (seen.satisfied = true ∨ r.pending.length + 2 = keyboardBufferSize) →
      Step seen r (some (.keyboard value)) ((r.accept key).wake reader)
  | fork {r : Roster} (task : TaskId) (dir : DirId) (others : List TaskId)
      (dirs : List DirId) : r.mode = .user → r.current ≠ r.idle →
      r.queue .free = task :: others → r.freeDirs = dir :: dirs →
      Step seen r (some (.call .fork)) (((r.newDir dir).allocate task dir).launch task .retFromFork)
  | clone {r : Roster} (function stack exitFunc : DWord) (task : TaskId) (dir : DirId)
      (others : List TaskId) : r.mode = .user → r.current ≠ r.idle →
      r.queue .free = task :: others → (r.task r.current).dir = some dir →
      ¬ r.Refuses seen (.call (.clone function stack exitFunc)) →
      Step seen r (some (.call (.clone function stack exitFunc)))
        (((r.shareDir dir).allocate task dir).launch task .cloned)
  | exit {r : Roster} : r.mode = .user → r.current ≠ r.idle → Step seen r (some (.call .exit)) r.exit
  | read {r : Roster} (fd buffer size : DWord) : r.mode = .user → r.current ≠ r.idle →
      0 ≤ size.toInt → ¬ r.Refuses seen (.call (.read fd buffer size)) →
      Step seen r (some (.call (.read fd buffer size))) (r.read buffer size.toInt)
  | semInit {r : Roster} (nSem value : DWord) (sem : SemId) : r.mode = .user →
      r.current ≠ r.idle → semAt nSem.toInt = some sem → (r.sem sem).used = false →
      Step seen r (some (.call (.semInit nSem value))) (r.semCreate sem value)
  | semTake {r : Roster} (nSem : DWord) (sem : SemId) : r.mode = .user → r.current ≠ r.idle →
      semAt nSem.toInt = some sem → (r.sem sem).used = true → (r.sem sem).count ≠ 0 →
      Step seen r (some (.call (.semWait nSem))) (r.semTake sem)
  | semBlock {r : Roster} (nSem : DWord) (sem : SemId) : r.mode = .user → r.current ≠ r.idle →
      semAt nSem.toInt = some sem → (r.sem sem).used = true → (r.sem sem).count = 0 →
      Step seen r (some (.call (.semWait nSem))) (r.semBlock sem)
  | semRaise {r : Roster} (nSem : DWord) (sem : SemId) : r.mode = .user → r.current ≠ r.idle →
      semAt nSem.toInt = some sem → (r.sem sem).used = true → r.queue (.waiters sem) = [] →
      Step seen r (some (.call (.semSignal nSem))) (r.semRaise sem)
  | semGrant {r : Roster} (nSem : DWord) (sem : SemId) (task : TaskId) (rest : List TaskId) :
      r.mode = .user → r.current ≠ r.idle → semAt nSem.toInt = some sem →
      (r.sem sem).used = true → r.queue (.waiters sem) = task :: rest →
      Step seen r (some (.call (.semSignal nSem))) (r.semGrant sem task)
  | semDestroy {r : Roster} (nSem : DWord) (sem : SemId) (owner : TaskId) : r.mode = .user →
      r.current ≠ r.idle → semAt nSem.toInt = some sem → (r.sem sem).used = true →
      (r.sem sem).owner = some owner → (r.task owner).pid = (r.task r.current).pid →
      Step seen r (some (.call (.semDestroy nSem))) (r.semDestroy owner sem)
  | resume {r : Roster} : r.mode = .switching →
      (r.task r.current).resume ∈ [.cpuIdle, .exited, .handler, .retFromFork, .cloned] →
      Step seen r none { r with mode := .user }
  | resumeWait {r : Roster} (sem : SemId) : r.mode = .switching →
      (r.task r.current).resume = .semWait sem →
      Step seen r none { r with mode := .user }.waitReturn
  | resumeFirst {r : Roster} (buffer : DWord) (size : Int) : r.mode = .switching →
      (r.task r.current).resume = .readFirst buffer size →
      Step seen r none ({ r with mode := .user }.readFirst buffer size)
  | resumeLoop {r : Roster} (buffer : DWord) (totalSize size : Int) : r.mode = .switching →
      (r.task r.current).resume = .readLoop buffer totalSize size →
      Step seen r none ({ r with mode := .user }.readAgain buffer totalSize size)

end Roster

end Zeos
