import Mathlib.Algebra.GroupWithZero.Nat
import Mathlib.Data.Fin.Basic
import Zeos.CircularList

set_option autoImplicit false

/-! The data of the kernel: `types.h`, `mm_address.h`, `sched.h`, `stats.h`, and
the globals of `mm.c`, `sched.c`, `keyboard.c` and `sys.c`. -/

namespace Zeos

open CircularList (Heap)

abbrev Byte := BitVec 8
abbrev DWord := BitVec 32

abbrev totalPages : Nat := 1024
abbrev numPagKernel : Nat := 256
abbrev pageSize : Nat := 0x1000
abbrev lUserStart : Nat := 0x100000
abbrev heapStart : Nat := 0x200000 - 1
abbrev numPagCode : Nat := 8
abbrev numPagData : Nat := 20
abbrev userFirstPage : Nat := lUserStart >>> 12
abbrev pagLogInitCode : Nat := lUserStart >>> 12
abbrev pagLogInitData : Nat := pagLogInitCode + numPagCode
abbrev pagLogInitHeap : Nat := heapStart >>> 12

abbrev nrTasks : Nat := 10
abbrev nrSemaphores : Nat := 20
abbrev defaultQuantum : Int := 100
abbrev keyboardBufferSize : Nat := 10

/-- The largest `int`. A signed overflow is undefined in C and leaves the model
stuck. -/
abbrev intMax : Int := 2147483647
abbrev intMin : Int := -2147483648

/-- Pointers into `tasks`, `semaphores`, and `dir_pages` or `pagusr_table`. -/
abbrev TaskId := Fin nrTasks
abbrev SemId := Fin nrSemaphores
abbrev DirId := Fin nrTasks

instance : NeZero nrTasks := ⟨by decide⟩

inductive TaskState where
  | run | ready | blocked | zombie | invalid
  deriving DecidableEq, Repr

inductive Event where
  | freeToReady | userToSys | sysToUser | sysToReady | readyToSys | sysToBlocked
  | blockedToReady | quantumUpdated | currentTicksUpdated | refresh
  deriving DecidableEq, Repr

/-- The `struct list_head` objects: four global heads, and those inside the task
structs, the semaphores and `dir_status`. -/
inductive Node where
  | freeQueue | readyqueue | keyboardqueue | freeDirs
  | anchor (task : TaskId)
  | semaphores (task : TaskId)
  | semAnchor (sem : SemId)
  | blocked (sem : SemId)
  | dirAnchor (dir : DirId)
  deriving DecidableEq, Repr

structure Stats where
  userTicks : DWord
  systemTicks : DWord
  blockedTicks : DWord
  readyTicks : DWord
  elapsedTotalTicks : DWord
  totalTrans : DWord
  remainingTicks : DWord
  deriving DecidableEq, Repr

/-- Where a task that is not running continues: the code its kernel stack
returns into, with the locals that code still reads. -/
inductive Resume where
  | cpuIdle
  | handler
  | retFromFork
  | cloned
  | semWait (sem : SemId)
  | readFirst (buffer : DWord) (size : Int)
  | readLoop (buffer : DWord) (totalSize size : Int)
  | exited
  deriving DecidableEq, Repr

/-- `struct task_struct`; its two list nodes are in the heap of links. -/
structure TaskStruct where
  pid : Int
  state : TaskState
  quantum : Int
  st : Stats
  semDeleted : Bool
  dirPagesBaseAddr : Option DirId
  kernelEsp : Resume
  heapTop : DWord

structure Semaphore where
  used : Bool
  count : Int
  owner : Option TaskId

/-- The bits of a page table entry that are read; `entry = 0` clears them all. -/
structure PageTableEntry where
  present : Bool
  rw : Bool
  user : Bool
  pbaseAddr : Nat
  deriving DecidableEq, Repr

abbrev noEntry : PageTableEntry := ⟨false, false, false, 0⟩

/-- What the history of the address translation records: a new table entry, a
load of `CR3`, a fault on a page. -/
inductive TableNote where
  | entry (dir : DirId) (page : Nat) (entry : PageTableEntry)
  | cr3 (dir : Option DirId)
  | fault (page : Nat)
  deriving DecidableEq, Repr

/-- Memory and paging: the globals of `mm.c`, physical memory by frame and
offset, and the control registers. `cr3` is the directory in use; `log` is the
history, newest first, which no function reads. -/
structure Mm where
  physMem : Nat → Byte
  cowCountMem : Nat → Byte
  pagusrTable : DirId → Nat → PageTableEntry
  ram : Nat → Nat → Byte
  cr0 : DWord
  cr3 : Option DirId
  log : List TableNote

structure Keyboard where
  keyboardBuffer : Nat → Byte
  buffFrom : Nat
  buffTo : Nat
  remainingToRead : Int

/-- What the history of a run records; no function of the kernel reads it. -/
inductive Note where
  | accepted (key : Byte)
  | readCalled (task : TaskId) (buffer : DWord) (size : Nat)
  | delivered (task : TaskId) (place : DWord) (key : Byte)
  | readDone (task : TaskId)
  | semCreated (sem : SemId) (creator : Int) (value : DWord)
  | semTaken (sem : SemId) (task : TaskId)
  | semBlocked (sem : SemId) (task : TaskId)
  | semRaised (sem : SemId)
  | semGranted (sem : SemId) (task : TaskId)
  | semDestroyed (sem : SemId)
  | semAborted (sem : SemId) (task : TaskId)
  | waitReturned (task : TaskId) (result : Int)
  | dirOpened (dir : DirId)
  | dirReleased (dir : DirId)
  deriving DecidableEq, Repr

/-- What a task is doing. -/
inductive Phase where
  | user | system | ready | blocked | dead
  deriving DecidableEq, Repr

/-- A reading of the clock by `update_stats`: for which task and event, the value,
the statistics it leaves, and what every task was doing then. -/
structure Mark where
  task : TaskId
  event : Event
  value : DWord
  st : Stats
  phases : TaskId → Phase

/-- `user` is user mode, or the idle loop when idle runs; `switching` is the
instant after a task switch, before the chosen task has continued. -/
inductive Mode where
  | user | switching
  deriving DecidableEq, Repr

/-- The whole machine. `current` is read off the stack pointer in the source;
`clock` is the sequence of values `get_ticks` returns. A state is `stuck` once
it spins in `while(1)`, faults for ever, or did something C leaves undefined.
The last five fields are history, newest first, and no function reads them:
`handling` is on from the entry into a handler until it is left, `marks` are the
readings of the clock, and `stores` and `loads` the addresses the kernel stored to
and loaded from for a task. -/
structure Kernel where
  tasks : TaskId → TaskStruct
  current : TaskId
  idleTask : TaskId
  links : Heap Node
  lastPid : Int
  currentTicks : Int
  zeosTicks : DWord
  semaphores : SemId → Semaphore
  keyboard : Keyboard
  mm : Mm
  dirCount : DirId → Int
  console : List Byte
  clock : Nat → DWord
  clockReads : Nat
  mode : Mode
  stuck : Bool
  trace : List Note
  handling : Bool
  marks : List Mark
  stores : List (TaskId × DWord)
  loads : List (TaskId × DWord)

namespace Kernel

def hang (k : Kernel) : Kernel := { k with stuck := true }

def note (k : Kernel) (entry : Note) : Kernel := { k with trace := entry :: k.trace }

def setTask (k : Kernel) (task : TaskId) (struct : TaskStruct) : Kernel :=
  { k with tasks := Function.update k.tasks task struct }

def setState (k : Kernel) (task : TaskId) (state : TaskState) : Kernel :=
  k.setTask task { k.tasks task with state := state }

def setSem (k : Kernel) (sem : SemId) (value : Semaphore) : Kernel :=
  { k with semaphores := Function.update k.semaphores sem value }

/-- `struct task_struct* current()`. -/
def currentTask (k : Kernel) : TaskStruct := k.tasks k.current

end Kernel

end Zeos
