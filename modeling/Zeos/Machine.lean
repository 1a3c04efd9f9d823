import Zeos.Sys
import Zeos.Transition

set_option autoImplicit false

/-! The machine: boot (`system.c`), the entry points of `entry.S`, the system call
table, and the step from one entry into the kernel to the next. -/

namespace Zeos

/-- The system calls of `sys_call_table.S`, with their register arguments. -/
inductive Syscall where
  | niSyscall
  | exit
  | fork
  | write (fd buffer size : DWord)
  | read (fd buffer size : DWord)
  | gettime
  | clone (function stack exitFunc : DWord)
  | getpid
  | semInit (nSem value : DWord)
  | semWait (nSem : DWord)
  | semSignal (nSem : DWord)
  | semDestroy (nSem : DWord)
  | sbrk (increment : DWord)
  | getStats (pid st : DWord)
  deriving DecidableEq, Repr

/-- What can happen in user mode: a system call, one with a number out of the
table, an interrupt, or a memory access of the user program. -/
inductive Action where
  | call (request : Syscall)
  | badCall
  | clock
  | keyboard (value : Byte)
  | load (addr : DWord)
  | store (addr : DWord) (value : Byte)
  deriving DecidableEq, Repr

/-- What the boot loader, the linker and the processor supply: the guard pages,
memory once the user image is in place, and the readings of the clock. -/
structure Image where
  guardBefore : Nat
  guardAfter : Nat
  ram : Nat → Nat → Byte
  clock : Nat → DWord

namespace Kernel

/-- Static data is zero; the boot loader sets `CR0` to 1. -/
def static (image : Image) : Kernel where
  tasks _ := { pid := 0, state := .run, quantum := 0, st := ⟨0, 0, 0, 0, 0, 0, 0⟩,
               semDeleted := false, dirPagesBaseAddr := none, kernelEsp := .exited, heapTop := 0 }
  current := 3
  idleTask := 0
  links := ⟨fun _ => ⟨none, none⟩⟩
  lastPid := 0
  currentTicks := 0
  zeosTicks := 0
  semaphores _ := { used := false, count := 0, owner := none }
  keyboard := { keyboardBuffer := fun _ => 0, buffFrom := 0, buffTo := 0, remainingToRead := 0 }
  mm := { physMem := fun _ => 0, cowCountMem := fun _ => 0, pagusrTable := fun _ _ => noEntry,
          ram := image.ram, cr0 := 1, cr3 := none, log := [] }
  dirCount _ := 0
  console := []
  clock := image.clock
  clockReads := 0
  mode := .user
  stuck := false
  trace := []
  handling := false
  marks := []
  stores := []
  loads := []

/-- `main`, up to the first instruction in user mode. -/
def boot (image : Image) : Kernel :=
  ((((static image).initMm image.guardBefore image.guardAfter).initSched).initIdle.initTask1).initKeyboard

def syscall (k : Kernel) : Syscall → Kernel × Int
  | .niSyscall => (k, sysNiSyscall)
  | .exit => k.sysExit
  | .fork => k.sysFork
  | .write fd buffer size => k.sysWrite fd.toInt buffer size.toInt
  | .read fd buffer size => k.sysRead fd.toInt buffer size
  | .gettime => (k, k.sysGettime)
  | .clone function stack exitFunc => k.sysClone function stack exitFunc
  | .getpid => (k, k.sysGetpid)
  | .semInit nSem value => k.sysSemInit nSem.toInt value
  | .semWait nSem => k.sysSemWait nSem.toInt
  | .semSignal nSem => k.sysSemSignal nSem.toInt
  | .semDestroy nSem => k.sysSemDestroy nSem.toInt
  | .sbrk increment => k.sysSbrk increment
  | .getStats pid st => k.sysGetStats pid.toInt st

/-- The end of a handler: `update_leaving_sys` and `iret`, unless the CPU went
to another task. -/
def leave (k : Kernel) : Kernel :=
  if k.mode = .switching then k else { k.updateLeavingSys with mode := .user }

/-- The handlers of `entry.S`, and the accesses that end in `pf_handler`. -/
def deliver (k : Kernel) : Action → Kernel
  | .call request => (k.updateEnteringSys.syscall request).1.leave
  | .badCall => k
  | .clock => k.updateEnteringSys.clockRoutine.leave
  | .keyboard value => (k.updateEnteringSys.keyboardRoutine value).leave
  | .load addr => k.userLoad addr
  | .store addr value => k.userStore addr value

/-- The task just switched to goes on where it left off. -/
def resume (k : Kernel) : Kernel :=
  let k := { k with mode := .user }
  match k.currentTask.kernelEsp with
  | .cpuIdle | .exited => k
  | .handler | .retFromFork | .cloned => k.leave
  | .semWait _ => k.semWaitResumed.1.leave
  | .readFirst buffer size => (k.readKeyboardFirst buffer size).1.leave
  | .readLoop buffer totalSize size => (k.readKeyboardAgain buffer totalSize size).1.leave

/-- Idle runs no user code: only interrupts happen to it. -/
def enabled (k : Kernel) : Action → Bool
  | .clock | .keyboard _ => true
  | _ => k.current ≠ k.idleTask

/-- One step: an action in user mode, or (`none`) the continuation after a task
switch. A stuck machine takes no step. -/
def step (k : Kernel) (label : Option Action) : Option Kernel :=
  if k.stuck then none
  else match k.mode, label with
    | .user, some action => if k.enabled action then some (k.deliver action) else none
    | .switching, none => some k.resume
    | _, _ => none

/-- User mode, or the idle loop. -/
def atRest (k : Kernel) : Prop := k.mode = .user ∧ k.stuck = false

end Kernel

def Booted (k : Kernel) : Prop := ∃ image, k = Kernel.boot image

/-- The states reached from boot when every action meets the condition. -/
abbrev Reachable (admits : Kernel → Option Action → Prop) : Kernel → Prop :=
  Transition.Reachable Kernel.step admits Booted

/-- All actions. -/
def anyAction (_ : Kernel) (_ : Option Action) : Prop := True

end Zeos
