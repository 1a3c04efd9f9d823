import Mathlib.Logic.Relation
import Zeos.CallStack
import Zeos.Sys

set_option autoImplicit false

/-! The kernel stacks: `sched.S`, `inner_task_switch`, the entry of
`system_call_handler`, and what `sys_fork` and `sys_clone` do to stacks. -/

namespace Zeos

open CallStack (Reg Operand Instr Cpu)

abbrev kernelStackSize : Nat := 1024
abbrev kernelDS : Nat := 0x18

/-- Offsets in `struct task_struct` and its size: a stack is the rest of the page. -/
abbrev dirPagesBaseAddrField : Nat := 60
abbrev kernelEspField : Nat := 64
abbrev taskStructSize : Nat := 72

/-- Where the linker puts `tasks`, on a page and below the user memory, and the code that
the stacks refer to: functions, and the places after two of the calls. -/
structure Link where
  tasksPage : Nat
  taskSwitch : Nat
  innerTaskSwitch : Nat
  getEbp : Nat
  changeContext : Nat
  sysFork : Nat
  sysClone : Nat
  retFromFork : Nat
  cpuIdle : Nat
  innerReturn : Nat
  handlerReturn : Nat
  below : tasksPage + nrTasks < userFirstPage
  distinct : [innerReturn, retFromFork, handlerReturn, cpuIdle].Nodup

/-- `TASK_UNION(task)`. -/
def Link.task (link : Link) (task : TaskId) : Nat := (link.tasksPage + task) * pageSize

/-- `&TASK_UNION(task)->stack[i]`. -/
def Link.stack (link : Link) (task : TaskId) (i : Nat) : Nat := link.task task + 4 * i

/-- The processor, with `tss.esp0`. -/
structure Core extends Cpu where
  esp0 : Nat
  cr3 : Nat

/-- `current`. -/
def current (c : Cpu) : Nat := c.regs .esp / pageSize * pageSize

/-! ### The compiler's part -/

/-- What C functions do that the source does not say: words pushed below a frame, words
left there by calls that have returned, the registers, and where a call returns to. -/
structure Scratch where
  words : List Nat
  litter : List Nat
  regs : Reg → Nat
  site : Nat

/-- Every C function keeps a frame pointer. -/
def frame : List Instr := [.pushl (.reg .ebp), .movl (.reg .esp) .ebp]

/-- The body of a function, so far. -/
def Scratch.body (scratch : Scratch) (c : Cpu) : Cpu :=
  let c := c.pushes scratch.words
  { c with
    memory := (c.pushes scratch.litter).memory
    regs := fun r => if r = .ebp ∨ r = .esp then c.regs r else scratch.regs r }

/-- A call that has returned. -/
def Scratch.called (scratch : Scratch) (c : Cpu) : Cpu :=
  { c with
    memory := (c.pushes scratch.litter).memory
    regs := fun r => if r = .eax ∨ r = .ecx ∨ r = .edx then scratch.regs r else c.regs r }

/-! ### `sched.S` -/

def taskSwitchText (link : Link) : List Instr :=
  [.pushl (.reg .ebp), .movl (.reg .esp) .ebp,
    .pushl (.reg .esi), .pushl (.reg .edi), .pushl (.reg .ebx),
    .pushl (.word 8 .ebp), .call link.innerTaskSwitch link.innerReturn]

/-- `task_switch` after its call. -/
def taskSwitchRest : List Instr :=
  [.addl 4 .esp, .popl .ebx, .popl .edi, .popl .esi, .popl .ebp, .ret]

def getEbpText : List Instr := [.movl (.reg .ebp) .eax, .ret]

def changeContextText : List Instr := [.movl (.word 4 .esp) .esp, .popl .ebp, .ret]

/-- `get_ebp()`, the result in `%eax`. -/
def getEbp (link : Link) (site : Nat) (c : Cpu) : Cpu :=
  (c.call link.getEbp site).run getEbpText

/-- `inner_task_switch`, up to its call of `change_context`. -/
def innerTaskSwitch (link : Link) (scratch : Scratch) (m : Core) : Core :=
  let c := scratch.body (m.toCpu.run frame)
  let t := c.memory (c.regs .ebp + 8)
  -- `current()->kernel_esp = get_ebp()`
  let c := getEbp link scratch.site c
  let c := c.store (current c + kernelEspField) (c.regs .eax)
  { toCpu := (c.push (c.memory (t + kernelEspField))).call link.changeContext scratch.site
    -- `update_TSS(task)`
    esp0 := t + pageSize
    cr3 := if c.memory (current c + dirPagesBaseAddrField) ≠ c.memory (t + dirPagesBaseAddrField)
      then c.memory (t + dirPagesBaseAddrField) else m.cr3 }

/-- `int ret_from_fork() { return 0; }`. -/
def retFromForkText : List Instr :=
  frame ++ [.movl (.const 0) .eax, .popl .ebp, .ret]

/-- What runs where `change_context` returns to. -/
def resume (link : Link) (c : Cpu) : Cpu :=
  if c.eip = link.innerReturn then c.run taskSwitchRest
  else if c.eip = link.retFromFork then c.run retFromForkText
  else c

/-- A call of `task_switch` that returns to `after`; its argument is on the stack. -/
def taskSwitch (link : Link) (scratch : Scratch) (after : Nat) (m : Core) : Core :=
  let m := innerTaskSwitch link scratch
    { m with toCpu := (m.toCpu.call link.taskSwitch after).run (taskSwitchText link) }
  { m with toCpu := resume link (m.toCpu.run changeContextText) }

/-! ### System calls -/

/-- What the processor and `SAVE_ALL` save of a task in user mode. -/
structure UserState where
  regs : Reg → Nat
  eip : Nat
  cs : Nat
  eflags : Nat
  ss : Nat

def saveAll : List Instr :=
  [.pushl (.reg .gs), .pushl (.reg .fs), .pushl (.reg .es), .pushl (.reg .ds),
    .pushl (.reg .eax), .pushl (.reg .ebp), .pushl (.reg .edi), .pushl (.reg .esi),
    .pushl (.reg .edx), .pushl (.reg .ecx), .pushl (.reg .ebx),
    .movl (.const kernelDS) .edx, .movl (.reg .edx) .ds, .movl (.reg .edx) .es]

/-- `int 0x80` in user mode, and `SAVE_ALL`. -/
def savedAll (user : UserState) (m : Core) : Cpu :=
  ((Cpu.set { m.toCpu with regs := user.regs } .esp m.esp0).pushes
    [user.ss, user.regs .esp, user.eflags, user.cs, user.eip]).run saveAll

/-- `system_call_handler` up to its call of the function, with that of
`update_entering_sys` before. -/
def systemCallHandler (user : UserState) (scratch : Scratch) (m : Core) : Core :=
  let c := (savedAll user m).run [.movl (.reg .eax) .ebx]
  { m with toCpu := (scratch.called c).run [.movl (.reg .ebx) .eax] }

/-- `copy_data` of whole words. -/
def copyWords : Nat → Nat → Nat → Cpu → Cpu
  | 0, _, _, c => c
  | count + 1, p, q, c => copyWords count (p + 4) (q + 4) (c.store q (c.memory p))

/-- `copy_process_stack`, inlined: the frame is that of its caller. -/
def copyProcessStack (link : Link) (site task : Nat) (c : Cpu) : Cpu × Nat :=
  let c := getEbp link site c
  let fatherEbp := c.regs .eax
  let stackPos := fatherEbp % pageSize / 4
  let start := current c + 4 * (stackPos + 1)
  let dest := task + 4 * (stackPos + 1)
  let size := current c + 4 * kernelStackSize - start
  (copyWords (size / 4) start dest c, stackPos)

/-- `sys_fork`, called by the handler. -/
def forkStack (link : Link) (scratch : Scratch) (child : TaskId) (m : Core) : Core :=
  let c := scratch.body ((m.toCpu.call link.sysFork link.handlerReturn).run frame)
  let task := link.task child
  let (c, stackPos) := copyProcessStack link scratch.site task c
  let c := c.store (task + 4 * stackPos) link.retFromFork
  let c := c.store (task + kernelEspField) (task + 4 * (stackPos - 1))
  { m with toCpu := c }

/-- `sys_clone`, called by the handler: its arguments are words that `SAVE_ALL` pushed. -/
def cloneStack (link : Link) (scratch : Scratch) (child : TaskId) (m : Core) : Core :=
  let c := scratch.body ((m.toCpu.call link.sysClone link.handlerReturn).run frame)
  let function := c.memory (c.regs .ebp + 8)
  let stack := c.memory (c.regs .ebp + 12)
  let exitFunc := c.memory (c.regs .ebp + 16)
  let task := link.task child
  let (c, stackPos) := copyProcessStack link scratch.site task c
  let c := c.store (task + kernelEspField) (task + 4 * stackPos)
  let c := c.store ((stack + 0xFFFFFFFC) % 0x100000000) exitFunc
  let c := c.store (task + 4 * (kernelStackSize - 2)) ((stack + 0xFFFFFFFC) % 0x100000000)
  let c := c.store (task + 4 * (kernelStackSize - 5)) function
  { m with toCpu := c }

/-! ### Runs -/

/-- How a task that does not run got its stack: it called `task_switch` on a processor
`caller`, which will return to `after`, or it was made by a system call of `parent`, where
`caller` is the processor when the handler calls the function, and the last two are
arguments of `sys_clone`. -/
inductive Context where
  | idle
  | switchedOut (caller : Cpu) (after : Nat)
  | forked (parent : TaskId) (caller : Cpu)
  | cloned (parent : TaskId) (caller : Cpu) (function stack : Nat)

/-- The machine; which task runs and how the others were left is history. -/
structure Contexts where
  core : Core
  running : TaskId
  pending : TaskId → Option Context

/-- After `init_idle` and `init_task1`, whatever was in memory. -/
def Contexts.boot (link : Link) (m : Core) : Contexts where
  core := { m with
    toCpu := (m.toCpu.store (link.stack 0 (kernelStackSize - 1)) link.cpuIdle).store
      (link.task 0 + kernelEspField) (link.stack 0 (kernelStackSize - 2))
    esp0 := link.task 1 + pageSize }
  running := 1
  pending := Function.update (fun _ => none) 0 (some .idle)

/-- What a task does between these calls, in user mode or the kernel: the stacks of the
others and every `kernel_esp` stay. -/
structure OwnWork (link : Link) (task : TaskId) (m m' : Core) : Prop where
  others : ∀ other, other ≠ task → ∀ addr, link.task other + taskStructSize ≤ addr →
    addr < link.task other + pageSize → m'.memory addr = m.memory addr
  saved : ∀ other, m'.memory (link.task other + kernelEspField) =
    m.memory (link.task other + kernelEspField)
  esp0 : m'.esp0 = m.esp0

namespace Contexts

/-- A call of `task_switch` for `next`. -/
def switch (link : Link) (scratch : Scratch) (after : Nat) (next : TaskId) (s : Contexts) :
    Contexts where
  core := taskSwitch link scratch after s.core
  running := next
  pending := Function.update (Function.update s.pending s.running
    (some (.switchedOut s.core.toCpu after))) next none

/-- A system call from user mode that makes a task. -/
def fork (link : Link) (user : UserState) (entry scratch : Scratch) (child : TaskId)
    (s : Contexts) : Contexts :=
  let called := systemCallHandler user entry s.core
  { s with
    core := forkStack link scratch child called
    pending := Function.update s.pending child (some (.forked s.running called.toCpu)) }

def clone (link : Link) (user : UserState) (entry scratch : Scratch) (child : TaskId)
    (s : Contexts) : Contexts :=
  let called := systemCallHandler user entry s.core
  { s with
    core := cloneStack link scratch child called
    pending := Function.update s.pending child
      (some (.cloned s.running called.toCpu (user.regs .ebx) (user.regs .ecx))) }

/-- The stack of the caller has its argument and room for what is pushed. -/
structure CanSwitch (link : Link) (scratch : Scratch) (next : TaskId) (s : Contexts) : Prop where
  argument : s.core.memory (s.core.regs .esp) = link.task next
  room : link.task s.running + taskStructSize +
    4 * (10 + scratch.words.length + scratch.litter.length) ≤ s.core.regs .esp
  inside : s.core.regs .esp + 4 ≤ link.task s.running + pageSize

/-- Both functions have room on the stack of the caller. -/
def FitsCall (entry scratch : Scratch) : Prop :=
  taskStructSize + 4 * (19 + entry.litter.length + scratch.words.length +
    scratch.litter.length) ≤ pageSize

/-- `task_switch` is called for a task that was left, or for the caller itself. The new
tasks come from the free queue, where the running task is not; `access_ok` has seen
the stack that `sys_clone` gets. -/
inductive Step (link : Link) : Contexts → Contexts → Prop
  | own {s : Contexts} {m : Core} (work : OwnWork link s.running s.core m) :
      Step link s { s with core := m }
  | switch {s : Contexts} {scratch : Scratch} {after : Nat} {next : TaskId}
      (ready : next = s.running ∨ s.pending next ≠ none)
      (can : s.CanSwitch link scratch next) :
      Step link s (s.switch link scratch after next)
  | fork {s : Contexts} {user : UserState} {entry scratch : Scratch} {child : TaskId}
      (free : child ≠ s.running) (fits : FitsCall entry scratch) :
      Step link s (s.fork link user entry scratch child)
  | clone {s : Contexts} {user : UserState} {entry scratch : Scratch} {child : TaskId}
      (free : child ≠ s.running) (fits : FitsCall entry scratch)
      (accepted : lUserStart ≤ user.regs .ecx ∧ user.regs .ecx < 0x100000000) :
      Step link s (s.clone link user entry scratch child)

/-- Every sequence of steps from any memory. -/
def Run (link : Link) (m : Core) : Contexts → Prop :=
  Relation.ReflTransGen (Step link) (boot link m)

end Contexts

end Zeos
