import Zeos.Contexts.Code
import Zeos.Machine

set_option autoImplicit false

/-! The wrappers of `libc.S`, and `system_call_handler` with its table. -/

namespace Zeos

open CallStack

/-! ### `sys_call_table.S` -/

inductive Service where
  | niSyscall | exit | fork | write | read | gettime | clone | getpid | semInit | semWait
  | semSignal | semDestroy | sbrk | getStats
  deriving DecidableEq, Repr

def sysCallTable : List Service :=
  [.niSyscall, .exit, .fork, .niSyscall, .write, .read, .niSyscall, .niSyscall, .niSyscall,
    .niSyscall, .gettime, .niSyscall, .niSyscall, .niSyscall, .niSyscall, .niSyscall, .niSyscall,
    .niSyscall, .niSyscall, .clone, .getpid, .semInit, .semWait, .semSignal, .semDestroy, .sbrk,
    .niSyscall, .niSyscall, .niSyscall, .niSyscall, .niSyscall, .niSyscall, .niSyscall,
    .niSyscall, .niSyscall, .getStats]

/-- `MAX_SYSCALL`. -/
def maxSyscall : Nat := sysCallTable.length

/-- The number of arguments of the function: words of the stack that it may write to. -/
def Service.arity : Service → Nat
  | .niSyscall | .exit | .fork | .gettime | .getpid => 0
  | .semWait | .semSignal | .semDestroy | .sbrk => 1
  | .semInit | .getStats => 2
  | .write | .read | .clone => 3

/-- The call of the function with the words that it finds as its arguments. -/
def Service.request (service : Service) (first second third : DWord) : Syscall :=
  match service with
  | .niSyscall => .niSyscall
  | .exit => .exit
  | .fork => .fork
  | .write => .write first second third
  | .read => .read first second third
  | .gettime => .gettime
  | .clone => .clone first second third
  | .getpid => .getpid
  | .semInit => .semInit first second
  | .semWait => .semWait first
  | .semSignal => .semSignal first
  | .semDestroy => .semDestroy first
  | .sbrk => .sbrk first
  | .getStats => .getStats first second

/-! ### `entry.S` -/

/-- A word as the `int` that it stores. -/
def signed (word : Nat) : Int := (BitVec.ofNat 32 word).toInt

def restoreAll : List Instr :=
  [.popl .ebx, .popl .ecx, .popl .edx, .popl .esi, .popl .edi, .popl .ebp, .popl .eax,
    .popl .ds, .popl .es, .popl .fs, .popl .gs]

/-- `iret` to user mode. -/
def iret (c : Cpu) : UserState where
  regs := Function.update c.regs .esp (c.memory (c.regs .esp + 12))
  eip := c.memory (c.regs .esp)
  cs := c.memory (c.regs .esp + 4)
  eflags := c.memory (c.regs .esp + 8)
  ss := c.memory (c.regs .esp + 16)

/-- The functions of the table as code, from the first instruction to the return: `none` when
one does not return. -/
abbrev Functions := Service → Cpu → Option Cpu

/-- `sys_ni_syscall`; `body` is what its code leaves in registers and below the stack. -/
def sysNiSyscall (body : Scratch) (c : Cpu) : Cpu :=
  (body.called c).set .eax (BitVec.ofInt 32 Kernel.sysNiSyscall).toNat

/-- The end of `system_call_handler`. -/
def handlerEnd (c : Cpu) : Cpu := (c.store (c.regs .esp + 0x18) (c.regs .eax)).run restoreAll

/-- `system_call_handler`, from `int $0x80` to `iret`. `entry` and `leave` are its calls of
`update_entering_sys` and `update_leaving_sys`. -/
def handleCall (functions : Functions) (user : UserState) (entry leave : Scratch) (m : Core) :
    Option Cpu :=
  let saved := savedAll user m
  let number := signed (saved.regs .eax)
  if number < 0 ∨ maxSyscall ≤ number then
    some (handlerEnd (saved.set .eax (BitVec.ofInt 32 (-ENOSYS)).toNat))
  else
    (functions (sysCallTable.getD number.toNat .niSyscall)
        (systemCallHandler user entry m).toCpu).map fun c =>
      let c := c.run [.movl (.reg .eax) .ebx]
      handlerEnd ((leave.called c).run [.movl (.reg .ebx) .eax])

/-- `EOI`, which goes through `%al`. -/
def eoi (c : Cpu) : Cpu := c.set .eax (c.regs .eax / 0x100 * 0x100 + 0x20)

/-- The handler of an interrupt that finds a task in user mode, up to the call of its function,
with that of `update_entering_sys` before. -/
def interruptEntered (user : UserState) (entry : Scratch) (m : Core) : Cpu :=
  entry.called (eoi (savedAll user m))

/-- The handler; `routine` is the function it calls between `update_entering_sys` and
`update_leaving_sys`. -/
def interruptHandler (routine : Cpu → Cpu) (user : UserState) (entry leave : Scratch) (m : Core) :
    Cpu :=
  (leave.called (routine (interruptEntered user entry m))).run restoreAll

def clockHandler (clockRoutine : Cpu → Cpu) (user : UserState) (entry leave : Scratch) (m : Core) :
    Cpu :=
  interruptHandler clockRoutine user entry leave m

def keyboardHandler (keyboardRoutine : Cpu → Cpu) (user : UserState) (entry leave : Scratch)
    (m : Core) : Cpu :=
  interruptHandler keyboardRoutine user entry leave m

/-- A page fault in user mode: the processor pushes an error code above what the others find. -/
def faultSaved (user : UserState) (errorCode : Nat) (m : Core) : Cpu :=
  ((Cpu.set { m.toCpu with regs := user.regs } .esp m.esp0).pushes
    [user.ss, user.regs .esp, user.eflags, user.cs, user.eip, errorCode]).run saveAll

/-- `pf_handler`, up to its call of `pf_rsi`. -/
def pfEntered (user : UserState) (errorCode cr2 : Nat) (m : Core) : Cpu :=
  (eoi (faultSaved user errorCode m)).run [.movl (.const cr2) .ebx, .pushl (.reg .ebx)]

/-- `pf_handler`, up to `iret`. -/
def pfHandler (pfRsi : Cpu → Cpu) (user : UserState) (errorCode cr2 : Nat) (m : Core) : Cpu :=
  let c := pfRsi (pfEntered user errorCode cr2 m)
  let c := c.run (.popl .ebx :: restoreAll)
  -- the error code makes room for `%ebx`, which takes it off the stack
  (c.store (c.regs .esp) (c.regs .ebx)).run [.popl .ebx]

/-! ### `libc.S` -/

/-- A wrapper: what is before `int $0x80`, and what is after `UPDATE_ERRNO`. -/
structure Stub where
  before : List Instr
  after : List Instr

/-- The variable `errno` of the program, and its function `exit`. -/
structure Lib where
  errno : Nat
  exit : Nat

namespace Stub

/-- A wrapper with a frame, which saves `%ebx` and loads the arguments. -/
def framed (loads : List Instr) (number : Nat) : Stub where
  before := frame ++ .pushl (.reg .ebx) :: loads ++ [.movl (.const number) .eax]
  after := [.popl .ebx, .popl .ebp, .ret]

def bare (number : Nat) : Stub where
  before := [.movl (.const number) .eax]
  after := [.ret]

def loadFirst : Instr := .movl (.word 8 .ebp) .ebx
def loadSecond : Instr := .movl (.word 12 .ebp) .ecx
def loadThird : Instr := .movl (.word 16 .ebp) .edx

def write : Stub := framed [loadFirst, loadSecond, loadThird] 4
def read : Stub := framed [loadFirst, loadSecond, loadThird] 5
def gettime : Stub := bare 10
def fork : Stub := bare 2
def getpid : Stub := bare 20
def exit : Stub := bare 1
def getStats : Stub := framed [loadFirst, loadSecond] 35
def clone (lib : Lib) : Stub := framed [loadFirst, loadSecond, .movl (.const lib.exit) .edx] 19
def semInit : Stub := framed [loadFirst, loadSecond] 21
def semWait : Stub := framed [loadFirst] 22
def semSignal : Stub := framed [loadFirst] 23
def semDestroy : Stub := framed [loadFirst] 24
def sbrk : Stub := framed [loadFirst] 25

end Stub

/-- `UPDATE_ERRNO`. -/
def updateErrno (lib : Lib) (c : Cpu) : Cpu :=
  if 0 ≤ signed (c.regs .eax) then c
  else
    -- `imul $-1, %eax`
    let c := c.set .eax (BitVec.ofInt 32 (-1) * BitVec.ofNat 32 (c.regs .eax)).toNat
    let c := c.store lib.errno (c.regs .eax)
    c.set .eax (BitVec.ofInt 32 (-1)).toNat

/-- A wrapper called in user mode, up to the call of the function in the kernel. -/
def Stub.entered (user : UserState) (entry : Scratch) (stub : Stub) (m : Core) : Cpu :=
  let c := m.toCpu.run stub.before
  (systemCallHandler { user with regs := c.regs } entry { m with toCpu := c }).toCpu

/-- A wrapper called in user mode: `site` is the place after its `int $0x80`, and `cs`, `eflags`
and `ss` are those of the program. -/
def Stub.run (functions : Functions) (lib : Lib) (user : UserState) (entry leave : Scratch)
    (stub : Stub) (m : Core) : Option Cpu :=
  let c := m.toCpu.run stub.before
  let caller := { user with regs := c.regs }
  (handleCall functions caller entry leave { m with toCpu := c }).map fun c =>
    let back := iret c
    (updateErrno lib { c with eip := back.eip, regs := back.regs }).run stub.after

/-! ### The saved registers -/

/-- The task with another value in a register. -/
def UserState.set (user : UserState) (r : Reg) (value : Nat) : UserState :=
  { user with regs := Function.update user.regs r value }

@[simp] theorem UserState.set_regs (user : UserState) (r : Reg) (value : Nat) :
    (user.set r value).regs = Function.update user.regs r value := rfl

/-- The place of a register in what `SAVE_ALL` pushes. -/
def slot : Reg → Nat
  | .ebx => 0x0
  | .ecx => 0x4
  | .edx => 0x8
  | .esi => 0xC
  | .edi => 0x10
  | .ebp => 0x14
  | .eax => 0x18
  | .ds => 0x1C
  | .es => 0x20
  | .fs => 0x24
  | .gs => 0x28
  | .esp => 0x38

/-- What is saved of a task in user mode lies from `place` up. -/
structure Saves (memory : Nat → Nat) (place : Nat) (user : UserState) : Prop where
  regs : ∀ r, memory (place + slot r) = user.regs r
  eip : memory (place + 0x2C) = user.eip
  cs : memory (place + 0x30) = user.cs
  eflags : memory (place + 0x34) = user.eflags
  ss : memory (place + 0x3C) = user.ss

variable {c : Cpu} {user : UserState} {m : Core} {memory memory' : Nat → Nat} {place size : Nat}

theorem Saves.of_words (words : Holds memory place user.words) : Saves memory place user := by
  obtain ⟨ebx, ecx, edx, esi, edi, ebp, eax, ds, es, fs, gs, eip, cs, eflags, esp, ss, -⟩ := words
  refine ⟨fun r => ?_, eip, cs, eflags, ss⟩
  cases r with
  | ebx => exact ebx
  | ecx => exact ecx
  | edx => exact edx
  | esi => exact esi
  | edi => exact edi
  | ebp => exact ebp
  | eax => exact eax
  | ds => exact ds
  | es => exact es
  | fs => exact fs
  | gs => exact gs
  | esp => exact esp

theorem run_restoreAll (c : Cpu) :
    (∀ r, r ≠ .esp → (c.run restoreAll).regs r = c.memory (c.regs .esp + slot r)) ∧
      (c.run restoreAll).regs .esp = c.regs .esp + 0x2C ∧
      (c.run restoreAll).memory = c.memory := by
  refine ⟨fun r general => ?_, ?_, ?_⟩
  · cases r with
    | esp => exact absurd rfl general
    | _ => simp [restoreAll, slot, pop_esp, pop_other]
  · simp [restoreAll, pop_esp]
  · simp [restoreAll]

/-- `RESTORE_ALL` and `iret` give the task what was saved. -/
theorem Saves.restored (saves : Saves c.memory (c.regs .esp) user) :
    iret (c.run restoreAll) = user ∧ (c.run restoreAll).memory = c.memory := by
  obtain ⟨regs, esp, kept⟩ := run_restoreAll c
  refine ⟨?_, kept⟩
  unfold iret
  rw [esp, kept]
  obtain ⟨registers, eip, cs, eflags, ss⟩ := user
  congr
  · funext r
    by_cases stack : r = .esp
    · subst stack
      rw [Function.update_self]
      exact saves.regs .esp
    · rw [Function.update_of_ne stack, regs r stack]
      exact saves.regs r
  · exact saves.eip
  · exact saves.cs
  · exact saves.eflags
  · exact saves.ss

/-- The arguments of a system call. -/
theorem Saves.arguments (saves : Saves memory place user) : memory place = user.regs .ebx ∧
    memory (place + 4) = user.regs .ecx ∧ memory (place + 8) = user.regs .edx :=
  ⟨saves.regs .ebx, saves.regs .ecx, saves.regs .edx⟩

/-- What is saved stays when memory changes elsewhere. -/
theorem Saves.kept (saves : Saves memory place user)
    (same : ∀ addr, place ≤ addr → addr < place + 0x40 → memory' addr = memory addr) :
    Saves memory' place user where
  regs r := by
    have inside : slot r < 0x40 := by
      cases r with
      | _ => decide
    rw [same _ (by omega) (by omega)]
    exact saves.regs r
  eip := (same _ (by omega) (by omega)).trans saves.eip
  cs := (same _ (by omega) (by omega)).trans saves.cs
  eflags := (same _ (by omega) (by omega)).trans saves.eflags
  ss := (same _ (by omega) (by omega)).trans saves.ss

theorem slot_inj {r r' : Reg} (same : slot r = slot r') : r = r' := by
  revert same
  cases r with
  | _ =>
      cases r' with
      | _ => decide

/-- The other words are in no register's place. -/
theorem slot_ne (r : Reg) : 0x2C ≠ slot r ∧ 0x30 ≠ slot r ∧ 0x34 ≠ slot r ∧ 0x3C ≠ slot r := by
  cases r with
  | _ => decide

/-- A word stored in the place of a register. -/
theorem Saves.store (saves : Saves memory place user) (r : Reg) (value : Nat) :
    Saves (Function.update memory (place + slot r) value) place (user.set r value) := by
  have other : ∀ offset, offset ≠ slot r →
      Function.update memory (place + slot r) value (place + offset) = memory (place + offset) :=
    fun offset apart => Function.update_of_ne (fun equal => apart (Nat.add_left_cancel equal)) ..
  obtain ⟨eip, cs, eflags, ss⟩ := slot_ne r
  refine ⟨fun r' => ?_, ?_, ?_, ?_, ?_⟩
  · by_cases same : r' = r
    · subst same
      rw [UserState.set_regs, Function.update_self, Function.update_self]
    · rw [UserState.set_regs, Function.update_of_ne same, other _ fun equal => same (slot_inj equal)]
      exact saves.regs r'
  · exact (other _ eip).trans saves.eip
  · exact (other _ cs).trans saves.cs
  · exact (other _ eflags).trans saves.eflags
  · exact (other _ ss).trans saves.ss

/-! ### The handler -/

/-- What a function finds on the stack when it is called. -/
def Service.asked (service : Service) (c : Cpu) : Syscall :=
  service.request (BitVec.ofNat 32 (c.memory (c.regs .esp)))
    (BitVec.ofNat 32 (c.memory (c.regs .esp + 4))) (BitVec.ofNat 32 (c.memory (c.regs .esp + 8)))

/-- How a function that was called in `c` returns to a handler whose stack ends at `top`: with an
answer, and with some words left alone; it may write to its arguments. -/
structure Returned (service : Service) (top : Nat) (spared : Nat → Prop) (answer : DWord)
    (c c' : Cpu) : Prop where
  esp : c'.regs .esp = c.regs .esp
  eax : c'.regs .eax = answer.toNat
  kept : ∀ addr, (c.regs .esp + 4 * service.arity ≤ addr ∧ addr < top) ∨ spared addr →
    c'.memory addr = c.memory addr

theorem sysNiSyscall_returned {body : Scratch} {c : Cpu} {top : Nat}
    (room : 4 * body.litter.length ≤ c.regs .esp) :
    Returned .niSyscall top (fun _ => False) (BitVec.ofInt 32 Kernel.sysNiSyscall) c
      (sysNiSyscall body c) where
  esp := (set_other _ _ (by decide)).trans (called_other (by decide))
  eax := set_same ..
  kept addr outside := by
    rcases outside with ⟨above, _⟩ | never
    · exact (within_called room (Nat.le_refl _)) addr (.inr (by simpa [Service.arity] using above))
    · exact never.elim

/-- The registers that a call may change: the result, and its arguments. -/
def Service.changes (service : Service) (r : Reg) : Prop :=
  r = .eax ∨ slot r < 4 * service.arity

variable {functions : Functions} {spared : Nat → Prop} {answer : DWord} {service : Service}
  {entry leave : Scratch}

/-- The end of the handler, after a function that has returned. -/
theorem handlerEnd_restores (saves : Saves c.memory (c.regs .esp) user) :
    iret (handlerEnd c) = user.set .eax (c.regs .eax) ∧
      (handlerEnd c).memory =
        Function.update c.memory (c.regs .esp + 0x18) (c.regs .eax) :=
  Saves.restored (c := c.store (c.regs .esp + 0x18) (c.regs .eax)) (saves.store .eax (c.regs .eax))

/-- The arguments that a function may have written to. -/
theorem Saves.overwritten (saves : Saves memory place user)
    (same : ∀ addr, place + 4 * service.arity ≤ addr → addr < place + 0x40 →
      memory' addr = memory addr) :
    ∃ user', Saves memory' place user' ∧ (∀ r, ¬ service.changes r → user'.regs r = user.regs r) ∧
      user'.eip = user.eip ∧ user'.cs = user.cs ∧ user'.eflags = user.eflags ∧
      user'.ss = user.ss := by
  have few : 4 * service.arity ≤ 0xC := by
    cases service with
    | _ => decide
  refine ⟨{ user with regs := fun r => memory' (place + slot r) }, ⟨fun _ => rfl, ?_, ?_, ?_, ?_⟩,
    ?_, rfl, rfl, rfl, rfl⟩
  · exact (same _ (by omega) (by omega)).trans saves.eip
  · exact (same _ (by omega) (by omega)).trans saves.cs
  · exact (same _ (by omega) (by omega)).trans saves.eflags
  · exact (same _ (by omega) (by omega)).trans saves.ss
  · intro r stays
    rw [Service.changes, not_or] at stays
    have inside : slot r < 0x40 := by
      cases r with
      | _ => decide
    exact (same _ (by omega) (by omega)).trans (saves.regs r)

theorem savedAll_eax (user : UserState) (m : Core) :
    (savedAll user m).regs .eax = user.regs .eax := by
  simp [savedAll, saveAll, Cpu.pushes, push_other, set_other]

/-- The result waits in `%ebx` while `update_leaving_sys` runs. -/
theorem leave_keeps (leave : Scratch) (c : Cpu) (room : size ≤ c.regs .esp)
    (used : 4 * leave.litter.length ≤ size) :
    let c' := (leave.called (c.run [.movl (.reg .eax) .ebx])).run [.movl (.reg .ebx) .eax]
    c'.regs .eax = c.regs .eax ∧ c'.regs .esp = c.regs .esp ∧
      Within (c.regs .esp - size) (c.regs .esp) c.memory c'.memory := by
  have left := @within_called leave (c.set .ebx (c.regs .eax)) size
    (by rw [set_other _ _ (by decide)]; exact room) used
  rw [set_other _ _ (by decide)] at left
  refine ⟨?_, ?_, left⟩
  · simp [called_other]
  · simp [called_other, set_other]

/-- What a system call leaves: the result in `%eax`, and the rest of the task as it was, but for
the registers that passed the arguments. -/
structure Answered (user : UserState) (service : Service) (answer : DWord) (back : UserState) :
    Prop where
  eax : back.regs .eax = answer.toNat
  regs : ∀ r, ¬ service.changes r → back.regs r = user.regs r
  eip : back.eip = user.eip
  cs : back.cs = user.cs
  eflags : back.eflags = user.eflags
  ss : back.ss = user.ss

/-- The arguments are those in the registers. -/
theorem asked_systemCallHandler (service : Service) (room : size ≤ m.esp0)
    (entered : 64 + 4 * entry.litter.length ≤ size) :
    service.asked (systemCallHandler user entry m).toCpu =
      service.request (BitVec.ofNat 32 (user.regs .ebx)) (BitVec.ofNat 32 (user.regs .ecx))
        (BitVec.ofNat 32 (user.regs .edx)) := by
  obtain ⟨⟨esp, words⟩, _⟩ := @savedUser entry user m size room entered
  obtain ⟨first, second, third⟩ := (Saves.of_words words).arguments
  rw [Service.asked, esp, first, second, third]

/-- The handler calls the function of the number. -/
theorem handleCall_answers {number : Nat} {c₁ : Cpu}
    (numbered : signed (user.regs .eax) = number)
    (listed : sysCallTable[number]? = some service)
    (called : functions service (systemCallHandler user entry m).toCpu = some c₁)
    (returned : Returned service m.esp0 spared answer (systemCallHandler user entry m).toCpu c₁)
    (room : size ≤ m.esp0) (entered : 64 + 4 * entry.litter.length ≤ size)
    (left : 64 + 4 * leave.litter.length ≤ size)
    (apart : ∀ addr, spared addr → addr < m.esp0 - size ∨ m.esp0 ≤ addr) :
    ∃ c, handleCall functions user entry leave m = some c ∧
      Answered user service answer (iret c) ∧
      ∀ addr, spared addr → c.memory addr = m.memory addr := by
  obtain ⟨inTable, found⟩ := List.getElem?_eq_some_iff.mp listed
  obtain ⟨⟨esp, words⟩, within⟩ := @savedUser entry user m size room entered
  have saves := Saves.of_words words
  unfold handleCall
  dsimp only
  rw [savedAll_eax, numbered, if_neg (by simp only [maxSyscall]; omega)]
  have chosen : sysCallTable.getD (number : Int).toNat .niSyscall = service := by
    rw [Int.toNat_natCast, List.getD_eq_getElem?_getD, listed]
    rfl
  rw [chosen]
  rw [called, Option.map_some]
  obtain ⟨esp₁, eax₁, kept₁⟩ := returned
  generalize (systemCallHandler user entry m).toCpu = c₀ at esp words within saves esp₁ kept₁
  refine ⟨_, rfl, ?_⟩
  obtain ⟨eax₂, esp₂, within₂⟩ := @leave_keeps (size - 64) leave c₁ (by omega) (by omega)
  generalize (leave.called (c₁.run [.movl (.reg .eax) .ebx])).run [.movl (.reg .ebx) .eax] = c₂
    at eax₂ esp₂ within₂
  obtain ⟨user', saves', regs', eip', cs', eflags', ss'⟩ := @Saves.overwritten user c₀.memory
    c₁.memory (m.esp0 - 64) service saves (fun addr low high => kept₁ addr (.inl (by omega)))
  have saves₂ : Saves c₂.memory (c₂.regs .esp) user' := by
    rw [esp₂, esp₁, esp]
    apply saves'.kept
    intro addr low high
    exact within₂ addr (.inr (by omega))
  obtain ⟨restored, memory⟩ := handlerEnd_restores saves₂
  refine ⟨?_, ?_⟩
  · rw [restored]
    refine ⟨?_, ?_, eip', cs', eflags', ss'⟩
    · rw [UserState.set_regs, Function.update_self, eax₂, eax₁]
    · intro r stays
      rw [UserState.set_regs, Function.update_of_ne fun same => stays (.inl same)]
      exact regs' r stays
  · intro addr outside
    have away := apart addr outside
    rw [memory, Function.update_of_ne (by omega), within₂ addr (by omega),
      kept₁ addr (.inr outside), within addr (by omega)]

theorem savedAll_saves (user : UserState) (room : 64 ≤ m.esp0) :
    Saves (savedAll user m).memory (m.esp0 - 64) user ∧
      Within (m.esp0 - 64) m.esp0 m.memory (savedAll user m).memory := by
  have top : (Cpu.set { m.toCpu with regs := user.regs } .esp m.esp0).regs .esp = m.esp0 :=
    set_same ..
  have count : user.words.reverse.length = 16 := rfl
  have words := @Holds.pushes user.words.reverse
    (Cpu.set { m.toCpu with regs := user.regs } .esp m.esp0) [] (by rw [top, count]; omega) trivial
  have kept := @within_pushes user.words.reverse
    (Cpu.set { m.toCpu with regs := user.regs } .esp m.esp0) (by rw [top, count]; omega)
  rw [← savedAll_memory, top, count] at words kept
  rw [List.reverse_reverse, List.append_nil] at words
  exact ⟨Saves.of_words words, kept⟩

/-- A number that is not in the table: no function runs. -/
theorem handleCall_unlisted (out : signed (user.regs .eax) < 0 ∨
      maxSyscall ≤ signed (user.regs .eax)) (room : 64 ≤ m.esp0) :
    ∃ c, handleCall functions user entry leave m = some c ∧
      iret c = user.set .eax (BitVec.ofInt 32 (-ENOSYS)).toNat ∧
      Within (m.esp0 - 64) m.esp0 m.memory c.memory := by
  obtain ⟨saves, kept⟩ := savedAll_saves user room
  have esp := savedAll_esp user m
  have eax := savedAll_eax user m
  unfold handleCall
  dsimp only
  rw [eax, if_pos out]
  refine ⟨_, rfl, ?_⟩
  generalize savedAll user m = saved at saves kept esp
  have place : (saved.set .eax (BitVec.ofInt 32 (-ENOSYS)).toNat).regs .esp = m.esp0 - 64 := by
    rw [set_other _ _ (by decide), esp]
  rw [← place] at saves
  obtain ⟨restored, memory⟩ := @handlerEnd_restores
    (saved.set .eax (BitVec.ofInt 32 (-ENOSYS)).toNat) user saves
  rw [set_same] at restored
  refine ⟨restored, ?_⟩
  rw [memory, place]
  exact kept.trans ((within_store saved _ _).mono (by omega) (by omega))

/-! ### The other handlers -/

/-- A function of the kernel called in `c` by a handler whose stack ends at `top`: it may write to
its arguments. -/
def Keeps (routine : Cpu → Cpu) (arity top : Nat) (c : Cpu) : Prop :=
  (routine c).regs .esp = c.regs .esp ∧
    ∀ addr, c.regs .esp + 4 * arity ≤ addr → addr < top → (routine c).memory addr = c.memory addr

variable {routine : Cpu → Cpu}

@[simp] theorem eoi_memory (c : Cpu) : (eoi c).memory = c.memory := rfl

theorem eoi_esp (c : Cpu) : (eoi c).regs .esp = c.regs .esp := set_other _ _ (by decide)

theorem called_saves {scratch : Scratch} (saves : Saves c.memory (c.regs .esp) user)
    (room : 4 * scratch.litter.length ≤ c.regs .esp) :
    Saves (scratch.called c).memory ((scratch.called c).regs .esp) user := by
  have within := @within_called scratch c (4 * scratch.litter.length) room (Nat.le_refl _)
  rw [called_other (by decide)]
  exact saves.kept fun addr low _ => within addr (.inr low)

/-- An interrupt leaves the task as it was. -/
theorem interruptHandler_restores
    (keeps : Keeps routine 0 m.esp0 (interruptEntered user entry m))
    (entered : 64 + 4 * entry.litter.length ≤ m.esp0)
    (left : 64 + 4 * leave.litter.length ≤ m.esp0) :
    iret (interruptHandler routine user entry leave m) = user := by
  have saves := (savedAll_saves user (m := m) (by omega)).1
  have esp : (eoi (savedAll user m)).regs .esp = m.esp0 - 64 := by rw [eoi_esp, savedAll_esp]
  have saves₁ : Saves (eoi (savedAll user m)).memory ((eoi (savedAll user m)).regs .esp) user := by
    rw [esp, eoi_memory]
    exact saves
  unfold interruptHandler
  unfold interruptEntered at keeps ⊢
  generalize eoi (savedAll user m) = c₁ at esp saves₁ keeps
  have saves₂ := @called_saves c₁ user entry saves₁ (by omega)
  have esp₂ : (entry.called c₁).regs .esp = m.esp0 - 64 := (called_other (by decide)).trans esp
  generalize entry.called c₁ = c₂ at saves₂ esp₂ keeps
  obtain ⟨esp₃, kept⟩ := keeps
  have saves₃ : Saves (routine c₂).memory ((routine c₂).regs .esp) user := by
    rw [esp₃]
    exact saves₂.kept fun addr low high => kept addr (by omega) (by omega)
  exact (@called_saves _ user leave saves₃ (by omega)).restored.1

/-- What is on the stack after a page fault: what the others find, with the error code between
the registers and what the processor saves. -/
def UserState.faultWords (user : UserState) (errorCode : Nat) : List Nat :=
  [user.regs .ebx, user.regs .ecx, user.regs .edx, user.regs .esi, user.regs .edi,
    user.regs .ebp, user.regs .eax, user.regs .ds, user.regs .es, user.regs .fs, user.regs .gs,
    errorCode, user.eip, user.cs, user.eflags, user.regs .esp, user.ss]

theorem faultSaved_memory (user : UserState) (errorCode : Nat) (m : Core) :
    (faultSaved user errorCode m).memory =
      ((Cpu.set { m.toCpu with regs := user.regs } .esp m.esp0).pushes
        (user.faultWords errorCode).reverse).memory := by
  simp [faultSaved, UserState.faultWords, saveAll, Cpu.pushes, push_other, set_other]

theorem faultSaved_words (errorCode : Nat) (user : UserState) (room : 68 ≤ m.esp0) :
    (faultSaved user errorCode m).regs .esp = m.esp0 - 68 ∧
      Holds (faultSaved user errorCode m).memory (m.esp0 - 68) (user.faultWords errorCode) := by
  have top : (Cpu.set { m.toCpu with regs := user.regs } .esp m.esp0).regs .esp = m.esp0 :=
    set_same ..
  have count : (user.faultWords errorCode).reverse.length = 17 := rfl
  have words := @Holds.pushes (user.faultWords errorCode).reverse
    (Cpu.set { m.toCpu with regs := user.regs } .esp m.esp0) [] (by rw [top, count]; omega) trivial
  rw [← faultSaved_memory, top, count, List.reverse_reverse, List.append_nil] at words
  refine ⟨?_, words⟩
  simp [faultSaved, saveAll, Cpu.pushes, set_other, Nat.sub_sub]

/-- The registers after a page fault, and the words that the processor saved, one place higher. -/
theorem faultWords_slots {errorCode : Nat}
    (words : Holds memory place (user.faultWords errorCode)) :
    (∀ r, r ≠ .esp → memory (place + slot r) = user.regs r) ∧
      memory (place + 0x30) = user.eip ∧ memory (place + 0x34) = user.cs ∧
      memory (place + 0x38) = user.eflags ∧ memory (place + 0x3C) = user.regs .esp ∧
      memory (place + 0x40) = user.ss := by
  obtain ⟨ebx, ecx, edx, esi, edi, ebp, eax, ds, es, fs, gs, _, eip, cs, eflags, esp, ss, -⟩ := words
  refine ⟨fun r general => ?_, eip, cs, eflags, esp, ss⟩
  cases r with
  | esp => exact absurd rfl general
  | ebx => exact ebx
  | ecx => exact ecx
  | edx => exact edx
  | esi => exact esi
  | edi => exact edi
  | ebp => exact ebp
  | eax => exact eax
  | ds => exact ds
  | es => exact es
  | fs => exact fs
  | gs => exact gs

/-- The way out of `pf_handler`, over the argument of `pf_rsi`. -/
theorem faultEnd_restores {errorCode : Nat} (room : 4 ≤ place) (esp : c.regs .esp = place - 4)
    (words : Holds c.memory place (user.faultWords errorCode)) :
    let c' := c.run (.popl .ebx :: restoreAll)
    iret ((c'.store (c'.regs .esp) (c'.regs .ebx)).run [.popl .ebx]) = user := by
  obtain ⟨registers, eip, cs, eflags, stack, ss⟩ := faultWords_slots words
  obtain ⟨regs, esp₁, kept⟩ := run_restoreAll (c.pop .ebx)
  have esp₀ : (c.pop .ebx).regs .esp = place := by
    rw [pop_esp _ (by decide), esp]
    omega
  rw [esp₀, pop_memory] at regs
  rw [esp₀] at esp₁
  rw [pop_memory] at kept
  dsimp only
  have first : c.run (.popl .ebx :: restoreAll) = (c.pop .ebx).run restoreAll := by
    rw [run_cons, exec_popl]
  rw [first]
  generalize (c.pop .ebx).run restoreAll = c₁ at regs esp₁ kept
  have popped : (c₁.store (c₁.regs .esp) (c₁.regs .ebx)).run [.popl .ebx] =
      (c₁.store (c₁.regs .esp) (c₁.regs .ebx)).pop .ebx := by
    rw [run_cons, run_nil, exec_popl]
  have esp₂ : ((c₁.store (c₁.regs .esp) (c₁.regs .ebx)).pop .ebx).regs .esp = place + 0x30 := by
    rw [pop_esp _ (by decide), store_regs, esp₁]
  have above : ∀ offset, 0x30 ≤ offset →
      ((c₁.store (c₁.regs .esp) (c₁.regs .ebx)).pop .ebx).memory (place + offset) =
        c.memory (place + offset) := by
    intro offset high
    rw [pop_memory, store_other _ _ (by omega), kept]
  have general : ∀ r, r ≠ .esp →
      ((c₁.store (c₁.regs .esp) (c₁.regs .ebx)).pop .ebx).regs r = user.regs r := by
    intro r other
    by_cases ebx : r = .ebx
    · subst ebx
      rw [pop_same, store_regs, store_same, regs .ebx (by decide), registers .ebx (by decide)]
    · rw [pop_other _ ebx other, store_regs, regs r other, registers r other]
  rw [popped]
  generalize (c₁.store (c₁.regs .esp) (c₁.regs .ebx)).pop .ebx = c₂ at esp₂ above general
  unfold iret
  rw [esp₂]
  simp only [Nat.add_assoc]
  rw [above _ (by omega), above _ (by omega), above _ (by omega), above _ (by omega),
    above _ (by omega), eip, cs, eflags, stack, ss]
  obtain ⟨userRegs, _, _, _, _⟩ := user
  congr
  funext r
  by_cases own : r = .esp
  · subst own
    exact Function.update_self ..
  · rw [Function.update_of_ne own]
    exact general r own

/-- The words above the registers move up by one once the error code is gone. -/
theorem pfHandler_restores {errorCode cr2 : Nat}
    (keeps : Keeps routine 1 m.esp0 (pfEntered user errorCode cr2 m)) (room : 72 ≤ m.esp0) :
    iret (pfHandler routine user errorCode cr2 m) = user := by
  obtain ⟨esp, words⟩ := faultSaved_words errorCode user (m := m) (by omega)
  unfold pfHandler
  unfold pfEntered at keeps ⊢
  dsimp only
  generalize faultSaved user errorCode m = saved at esp words keeps
  have esp₁ : ((eoi saved).set .ebx cr2).regs .esp = m.esp0 - 68 := by
    rw [set_other _ _ (by decide), eoi_esp, esp]
  have words₁ : Holds ((eoi saved).set .ebx cr2).memory (m.esp0 - 68)
      (user.faultWords errorCode) := by
    rw [set_memory, eoi_memory]
    exact words
  have called : (eoi saved).run [.movl (.const cr2) .ebx, .pushl (.reg .ebx)] =
      ((eoi saved).set .ebx cr2).push cr2 := by
    simp
  rw [called] at keeps ⊢
  generalize (eoi saved).set .ebx cr2 = c₁ at esp₁ words₁ keeps
  have within := @within_push c₁ (by omega) cr2
  have words₂ := words₁.apart within (.inr (by omega))
  have esp₂ : (c₁.push cr2).regs .esp = m.esp0 - 72 := by
    rw [push_esp, esp₁]
    omega
  generalize c₁.push cr2 = c₂ at words₂ esp₂ keeps
  obtain ⟨esp₃, kept⟩ := keeps
  have words₃ : Holds (routine c₂).memory (m.esp0 - 68) (user.faultWords errorCode) :=
    words₂.frame fun addr low high => kept addr (by omega)
      (by rw [show (user.faultWords errorCode).length = 17 from rfl] at high; omega)
  rw [esp₂] at esp₃
  exact faultEnd_restores (by omega) (by omega) words₃

end Zeos
