import Zeos.Wrappers

set_option autoImplicit false

/-! The path of a system call: a wrapper of the library gets the answer of the function that its
name promises, and its caller finds the registers again. -/

namespace Zeos

open CallStack

/-- The wrappers of `libc.S`. -/
inductive Wrapper where
  | write | read | gettime | fork | getpid | exit | getStats | clone | semInit | semWait
  | semSignal | semDestroy | sbrk
  deriving DecidableEq, Repr

namespace Wrapper

def stub (lib : Lib) : Wrapper → Stub
  | .write => .write
  | .read => .read
  | .gettime => .gettime
  | .fork => .fork
  | .getpid => .getpid
  | .exit => .exit
  | .getStats => .getStats
  | .clone => .clone lib
  | .semInit => .semInit
  | .semWait => .semWait
  | .semSignal => .semSignal
  | .semDestroy => .semDestroy
  | .sbrk => .sbrk

/-- The service of the wrapper's name, as `sys_call_table` calls it. -/
def service : Wrapper → Service
  | .write => .write
  | .read => .read
  | .gettime => .gettime
  | .fork => .fork
  | .getpid => .getpid
  | .exit => .exit
  | .getStats => .getStats
  | .clone => .clone
  | .semInit => .semInit
  | .semWait => .semWait
  | .semSignal => .semSignal
  | .semDestroy => .semDestroy
  | .sbrk => .sbrk

/-- What a program asks for when it calls the wrapper with these arguments: a new thread is to
return into `exit`. -/
def request (lib : Lib) (w : Wrapper) (first second third : DWord) : Syscall :=
  match w with
  | .clone => .clone first second (BitVec.ofNat 32 lib.exit)
  | w => w.service.request first second third

end Wrapper

/-- The words of memory that a wrapper counts on: what it pushes, its return address, and
`errno`. -/
def Spared (lib : Lib) (esp addr : Nat) : Prop :=
  addr = esp - 8 ∨ addr = esp - 4 ∨ addr = esp ∨ addr = lib.errno

variable {lib : Lib} {c : Cpu} {user : UserState} {m : Core} {w : Wrapper} {loads : List Instr}
  {number size : Nat} {functions : Functions} {answer : DWord} {entry leave : Scratch}

/-! ### The wrappers -/

/-- The frame of a wrapper that loads arguments. -/
def Stub.pushed (c : Cpu) : Cpu :=
  (c.run frame).run [.pushl (.reg .ebx)]

theorem framed_before (loads : List Instr) (number : Nat) (c : Cpu) :
    c.run (Stub.framed loads number).before =
      ((Stub.pushed c).run loads).set .eax number := by
  simp [Stub.framed, Stub.pushed, Cpu.run, List.foldl_append, Cpu.exec, Cpu.value]

/-- What the loads of a wrapper find. -/
structure Stub.Framed (c c' : Cpu) : Prop where
  esp : c'.regs .esp = c.regs .esp - 8
  ebp : c'.regs .ebp = c.regs .esp - 4
  regs : ∀ r, r ≠ .esp → r ≠ .ebp → c'.regs r = c.regs r
  ebx : c'.memory (c.regs .esp - 8) = c.regs .ebx
  link : c'.memory (c.regs .esp - 4) = c.regs .ebp
  within : Within (c.regs .esp - 8) (c.regs .esp) c.memory c'.memory

theorem Stub.framed_pushed (room : 8 ≤ c.regs .esp) : Stub.Framed c (Stub.pushed c) := by
  have kept := @within_pushes [c.regs .ebp, c.regs .ebx] c (by simp only [List.length]; omega)
  have words := @Holds.pushes [c.regs .ebp, c.regs .ebx] c [] (by simp only [List.length]; omega)
    trivial
  have memory : (Stub.pushed c).memory = (c.pushes [c.regs .ebp, c.regs .ebx]).memory := by
    simp [Stub.pushed, frame, Cpu.pushes, push_set, push_other, set_other]
  rw [← memory] at kept words
  obtain ⟨ebx, ebp, -⟩ := words
  refine ⟨?_, ?_, ?_, ebx, ?_, kept⟩
  · simp [Stub.pushed, frame, set_other, Nat.sub_sub]
  · simp [Stub.pushed, frame, push_other]
  · intro r general apart
    simp [Stub.pushed, frame, push_other, set_other, general, apart]
  · rw [show c.regs .esp - 4 = c.regs .esp - 4 * 2 + 4 by omega]
    exact ebp

/-- The arguments of a wrapper, above its frame. -/
theorem Stub.Framed.argument {c' : Cpu} (framed : Stub.Framed c c') (room : 8 ≤ c.regs .esp)
    (offset : Nat) : c'.memory (c'.regs .ebp + (offset + 8)) = c.memory (c.regs .esp + (offset + 4)) := by
  rw [framed.ebp, show c.regs .esp - 4 + (offset + 8) = c.regs .esp + (offset + 4) by omega]
  exact framed.within _ (.inr (by omega))

/-- Loads of argument registers. -/
def Stub.Loads (loads : List Instr) : Prop :=
  ∀ i ∈ loads, ∃ source r, i = .movl source r ∧ r ∈ [Reg.ebx, .ecx, .edx]

/-- They change nothing else. -/
theorem Stub.Loads.kept (only : Stub.Loads loads) : ∀ c : Cpu, (c.run loads).memory = c.memory ∧
    ∀ r ∉ [Reg.ebx, .ecx, .edx], (c.run loads).regs r = c.regs r := by
  induction loads with
  | nil => exact fun c => ⟨rfl, fun _ _ => rfl⟩
  | cons i rest ih =>
      intro c
      obtain ⟨source, dest, rfl, argument⟩ := only i List.mem_cons_self
      obtain ⟨memory, regs⟩ := ih (fun j member => only j (List.mem_cons_of_mem _ member))
        (c.set dest (c.value source))
      refine ⟨memory, fun r other => (regs r other).trans (set_other _ _ ?_)⟩
      rintro rfl
      exact other argument

/-- The word of an argument of the wrapper that is about to run. -/
def argument (c : Cpu) (i : Nat) : DWord := BitVec.ofNat 32 (c.memory (c.regs .esp + (4 * i + 4)))

/-- The registers ask for a call. -/
def Asks (service : Service) (c : Cpu) (request : Syscall) : Prop :=
  service.request (BitVec.ofNat 32 (c.regs .ebx)) (BitVec.ofNat 32 (c.regs .ecx))
    (BitVec.ofNat 32 (c.regs .edx)) = request

/-- A wrapper has a frame and loads the arguments of its service, or it has none. -/
inductive Wrapper.Shape (lib : Lib) (w : Wrapper) : Stub → Prop where
  | framed (loads : List Instr) (number : Nat) : number < 0x80000000 →
      sysCallTable[number]? = some w.service → Stub.Loads loads →
      (∀ c c' : Cpu, 8 ≤ c.regs .esp → Stub.Framed c c' → Asks w.service (c'.run loads)
        (w.request lib (argument c 0) (argument c 1) (argument c 2))) →
      Wrapper.Shape lib w (.framed loads number)
  | bare (number : Nat) : number < 0x80000000 → sysCallTable[number]? = some w.service →
      w.service.arity = 0 →
      (∀ c first second third, Asks w.service c (w.request lib first second third)) →
      Wrapper.Shape lib w (.bare number)

theorem Wrapper.shape (lib : Lib) (w : Wrapper) : w.Shape lib (w.stub lib) := by
  have values : ∀ c c' : Cpu, 8 ≤ c.regs .esp → Stub.Framed c c' →
      BitVec.ofNat 32 (c'.memory (c'.regs .ebp + 8)) = argument c 0 ∧
      BitVec.ofNat 32 (c'.memory (c'.regs .ebp + 12)) = argument c 1 ∧
      BitVec.ofNat 32 (c'.memory (c'.regs .ebp + 16)) = argument c 2 := by
    intro c c' room framed
    exact ⟨congrArg _ (framed.argument room 0), congrArg _ (framed.argument room 4),
      congrArg _ (framed.argument room 8)⟩
  cases w with
  | gettime | fork | getpid | exit => exact .bare _ (by decide) rfl rfl fun _ _ _ _ => rfl
  | _ =>
      refine .framed _ _ (by decide) rfl ?_ ?_
      · simp [Stub.Loads, Stub.loadFirst, Stub.loadSecond, Stub.loadThird]
      · intro c c' room framed
        obtain ⟨first, second, third⟩ := values c c' room framed
        simp [Asks, Stub.loadFirst, Stub.loadSecond, Stub.loadThird, set_other, first, second, third,
          request, service, Service.request]

/-! ### After the call -/

/-- What a wrapper returns: the answer, or -1 for an error, whose number is in `errno`. -/
def reported (answer : DWord) : DWord := if answer.toInt < 0 then -1 else answer

theorem signed_toNat (word : DWord) : signed word.toNat = word.toInt := by
  rw [signed, BitVec.ofNat_toNat, BitVec.setWidth_eq]

theorem signed_small (small : number < 0x80000000) : signed number = number := by
  rw [signed, BitVec.toInt_eq_toNat_cond, BitVec.toNat_ofNat]
  omega

theorem updateErrno_spec {answer : DWord} (eax : c.regs .eax = answer.toNat) :
    (updateErrno lib c).regs .eax = (reported answer).toNat ∧
      (updateErrno lib c).memory = (if answer.toInt < 0 then
        Function.update c.memory lib.errno (-answer).toNat else c.memory) ∧
      ∀ r, r ≠ .eax → (updateErrno lib c).regs r = c.regs r := by
  have word : BitVec.ofNat 32 (c.regs .eax) = answer := by
    rw [eax, BitVec.ofNat_toNat, BitVec.setWidth_eq]
  have minus : BitVec.ofInt 32 (-1) * answer = -answer := by
    rw [show BitVec.ofInt 32 (-1) = -1#32 from rfl, BitVec.neg_mul, BitVec.one_mul]
  unfold updateErrno
  rw [eax, signed_toNat, ← eax, word, minus]
  by_cases failed : answer.toInt < 0
  · rw [if_neg (by omega), if_pos failed, reported, if_pos failed]
    refine ⟨set_same .., ?_, fun r other => ?_⟩
    · simp [Cpu.store]
    · simp [set_other, other]
  · rw [if_pos (by omega), if_neg failed, reported, if_neg failed]
    exact ⟨eax, rfl, fun _ _ => rfl⟩

/-- The way out of a wrapper with a frame. -/
theorem framed_after {esp : Nat} (room : 8 ≤ esp) (place : c.regs .esp = esp - 8) :
    (c.run [.popl .ebx, .popl .ebp, .ret]).eip = c.memory esp ∧
      (c.run [.popl .ebx, .popl .ebp, .ret]).regs .esp = esp + 4 ∧
      (c.run [.popl .ebx, .popl .ebp, .ret]).regs .ebx = c.memory (esp - 8) ∧
      (c.run [.popl .ebx, .popl .ebp, .ret]).regs .ebp = c.memory (esp - 4) ∧
      (∀ r ∉ [Reg.esp, .ebx, .ebp], (c.run [.popl .ebx, .popl .ebp, .ret]).regs r = c.regs r) ∧
      (c.run [.popl .ebx, .popl .ebp, .ret]).memory = c.memory := by
  have middle : esp - 8 + 4 = esp - 4 := by omega
  have top : esp - 4 + 4 = esp := by omega
  refine ⟨?_, ?_, ?_, ?_, ?_, ?_⟩
  · simp [pop_esp, place, middle, top]
  · simp [pop_esp, place, middle, top]
  · simp [pop_other, set_other, place]
  · simp [pop_esp, set_other, place, middle]
  · intro r other
    simp only [List.mem_cons, List.not_mem_nil, or_false, not_or] at other
    simp [pop_other, set_other, other]
  · simp

/-- How a wrapper leaves the processor: at the return address, with the answer, and every
register of its caller but for those that any function may change. -/
structure Finished (lib : Lib) (caller : Cpu) (answer : DWord) (c : Cpu) : Prop where
  eip : c.eip = caller.memory (caller.regs .esp)
  esp : c.regs .esp = caller.regs .esp + 4
  saved : ∀ r ∉ [Reg.eax, .ecx, .edx, .esp], c.regs r = caller.regs r
  eax : c.regs .eax = (reported answer).toNat
  errno : c.memory lib.errno =
    if answer.toInt < 0 then (-answer).toNat else caller.memory lib.errno

/-- Room on both stacks, which lie apart from each other and from `errno`. -/
structure FitsWrapper (lib : Lib) (entry leave : Scratch) (size : Nat) (m : Core) : Prop where
  user : 8 ≤ m.regs .esp
  kernel : size ≤ m.esp0
  entered : 64 + 4 * entry.litter.length ≤ size
  left : 64 + 4 * leave.litter.length ≤ size
  apart : ∀ addr, Spared lib (m.regs .esp) addr → addr < m.esp0 - size ∨ m.esp0 ≤ addr
  errno : lib.errno < m.regs .esp - 8 ∨ m.regs .esp < lib.errno

/-- What the wrapper finds after `int $0x80`: memory that it counts on, and the answer. -/
structure Came (lib : Lib) (m : Core) (service : Service) (answer : DWord) (c₀ c : Cpu) : Prop where
  eax : c.regs .eax = answer.toNat
  regs : ∀ r, ¬ service.changes r → c.regs r = c₀.regs r
  memory : ∀ addr, Spared lib (m.regs .esp) addr → c.memory addr = c₀.memory addr

theorem run_came (fits : FitsWrapper lib entry leave size m) {service : Service}
    {stub : Stub} {c₁ : Cpu} (eax : signed ((m.toCpu.run stub.before).regs .eax) = number)
    (listed : sysCallTable[number]? = some service)
    (called : functions service (stub.entered user entry m) = some c₁)
    (returned : Returned service m.esp0 (Spared lib (m.regs .esp)) answer
      (stub.entered user entry m) c₁) :
    ∃ c, Came lib m service answer (m.toCpu.run stub.before) c ∧
      stub.run functions lib user entry leave m = some ((updateErrno lib c).run stub.after) := by
  obtain ⟨c₂, handled, answered, kept⟩ := @handleCall_answers
    { user with regs := (m.toCpu.run stub.before).regs } { m with toCpu := m.toCpu.run stub.before }
    size functions (Spared lib (m.regs .esp)) answer service entry leave number c₁ eax listed called
    returned fits.kernel fits.entered fits.left fits.apart
  refine ⟨{ c₂ with eip := (iret c₂).eip, regs := (iret c₂).regs },
    ⟨answered.eax, answered.regs, kept⟩, ?_⟩
  unfold Stub.run
  dsimp only
  rw [handled, Option.map_some]

theorem Service.changes_other (service : Service) {r : Reg}
    (other : r ∉ [Reg.eax, .ebx, .ecx, .edx]) : ¬ service.changes r := by
  have few : service.arity ≤ 3 := by
    cases service with
    | _ => decide
  rintro (rfl | low)
  · exact other List.mem_cons_self
  · cases r with
    | eax | ebx | ecx | edx => simp at other
    | _ =>
        simp only [slot] at low
        omega

/-- What a wrapper counts on is not `errno`. -/
theorem FitsWrapper.stack (fits : FitsWrapper lib entry leave size m) {offset : Nat}
    (inside : offset = 0 ∨ offset = 4 ∨ offset = 8) (answer : DWord) (memory : Nat → Nat) :
    (if answer.toInt < 0 then Function.update memory lib.errno (-answer).toNat else memory)
      (m.regs .esp - offset) = memory (m.regs .esp - offset) := by
  have room := fits.user
  have apart := fits.errno
  split
  · exact Function.update_of_ne (by omega) ..
  · rfl

theorem Finished.of_bare (fits : FitsWrapper lib entry leave size m) {service : Service}
    (none : service.arity = 0) {answer : DWord}
    (came : Came lib m service answer (m.toCpu.set .eax number) c) :
    Finished lib m.toCpu answer ((updateErrno lib c).run [.ret]) := by
  obtain ⟨eax, memory, regs⟩ := @updateErrno_spec lib c answer came.eax
  have same : ∀ r, r ≠ .eax → (updateErrno lib c).regs r = m.regs r := by
    intro r other
    have stays : ¬ service.changes r := by
      rw [Service.changes, none, not_or]
      exact ⟨other, Nat.not_lt_zero _⟩
    exact ((regs r other).trans (came.regs r stays)).trans (set_other _ _ other)
  have esp := same .esp (by decide)
  refine ⟨?_, ?_, ?_, ?_, ?_⟩
  · have word := fits.stack (.inl rfl) answer c.memory
    simp only [run_cons, run_nil, exec_ret, goto_eip]
    rw [esp, memory]
    exact word.trans (came.memory _ (.inr (.inr (.inl rfl))))
  · simp [esp]
  · intro r other
    simp only [List.mem_cons, List.not_mem_nil, or_false, not_or] at other
    simp [set_other, other, same]
  · simp [set_other, eax]
  · have errno := came.memory lib.errno (.inr (.inr (.inr rfl)))
    simp only [run_cons, run_nil, exec_ret, goto_memory, set_memory, memory]
    split
    · exact Function.update_self ..
    · exact errno

theorem Finished.of_framed (fits : FitsWrapper lib entry leave size m) {service : Service}
    (only : Stub.Loads loads) {answer : DWord}
    (came : Came lib m service answer (((Stub.pushed m.toCpu).run loads).set .eax number) c) :
    Finished lib m.toCpu answer ((updateErrno lib c).run [.popl .ebx, .popl .ebp, .ret]) := by
  obtain ⟨eax, memory, regs⟩ := @updateErrno_spec lib c answer came.eax
  have framed := Stub.framed_pushed fits.user
  obtain ⟨loaded, kept⟩ := only.kept (Stub.pushed m.toCpu)
  have same : ∀ r ∉ [Reg.eax, .ebx, .ecx, .edx],
      (updateErrno lib c).regs r = (Stub.pushed m.toCpu).regs r := by
    intro r other
    simp only [List.mem_cons, List.not_mem_nil, or_false, not_or] at other
    have stays := service.changes_other (r := r) (by simp [other])
    rw [regs r other.1, came.regs r stays, set_other _ _ other.1, kept r (by simp [other])]
  have esp : (updateErrno lib c).regs .esp = m.regs .esp - 8 :=
    (same .esp (by decide)).trans framed.esp
  have word : ∀ offset, offset = 0 ∨ offset = 4 ∨ offset = 8 →
      (updateErrno lib c).memory (m.regs .esp - offset) =
        (Stub.pushed m.toCpu).memory (m.regs .esp - offset) := by
    intro offset inside
    have spared : Spared lib (m.regs .esp) (m.regs .esp - offset) := by
      rcases inside with rfl | rfl | rfl
      · exact .inr (.inr (.inl rfl))
      · exact .inr (.inl rfl)
      · exact .inl rfl
    rw [memory, fits.stack inside, came.memory _ spared, set_memory, loaded]
  obtain ⟨eip', esp', ebx', ebp', regs', memory'⟩ := framed_after fits.user esp
  refine ⟨?_, esp', ?_, ?_, ?_⟩
  · rw [eip']
    exact (word 0 (.inl rfl)).trans (framed.within _ (.inr (Nat.le_refl _)))
  · intro r other
    by_cases ebx : r = .ebx
    · subst ebx
      rw [ebx', word 8 (.inr (.inr rfl)), framed.ebx]
    · by_cases ebp : r = .ebp
      · subst ebp
        rw [ebp', word 4 (.inr (.inl rfl)), framed.link]
      · simp only [List.mem_cons, List.not_mem_nil, or_false, not_or] at other
        rw [regs' r (by simp [other, ebx, ebp]), same r (by simp [other, ebx]),
          framed.regs r other.2.2.2 ebp]
  · rw [regs' .eax (by decide), eax]
  · have errno := came.memory lib.errno (.inr (.inr (.inr rfl)))
    have outside := framed.within lib.errno (by have := fits.errno; omega)
    rw [memory', memory]
    split
    · exact Function.update_self ..
    · rw [errno, set_memory, loaded, outside]

theorem Stub.entered_esp {stub : Stub} (fits : FitsWrapper lib entry leave size m) :
    (stub.entered user entry m).regs .esp = m.esp0 - 64 :=
  (@savedUser entry { user with regs := (m.toCpu.run stub.before).regs }
    { m with toCpu := m.toCpu.run stub.before } size fits.kernel fits.entered).1.1

/-- A program that calls a wrapper calls the function of that name with the arguments it gave, and
gets what the function answers then: `-1` and `errno` for an error, and its registers back, even
if the function wrote to its arguments on the kernel's stack. -/
theorem wrapper_answers (w : Wrapper) (fits : FitsWrapper lib entry leave size m) :
    w.service.asked ((w.stub lib).entered user entry m) =
        w.request lib (argument m.toCpu 0) (argument m.toCpu 1) (argument m.toCpu 2) ∧
      ∀ c₁ answer, functions w.service ((w.stub lib).entered user entry m) = some c₁ →
        Returned w.service m.esp0 (Spared lib (m.regs .esp)) answer
          ((w.stub lib).entered user entry m) c₁ →
        ∃ c, (w.stub lib).run functions lib user entry leave m = some c ∧
          Finished lib m.toCpu answer c := by
  have asked := @asked_systemCallHandler
    { user with regs := (m.toCpu.run (w.stub lib).before).regs }
    { m with toCpu := m.toCpu.run (w.stub lib).before } size entry w.service fits.kernel fits.entered
  have shape := w.shape lib
  unfold Stub.entered
  rw [asked]
  generalize w.stub lib = stub at shape
  cases shape with
  | bare number small listed none asks =>
      refine ⟨asks _ _ _ _, fun c₁ answer called returned => ?_⟩
      obtain ⟨c, came, ran⟩ := @run_came lib user m number size functions answer entry leave fits
        w.service (.bare number) c₁ (signed_small small) listed called returned
      exact ⟨_, ran, .of_bare fits none came⟩
  | framed loads number small listed only asks =>
      have before := framed_before loads number m.toCpu
      refine ⟨?_, fun c₁ answer called returned => ?_⟩
      · rw [before]
        exact asks m.toCpu _ fits.user (Stub.framed_pushed fits.user)
      · have numbered : signed ((m.toCpu.run (Stub.framed loads number).before).regs .eax) =
            number := by
          rw [before, set_same]
          exact signed_small small
        obtain ⟨c, came, ran⟩ := @run_came lib user m number size functions answer entry leave fits
          w.service (.framed loads number) c₁ numbered listed called returned
        rw [before] at came
        exact ⟨_, ran, .of_framed fits only came⟩

/-- A kernel whose functions answer, and leave a word in their first argument. -/
def answering (result : Syscall → DWord) : Functions := fun service c =>
  some ((c.store (c.regs .esp) 5).set .eax (result (service.asked c)).toNat)

theorem answering_returns {c : Cpu} {result : Syscall → DWord} {top : Nat} {spared : Nat → Prop}
    {service : Service} (some : 1 ≤ service.arity) (apart : ¬ spared (c.regs .esp)) :
    ∃ c₁, answering result service c = .some c₁ ∧
      Returned service top spared (result (service.asked c)) c c₁ := by
  refine ⟨_, rfl, set_other _ _ (by decide), set_same .., fun addr outside => ?_⟩
  apply store_other
  rintro rfl
  rcases outside with above | kept
  · omega
  · exact apart kept

/-- A function that leaves nothing behind. -/
def noScratch : Scratch := ⟨[], [], fun _ => 0, 0⟩

def someLib : Lib := ⟨0x10B000, 0x100100⟩

/-- A program that calls a wrapper with arguments 77, from before 0x100200. -/
def someUser : UserState := ⟨fun _ => 0, 0x100300, 0x23, 0x200, 0x2B⟩

def someCaller : Core :=
  ⟨⟨0x100400, fun r => if r = .esp then 0x11BFF0 else 9,
    fun addr => if addr = 0x11BFF0 then 0x100200 else 77⟩, 0x20000, 0⟩

theorem fits_someCaller : FitsWrapper someLib noScratch noScratch 64 someCaller := by
  refine ⟨by decide, by decide, by decide, by decide, ?_, by decide⟩
  intro addr spared
  simp only [Spared, someLib] at spared
  right
  simp [someCaller] at spared ⊢
  omega

/-- There is no semaphore 77. -/
def withoutSemaphore (request : Syscall) : DWord :=
  if request = .semWait 77 then BitVec.ofInt 32 (-EINVAL) else 0

/-- `sem_wait(77)` fails. -/
theorem wrapper_answers_semWait : ∃ c,
    (Wrapper.semWait.stub someLib).run (answering withoutSemaphore) someLib someUser noScratch
      noScratch someCaller = some c ∧
    c.eip = 0x100200 ∧ c.regs .ebx = 9 ∧ c.regs .eax = 0xFFFFFFFF ∧ c.memory 0x10B000 = 22 := by
  obtain ⟨asked, answers⟩ := @wrapper_answers someLib someUser someCaller 64
    (answering withoutSemaphore) noScratch noScratch .semWait fits_someCaller
  have esp := @Stub.entered_esp someLib someUser someCaller 64 noScratch noScratch
    (Wrapper.semWait.stub someLib) fits_someCaller
  obtain ⟨c₁, called, returned⟩ := @answering_returns
    ((Wrapper.semWait.stub someLib).entered someUser noScratch someCaller) withoutSemaphore
    someCaller.esp0 (Spared someLib (someCaller.regs .esp)) .semWait (by decide) (by
      rw [esp]
      simp [Spared, someCaller, someLib])
  have failed : withoutSemaphore (Wrapper.semWait.service.asked
      ((Wrapper.semWait.stub someLib).entered someUser noScratch someCaller)) =
        BitVec.ofInt 32 (-EINVAL) := by
    rw [asked]
    rfl
  change Returned _ _ _ (withoutSemaphore (Wrapper.semWait.service.asked _)) _ _ at returned
  rw [failed] at returned
  obtain ⟨c, ran, done⟩ := answers c₁ _ called returned
  exact ⟨c, ran, done.eip, done.saved .ebx (by decide), done.eax, done.errno⟩

/-- The numbers of the system calls. -/
def callNumbers : List Nat := [1, 2, 4, 5, 10, 19, 20, 21, 22, 23, 24, 25, 35]

/-- `int $0x80` with any other number changes `%eax` only, to `-ENOSYS`: the rest of the task is
as it was. -/
theorem unknown_call_refused {body : Scratch} (other : ∀ n ∈ callNumbers, signed (user.regs .eax) ≠ n)
    (embedded : functions .niSyscall = fun c => some (sysNiSyscall body c))
    (room : size ≤ m.esp0) (entered : 64 + 4 * entry.litter.length ≤ size)
    (called : 64 + 4 * body.litter.length ≤ size) (left : 64 + 4 * leave.litter.length ≤ size) :
    ∃ c, handleCall functions user entry leave m = some c ∧
      iret c = user.set .eax (BitVec.ofInt 32 (-ENOSYS)).toNat := by
  by_cases out : signed (user.regs .eax) < 0 ∨ maxSyscall ≤ signed (user.regs .eax)
  · obtain ⟨c, handled, restored, _⟩ := @handleCall_unlisted user m functions entry leave out
      (by omega)
    exact ⟨c, handled, restored⟩
  · rw [not_or, not_lt, not_le] at out
    obtain ⟨number, numbered⟩ := Int.eq_ofNat_of_zero_le out.1
    have unlisted : ∀ n < maxSyscall, n ∉ callNumbers →
        sysCallTable[n]? = some .niSyscall := by decide
    have listed := unlisted number (by omega) fun member => other number member numbered
    obtain ⟨⟨esp, _⟩, _⟩ := @savedUser entry user m size room entered
    have returned : Returned .niSyscall m.esp0 (fun _ => False)
        (BitVec.ofInt 32 Kernel.sysNiSyscall) (systemCallHandler user entry m).toCpu
        (sysNiSyscall body (systemCallHandler user entry m).toCpu) :=
      sysNiSyscall_returned (by omega)
    obtain ⟨c, handled, answered, _⟩ := @handleCall_answers user m size functions
      (fun _ => False) _ .niSyscall entry leave number _ numbered listed
      (congrFun embedded _) returned room entered left (fun _ never => never.elim)
    refine ⟨c, handled, ?_⟩
    have regs : (iret c).regs = Function.update user.regs .eax (BitVec.ofInt 32 (-ENOSYS)).toNat := by
      funext r
      by_cases eax : r = .eax
      · subst eax
        rw [Function.update_self, answered.eax]
        rfl
      · rw [Function.update_of_ne eax]
        exact answered.regs r (by simp [Service.changes, Service.arity, eax])
    obtain ⟨_, _, eip, cs, eflags, ss⟩ := answered
    generalize iret c = back at regs eip cs eflags ss
    cases back
    simp only at regs eip cs eflags ss
    subst regs eip cs eflags ss
    rfl

/-- Number 3 is a hole in the table. -/
theorem unknown_call_refused_hole : ∃ c,
    handleCall (fun _ c => some (sysNiSyscall ⟨[], [4, 2], fun _ => 8, 0⟩ c))
      ⟨fun r => if r = .eax then 3 else 9, 0x100300, 0x23, 0x200, 0x2B⟩ ⟨[], [], fun _ => 0, 0⟩
      ⟨[], [], fun _ => 0, 0⟩ ⟨⟨0, fun _ => 0, fun _ => 0⟩, 0x20000, 0⟩ = some c ∧
    (iret c).regs .eax = 0xFFFFFFDA ∧ (iret c).regs .ebx = 9 := by
  obtain ⟨c, handled, back⟩ := @unknown_call_refused
    ⟨fun r => if r = .eax then 3 else 9, 0x100300, 0x23, 0x200, 0x2B⟩
    ⟨⟨0, fun _ => 0, fun _ => 0⟩, 0x20000, 0⟩ 72
    (fun _ c => some (sysNiSyscall ⟨[], [4, 2], fun _ => 8, 0⟩ c))
    ⟨[], [], fun _ => 0, 0⟩ ⟨[], [], fun _ => 0, 0⟩ ⟨[], [4, 2], fun _ => 8, 0⟩
    (by decide) rfl (by decide) (by decide) (by decide) (by decide)
  refine ⟨c, handled, ?_, ?_⟩
  · rw [back]
    rfl
  · rw [back]
    rfl

/-- A clock interrupt, a key and a page fault that is repaired leave no trace in the task that
they interrupt: `iret` gives it every register, its place and its flags again, also where
`pf_rsi` wrote to its argument and the processor had pushed an error code. -/
theorem handlers_restore {clockRoutine keyboardRoutine pfRsi : Cpu → Cpu}
    (clock : Keeps clockRoutine 0 m.esp0 (interruptEntered user entry m))
    (keyboard : Keeps keyboardRoutine 0 m.esp0 (interruptEntered user entry m))
    (fault : ∀ errorCode cr2, Keeps pfRsi 1 m.esp0 (pfEntered user errorCode cr2 m))
    (room : 72 ≤ m.esp0) (entered : 64 + 4 * entry.litter.length ≤ m.esp0)
    (left : 64 + 4 * leave.litter.length ≤ m.esp0) :
    iret (clockHandler clockRoutine user entry leave m) = user ∧
      iret (keyboardHandler keyboardRoutine user entry leave m) = user ∧
      ∀ errorCode cr2, iret (pfHandler pfRsi user errorCode cr2 m) = user :=
  ⟨interruptHandler_restores clock entered left, interruptHandler_restores keyboard entered left,
    fun errorCode cr2 => pfHandler_restores (fault errorCode cr2) room⟩

/-- `pf_rsi` leaves a word of its own in its argument. -/
theorem handlers_restore_argument :
    iret (clockHandler id ⟨fun _ => 7, 0x100300, 0x23, 0x200, 0x2B⟩ ⟨[], [1, 2], fun _ => 0, 0⟩
      ⟨[], [3], fun _ => 0, 0⟩ ⟨⟨0, fun _ => 0, fun _ => 0⟩, 0x20000, 0⟩) =
        ⟨fun _ => 7, 0x100300, 0x23, 0x200, 0x2B⟩ ∧
      iret (pfHandler (fun c => c.store (c.regs .esp) 5) ⟨fun _ => 7, 0x100300, 0x23, 0x200, 0x2B⟩ 6
        0x108000 ⟨⟨0, fun _ => 0, fun _ => 0⟩, 0x20000, 0⟩) =
        ⟨fun _ => 7, 0x100300, 0x23, 0x200, 0x2B⟩ := by
  obtain ⟨clock, _, fault⟩ := @handlers_restore ⟨fun _ => 7, 0x100300, 0x23, 0x200, 0x2B⟩
    ⟨⟨0, fun _ => 0, fun _ => 0⟩, 0x20000, 0⟩ ⟨[], [1, 2], fun _ => 0, 0⟩
    ⟨[], [3], fun _ => 0, 0⟩ id id (fun c => c.store (c.regs .esp) 5)
    ⟨rfl, fun _ _ _ => rfl⟩ ⟨rfl, fun _ _ _ => rfl⟩
    (fun _ _ => ⟨rfl, fun _ above _ => store_other _ 5 (by omega)⟩) (by decide) (by decide)
    (by decide)
  exact ⟨clock, fault 6 0x108000⟩

end Zeos
