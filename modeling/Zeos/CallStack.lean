import Mathlib.Data.List.Basic
import Mathlib.Logic.Function.Basic

set_option autoImplicit false

/-! A machine with a stack of 32-bit words in memory, which grows down, run by
listings of instructions. -/

namespace CallStack

inductive Reg where
  | eax | ebx | ecx | edx | esi | edi | ebp | esp | ds | es | fs | gs
  deriving DecidableEq, Repr

/-- The registers, and the words of memory by their addresses. -/
structure Cpu where
  eip : Nat
  regs : Reg → Nat
  memory : Nat → Nat

inductive Operand where
  | reg (r : Reg)
  | word (displacement : Nat) (base : Reg)
  | const (value : Nat)

inductive Instr where
  | pushl (source : Operand)
  | popl (dest : Reg)
  | movl (source : Operand) (dest : Reg)
  | addl (value : Nat) (dest : Reg)
  | call (entry after : Nat)
  | ret

namespace Cpu

def set (c : Cpu) (r : Reg) (value : Nat) : Cpu :=
  { c with regs := Function.update c.regs r value }

def store (c : Cpu) (addr value : Nat) : Cpu :=
  { c with memory := Function.update c.memory addr value }

def push (c : Cpu) (value : Nat) : Cpu :=
  (c.set .esp (c.regs .esp - 4)).store (c.regs .esp - 4) value

def pop (c : Cpu) (dest : Reg) : Cpu :=
  (c.set .esp (c.regs .esp + 4)).set dest (c.memory (c.regs .esp))

def goto (c : Cpu) (entry : Nat) : Cpu := { c with eip := entry }

/-- A call of `entry` that returns to `after`. -/
def call (c : Cpu) (entry after : Nat) : Cpu := (c.push after).goto entry

def ret (c : Cpu) : Cpu := (c.set .esp (c.regs .esp + 4)).goto (c.memory (c.regs .esp))

def value (c : Cpu) : Operand → Nat
  | .reg r => c.regs r
  | .word displacement base => c.memory (c.regs base + displacement)
  | .const value => value

def exec (c : Cpu) : Instr → Cpu
  | .pushl source => c.push (c.value source)
  | .popl dest => c.pop dest
  | .movl source dest => c.set dest (c.value source)
  | .addl value dest => c.set dest (c.regs dest + value)
  | .call entry after => c.call entry after
  | .ret => c.ret

/-- Straight-line code. -/
def run (c : Cpu) (listing : List Instr) : Cpu := listing.foldl exec c

def pushes (c : Cpu) (words : List Nat) : Cpu := words.foldl push c

end Cpu

/-! ### What an instruction leaves -/

section Operations

variable (c : Cpu) (r dest : Reg) (addr value entry after : Nat)

open Cpu

@[simp] theorem goto_eip : (c.goto entry).eip = entry := rfl
@[simp] theorem goto_regs : (c.goto entry).regs = c.regs := rfl
@[simp] theorem goto_memory : (c.goto entry).memory = c.memory := rfl
@[simp] theorem goto_set : (c.goto entry).set r value = (c.set r value).goto entry := rfl
@[simp] theorem goto_push : (c.goto entry).push value = (c.push value).goto entry := rfl
@[simp] theorem set_same : (c.set r value).regs r = value := Function.update_self ..
@[simp] theorem set_memory : (c.set r value).memory = c.memory := rfl
@[simp] theorem store_regs : (c.store addr value).regs = c.regs := rfl
@[simp] theorem store_same : (c.store addr value).memory addr = value := Function.update_self ..
@[simp] theorem push_esp : (c.push value).regs .esp = c.regs .esp - 4 := set_same c .esp _
@[simp] theorem pop_memory : (c.pop dest).memory = c.memory := rfl
@[simp] theorem pop_same : (c.pop dest).regs dest = c.memory (c.regs .esp) := set_same ..

@[simp] theorem run_nil : c.run [] = c := rfl
@[simp] theorem run_cons (i : Instr) (rest : List Instr) :
    c.run (i :: rest) = (c.exec i).run rest := rfl
@[simp] theorem exec_pushl (source : Operand) :
    c.exec (.pushl source) = c.push (c.value source) := rfl
@[simp] theorem exec_popl : c.exec (.popl dest) = c.pop dest := rfl
@[simp] theorem exec_movl (source : Operand) :
    c.exec (.movl source dest) = c.set dest (c.value source) := rfl
@[simp] theorem exec_addl : c.exec (.addl value dest) = c.set dest (c.regs dest + value) := rfl
@[simp] theorem exec_call : c.exec (.call entry after) = (c.push after).goto entry := rfl
@[simp] theorem exec_ret :
    c.exec .ret = (c.set .esp (c.regs .esp + 4)).goto (c.memory (c.regs .esp)) := rfl
@[simp] theorem value_reg : c.value (.reg r) = c.regs r := rfl
@[simp] theorem value_word (displacement : Nat) :
    c.value (.word displacement r) = c.memory (c.regs r + displacement) := rfl
@[simp] theorem value_const : c.value (.const value) = value := rfl

variable {r dest addr}

theorem set_other {other : Reg} (different : other ≠ r) :
    (c.set r value).regs other = c.regs other := Function.update_of_ne different ..

theorem store_other {other : Nat} (different : other ≠ addr) :
    (c.store addr value).memory other = c.memory other := Function.update_of_ne different ..

theorem push_other (different : r ≠ .esp) : (c.push value).regs r = c.regs r :=
  set_other c _ different

/-- A push does not see the other registers. -/
theorem push_set {word : Nat} (different : r ≠ .esp) :
    (c.set r word).push value = (c.push value).set r word := by
  unfold push
  rw [set_other c _ different.symm]
  unfold Cpu.set
  rw [Function.update_comm different]
  rfl

theorem pop_esp (different : dest ≠ .esp) : (c.pop dest).regs .esp = c.regs .esp + 4 := by
  rw [pop, set_other _ _ different.symm, set_same]

theorem pop_other (apart : r ≠ dest) (different : r ≠ .esp) :
    (c.pop dest).regs r = c.regs r := by
  rw [pop, set_other _ _ apart, set_other _ _ different]

end Operations

/-! ### Ranges of memory -/

/-- Two memories differ only from `low` up to `high`. -/
def Within (low high : Nat) (memory memory' : Nat → Nat) : Prop :=
  ∀ addr, addr < low ∨ high ≤ addr → memory' addr = memory addr

namespace Within

variable {low high low' high' : Nat} {memory memory' last : Nat → Nat}

theorem refl (low high : Nat) (memory : Nat → Nat) : Within low high memory memory :=
  fun _ _ => rfl

theorem trans (first : Within low high memory memory') (second : Within low high memory' last) :
    Within low high memory last :=
  fun addr outside => (second addr outside).trans (first addr outside)

theorem mono (within : Within low high memory memory') (lower : low' ≤ low)
    (higher : high ≤ high') : Within low' high' memory memory' :=
  fun addr outside => within addr (by omega)

end Within

theorem within_store (c : Cpu) (addr value : Nat) :
    Within addr (addr + 4) c.memory (c.store addr value).memory :=
  fun _ outside => store_other c value (by omega)

theorem within_push {c : Cpu} (room : 4 ≤ c.regs .esp) (value : Nat) :
    Within (c.regs .esp - 4) (c.regs .esp) c.memory (c.push value).memory :=
  fun _ outside => store_other _ value (by omega)

theorem pushes_other {r : Reg} (different : r ≠ .esp) (words : List Nat) : ∀ c : Cpu,
    (c.pushes words).regs r = c.regs r := by
  induction words with
  | nil => exact fun _ => rfl
  | cons word rest ih => exact fun c => (ih _).trans (push_other c word different)

theorem pushes_esp (words : List Nat) : ∀ c : Cpu,
    (c.pushes words).regs .esp = c.regs .esp - 4 * words.length := by
  induction words with
  | nil => exact fun _ => rfl
  | cons word rest ih =>
      intro c
      rw [Cpu.pushes, List.foldl_cons, List.length_cons]
      show ((c.push word).pushes rest).regs .esp = _
      rw [ih, push_esp]
      omega

theorem within_pushes (words : List Nat) : ∀ {c : Cpu}, 4 * words.length ≤ c.regs .esp →
    Within (c.regs .esp - 4 * words.length) (c.regs .esp) c.memory (c.pushes words).memory := by
  induction words with
  | nil => exact fun _ => Within.refl _ _ _
  | cons word rest ih =>
      intro c room
      rw [List.length_cons] at room ⊢
      have first := @within_push c (by omega) word
      have later := @ih (c.push word) (by rw [push_esp]; omega)
      rw [push_esp] at later
      exact (first.mono (by omega) (Nat.le_refl _)).trans (later.mono (by omega) (by omega))

/-! ### Words on the stack -/

/-- The words from `addr` up. -/
def Holds (memory : Nat → Nat) : Nat → List Nat → Prop
  | _, [] => True
  | addr, word :: rest => memory addr = word ∧ Holds memory (addr + 4) rest

namespace Holds

variable {memory memory' : Nat → Nat} {addr word low high : Nat} {words : List Nat}

theorem frame (same : ∀ i, addr ≤ i → i < addr + 4 * words.length → memory' i = memory i)
    (holds : Holds memory addr words) : Holds memory' addr words := by
  induction words generalizing addr with
  | nil => trivial
  | cons word rest ih =>
      rw [List.length_cons] at same
      obtain ⟨first, later⟩ := holds
      refine ⟨(same addr (Nat.le_refl _) (by omega)).trans first, ih ?_ later⟩
      exact fun i above below => same i (by omega) (by omega)

/-- Words that lie apart from a range that changes. -/
theorem apart (within : Within low high memory memory')
    (outside : addr + 4 * words.length ≤ low ∨ high ≤ addr) (holds : Holds memory addr words) :
    Holds memory' addr words :=
  holds.frame fun i _ _ => within i (by omega)

/-- One of the words. -/
theorem get {i : Nat} (holds : Holds memory addr words) (inside : i < words.length) :
    memory (addr + 4 * i) = words[i] := by
  induction words generalizing addr i with
  | nil => exact absurd inside (Nat.not_lt_zero i)
  | cons word rest ih =>
      cases i with
      | zero => exact holds.1
      | succ i =>
          have later := ih holds.2 (Nat.lt_of_succ_lt_succ inside)
          rw [Nat.mul_succ, Nat.add_comm (4 * i), ← Nat.add_assoc]
          exact later

theorem push {c : Cpu} (room : 4 ≤ c.regs .esp) (holds : Holds c.memory (c.regs .esp) words) :
    Holds (c.push word).memory ((c.push word).regs .esp) (word :: words) := by
  rw [push_esp]
  refine ⟨store_same .., ?_⟩
  rw [Nat.sub_add_cancel room]
  exact holds.apart (within_push room word) (.inr (Nat.le_refl _))

/-- The last word pushed is the first one from the top. -/
theorem pushes (more : List Nat) : ∀ {c : Cpu} {words : List Nat}, 4 * more.length ≤ c.regs .esp →
    Holds c.memory (c.regs .esp) words →
    Holds (c.pushes more).memory (c.regs .esp - 4 * more.length) (more.reverse ++ words) := by
  induction more with
  | nil => exact fun _ holds => holds
  | cons word rest ih =>
      intro c words room holds
      rw [List.length_cons] at room ⊢
      have first := @Holds.push word words c (by omega) holds
      have later := ih (by rw [push_esp]; omega) first
      rw [push_esp, Nat.sub_sub, Nat.add_comm 4, ← Nat.mul_succ] at later
      rw [List.reverse_cons, List.append_assoc]
      exact later

end Holds

end CallStack
