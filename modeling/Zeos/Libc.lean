import Zeos.Copy
import Zeos.Loop

set_option autoImplicit false

/-! `itoa` and `strlen` of `libc.c`. -/

namespace Zeos

/-- Memory, and the addresses stored to, newest first, which no function reads. -/
structure Buffer where
  memory : Memory
  stores : List DWord

def Buffer.put (s : Buffer) (b : DWord) (i : Nat) (c : Byte) : Buffer where
  memory := Function.update s.memory (b + BitVec.ofNat 32 i) c
  stores := (b + BitVec.ofNat 32 i) :: s.stores

def Buffer.get (s : Buffer) (b : DWord) (i : Nat) : Byte := s.memory (b + BitVec.ofNat 32 i)

/-- The loop `while(a > 0)`, and the `i` it ends with. -/
def divideLoop (b : DWord) (a : Int) (i : Nat) (s : Buffer) : Buffer × Nat :=
  if 0 < a then
    divideLoop b (a.tdiv 10) (i + 1) (s.put b i (BitVec.ofInt 8 (a.tmod 10 + 48)))
  else (s, i)
termination_by a.toNat
decreasing_by
  rw [Int.tdiv_eq_ediv_of_nonneg (by omega)]
  omega

/-- One round of the loop that reverses the string. -/
def swapRound (b : DWord) (i i1 : Nat) (s : Buffer) : Buffer :=
  let c := s.get b i1
  let s := s.put b i1 (s.get b (i - i1 - 1))
  s.put b (i - i1 - 1) c

def Buffer.itoa (s : Buffer) (a : Int) (b : DWord) : Buffer :=
  if a = 0 then (s.put b 0 48).put b 1 0
  else
    let (s, i) := divideLoop b a 0 s
    let s := Loop.upTo (i / 2) (swapRound b i) s
    s.put b i 0

def strlenLoop (memory : Memory) (a : DWord) : Nat → Nat → Option Nat
  | 0, _ => none
  | rounds + 1, i =>
      if memory (a + BitVec.ofNat 32 i) ≠ 0 then strlenLoop memory a rounds (i + 1) else some i

/-- `strlen`: undefined when `i++` overflows an `int`. -/
def strlen (memory : Memory) (a : DWord) : Option Nat := strlenLoop memory a 0x80000000 0

end Zeos
