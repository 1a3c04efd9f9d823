import Mathlib.Logic.Function.Basic

set_option autoImplicit false

/-! The protected mode of the processor: the descriptors as it reads them from memory, and how it
enters the handler of an interrupt. -/

namespace Protected

/-- A segment descriptor. `kind` is the type field; `ordinary` tells code and data from the
system segments. -/
structure Segment where
  base : BitVec 32
  limit : BitVec 20
  inPages : Bool
  kind : BitVec 4
  ordinary : Bool
  dpl : Nat
  present : Bool
  deriving DecidableEq, Repr

/-- A gate of the interrupt table; `kind` includes the bit that is set in segments. -/
structure Gate where
  offset : BitVec 32
  selector : BitVec 16
  kind : BitVec 5
  dpl : Nat
  present : Bool
  deriving DecidableEq, Repr

/-- What the processor holds in its system registers. -/
structure Tables where
  idtBase : Nat
  idtLimit : Nat
  gdtBase : Nat
  gdtLimit : Nat
  tssBase : Nat
  tssLimit : Nat
  deriving DecidableEq, Repr

/-- What stops an interrupt from being delivered. `untreated` stands for gates that are not
described here: 16-bit gates and task gates. -/
inductive Fault where
  | generalProtection | notPresent | invalidTss | stack | untreated
  deriving DecidableEq, Repr

/-- How a handler is entered. `stack` is the stack that the processor changes to, if it does, and
`masks` tells that no other interrupt comes. -/
structure Entry where
  cs : BitVec 16
  eip : BitVec 32
  stack : Option (BitVec 16 × BitVec 32)
  masks : Bool
  deriving DecidableEq, Repr

namespace Segment

/-- The last offset inside the segment. -/
def last (segment : Segment) : Nat :=
  if segment.inPages then segment.limit.toNat * 0x1000 + 0xFFF else segment.limit.toNat

def isCode (segment : Segment) : Bool := segment.ordinary && segment.kind.getLsbD 3

def conforming (segment : Segment) : Bool := segment.kind.getLsbD 2

def isWritableData (segment : Segment) : Bool :=
  segment.ordinary && !segment.kind.getLsbD 3 && segment.kind.getLsbD 1

end Segment

section Reading

variable (load : Nat → BitVec 8)

def half (addr : Nat) : BitVec 16 := load (addr + 1) ++ load addr

def word (addr : Nat) : BitVec 32 := half load (addr + 2) ++ half load addr

def segmentAt (addr : Nat) : Segment where
  base := load (addr + 7) ++ load (addr + 4) ++ half load (addr + 2)
  limit := (load (addr + 6)).setWidth 4 ++ half load addr
  inPages := (load (addr + 6)).getLsbD 7
  kind := (load (addr + 5)).setWidth 4
  ordinary := (load (addr + 5)).getLsbD 4
  dpl := ((load (addr + 5)).extractLsb' 5 2).toNat
  present := (load (addr + 5)).getLsbD 7

def gateAt (addr : Nat) : Gate where
  offset := half load (addr + 6) ++ half load addr
  selector := half load (addr + 2)
  kind := (half load (addr + 4)).extractLsb' 8 5
  dpl := ((half load (addr + 4)).extractLsb' 13 2).toNat
  present := (half load (addr + 4)).getLsbD 15

/-- The descriptor that a selector names: not the null selector, and not one of a local table,
which is never loaded. -/
def selected (tables : Tables) (selector : BitVec 16) : Option Segment :=
  let index := (selector >>> 3).toNat
  if index = 0 ∨ selector.getLsbD 2 = true ∨ tables.gdtLimit < 8 * index + 7 then none
  else some (segmentAt load (tables.gdtBase + 8 * index))

/-- A selector with its requested privilege level replaced. -/
def withLevel (selector : BitVec 16) (level : Nat) : BitVec 16 :=
  (selector &&& 0xFFFC) ||| BitVec.ofNat 16 level

/-- The stack of privilege level `level` in the task state segment. -/
def innerStack (tables : Tables) (level : Nat) : Except Fault (BitVec 16 × BitVec 32) :=
  let place := 8 * level + 4
  if tables.tssLimit < place + 5 then .error .invalidTss
  else
    let ss := half load (tables.tssBase + place + 4)
    match selected load tables ss with
    | none => .error .invalidTss
    | some segment =>
        if (ss.setWidth 2).toNat ≠ level ∨ segment.dpl ≠ level ∨ segment.isWritableData = false then
          .error .invalidTss
        else if segment.present = false then .error .stack
        else .ok (ss, word load (tables.tssBase + place))

/-- An interrupt while the processor runs at privilege level `cpl`; `software` if it comes from
the instruction `int`. -/
def deliver (tables : Tables) (software : Bool) (cpl vector : Nat) : Except Fault Entry :=
  if tables.idtLimit < 8 * vector + 7 then .error .generalProtection
  else
    let gate := gateAt load (tables.idtBase + 8 * vector)
    if gate.kind ≠ 0x0e ∧ gate.kind ≠ 0x0f then .error .untreated
    else if software = true ∧ gate.dpl < cpl then .error .generalProtection
    else if gate.present = false then .error .notPresent
    else match selected load tables gate.selector with
      | none => .error .generalProtection
      | some segment =>
          if segment.isCode = false ∨ cpl < segment.dpl then .error .generalProtection
          else if segment.present = false then .error .notPresent
          else if segment.last < gate.offset.toNat then .error .generalProtection
          else
            let masks := decide (gate.kind = 0x0e)
            if segment.conforming = true ∨ segment.dpl = cpl then
              .ok ⟨withLevel gate.selector cpl, gate.offset, none, masks⟩
            else (innerStack load tables segment.dpl).map fun stack =>
              ⟨withLevel gate.selector segment.dpl, gate.offset, some stack, masks⟩

end Reading

section Congr

variable {load load' : Nat → BitVec 8} {a b : Nat}

theorem half_congr (same : ∀ i < 2, load (a + i) = load' (b + i)) :
    half load a = half load' b := by
  have low := same 0 (by decide)
  have high := same 1 (by decide)
  rw [Nat.add_zero, Nat.add_zero] at low
  rw [half, half, low, high]

/-- A descriptor is eight bytes; this is about the words in it. -/
theorem halves_congr (same : ∀ i < 8, load (a + i) = load' (b + i)) (i : Nat) (inside : i + 2 ≤ 8) :
    half load (a + i) = half load' (b + i) := by
  apply half_congr
  intro j below
  rw [Nat.add_assoc, Nat.add_assoc]
  exact same (i + j) (by omega)

theorem segmentAt_congr (same : ∀ i < 8, load (a + i) = load' (b + i)) :
    segmentAt load a = segmentAt load' b := by
  have first : half load a = half load' b := halves_congr same 0 (by decide)
  rw [segmentAt, segmentAt, first, halves_congr same 2 (by decide), same 4 (by decide),
    same 5 (by decide), same 6 (by decide), same 7 (by decide)]

theorem gateAt_congr (same : ∀ i < 8, load (a + i) = load' (b + i)) :
    gateAt load a = gateAt load' b := by
  have first : half load a = half load' b := halves_congr same 0 (by decide)
  rw [gateAt, gateAt, first, halves_congr same 2 (by decide), halves_congr same 4 (by decide),
    halves_congr same 6 (by decide)]

end Congr

end Protected
