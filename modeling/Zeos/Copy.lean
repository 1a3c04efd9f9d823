import Zeos.State

set_option autoImplicit false

/-! The copy loops of `utils.c`, over any memory with byte loads and stores. -/

namespace Zeos

universe u

variable {σ : Type u} (load : σ → Nat → Byte) (store : σ → Nat → Byte → σ)

/-- `*q = *p` on `DWord` pointers: four bytes are read, then four are written. -/
def copyWord (p q : Nat) (s : σ) : σ :=
  let b0 := load s p
  let b1 := load s (p + 1)
  let b2 := load s (p + 2)
  let b3 := load s (p + 3)
  store (store (store (store s q b0) (q + 1) b1) (q + 2) b2) (q + 3) b3

/-- The loop `while(size > 0)`. -/
def copyBytes : Nat → Nat → Nat → σ → σ
  | 0, _, _, s => s
  | size + 1, p, q, s => copyBytes size (p + 1) (q + 1) (store s q (load s p))

/-- The loop `while(size > 4)`, then the loop over the remaining bytes. -/
def copyData : Nat → Nat → Nat → σ → σ
  | size + 5, p, q, s => copyData (size + 1) (p + 4) (q + 4) (copyWord load store p q s)
  | size, p, q, s => copyBytes load store size p q s

/-- A copy whose loads read the original source bytes, and whose stores act on
the bytes they name, is one store after another of these bytes. -/
theorem copyData_invariant (inv : Nat → σ → Prop) (start dest : Nat)
    (source : Nat → Byte) (total : Nat)
    (reads : ∀ done i s, inv done s → done ≤ i → i < total → load s (start + i) = source i)
    (writes : ∀ i s, inv i s → i < total → inv (i + 1) (store s (dest + i) (source i))) :
    ∀ size done s, done + size = total → inv done s →
      inv total (copyData load store size (start + done) (dest + done) s) := by
  have bytes : ∀ size done s, done + size = total → inv done s →
      inv total (copyBytes load store size (start + done) (dest + done) s) := by
    intro size
    induction size with
    | zero =>
        intro done s reached holds
        have same : done = total := by omega
        rw [← same]
        exact holds
    | succ size ih =>
        intro done s reached holds
        rw [copyBytes, reads done done s holds (Nat.le_refl done) (by omega)]
        exact ih (done + 1) _ (by omega) (writes done s holds (by omega))
  intro size
  induction size using Nat.strongRecOn with
  | ind size ih =>
      intro done s reached holds
      match size with
      | 0 | 1 | 2 | 3 | 4 => exact bytes _ done s reached holds
      | size + 5 =>
          rw [copyData]
          apply ih (size + 1) (by omega) (done + 4) _ (by omega)
          rw [copyWord, reads done done s holds (Nat.le_refl done) (by omega),
            show start + done + 1 = start + (done + 1) by omega,
            reads done (done + 1) s holds (by omega) (by omega),
            show start + done + 2 = start + (done + 2) by omega,
            reads done (done + 2) s holds (by omega) (by omega),
            show start + done + 3 = start + (done + 3) by omega,
            reads done (done + 3) s holds (by omega) (by omega)]
          have first := writes done s holds (by omega)
          have second := writes (done + 1) _ first (by omega)
          have third := writes (done + 2) _ second (by omega)
          exact writes (done + 3) _ third (by omega)

/-- What no store changes, a copy does not change. -/
theorem copyData_frame {τ : Type u} (read : σ → τ)
    (kept : ∀ s place value, read (store s place value) = read s) :
    ∀ size p q s, read (copyData load store size p q s) = read s := by
  have bytes : ∀ size p q s, read (copyBytes load store size p q s) = read s := by
    intro size
    induction size with
    | zero => exact fun _ _ _ => rfl
    | succ size ih =>
        intro p q s
        rw [copyBytes, ih, kept]
  intro size
  induction size using Nat.strongRecOn with
  | ind size ih =>
      intro p q s
      match size with
      | 0 | 1 | 2 | 3 | 4 => exact bytes _ p q s
      | size + 5 =>
          rw [copyData, ih (size + 1) (by omega), copyWord]
          simp only [kept]

/-! ### Memory with 32-bit addresses -/

abbrev Memory := DWord → Byte

def loadByte (memory : Memory) (addr : Nat) : Byte := memory (BitVec.ofNat 32 addr)

def storeByte (memory : Memory) (addr : Nat) (value : Byte) : Memory :=
  Function.update memory (BitVec.ofNat 32 addr) value

theorem loadByte_storeByte {memory : Memory} {a b : Nat} {value : Byte} (first : a < 2 ^ 32)
    (second : b < 2 ^ 32) : loadByte (storeByte memory a value) b =
      if b = a then value else loadByte memory b := by
  have same : BitVec.ofNat 32 b = BitVec.ofNat 32 a ↔ b = a := by
    constructor
    · intro equal
      have numbers := congrArg BitVec.toNat equal
      rwa [BitVec.toNat_ofNat, BitVec.toNat_ofNat, Nat.mod_eq_of_lt second,
        Nat.mod_eq_of_lt first] at numbers
    · rintro rfl
      rfl
  rw [loadByte, storeByte, Function.update_apply]
  exact if_congr same rfl rfl

/-- `copy_data`. The loops run on an `int`, so a negative size moves nothing. -/
def Memory.copyData (memory : Memory) (start dest size : DWord) : Memory :=
  Zeos.copyData loadByte storeByte size.toInt.toNat start.toNat dest.toNat memory

/-- `copy_from_user`: the same loops. -/
def Memory.copyFromUser (memory : Memory) (start dest size : DWord) : Memory × Int :=
  (Zeos.copyData loadByte storeByte size.toInt.toNat start.toNat dest.toNat memory, 0)

/-- `copy_to_user`: the same loops. -/
def Memory.copyToUser (memory : Memory) (start dest size : DWord) : Memory × Int :=
  (Zeos.copyData loadByte storeByte size.toInt.toNat start.toNat dest.toNat memory, 0)

end Zeos
