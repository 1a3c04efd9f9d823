import Zeos.Copy

set_option autoImplicit false

/-! The copy loops move exactly the bytes they are asked for. -/

namespace Zeos

variable {memory memory' : Memory} {start dest size : DWord}

/-- The `count` bytes from `dest` on are those that were at `start`; the others are left. -/
structure Copied (memory memory' : Memory) (start dest : DWord) (count : Nat) : Prop where
  bytes : ∀ i < count, memory' (dest + BitVec.ofNat 32 i) = memory (start + BitVec.ofNat 32 i)
  others : ∀ addr, (∀ i < count, addr ≠ dest + BitVec.ofNat 32 i) → memory' addr = memory addr

/-- Neither range passes the end of the address space, and no byte is overwritten before
it is read. -/
structure Copyable (start dest : DWord) (count : Nat) : Prop where
  source : start.toNat + count ≤ 2 ^ 32
  room : dest.toNat + count ≤ 2 ^ 32
  order : start.toNat + count ≤ dest.toNat ∨ dest.toNat + count ≤ start.toNat ∨
    dest.toNat ≤ start.toNat

theorem ofNat_toNat_add (addr : DWord) (i : Nat) :
    BitVec.ofNat 32 (addr.toNat + i) = addr + BitVec.ofNat 32 i := by
  rw [BitVec.ofNat_add, BitVec.ofNat_toNat, BitVec.setWidth_eq]

/-- Two addresses of a range that does not wrap. -/
theorem place_injective {addr : DWord} {count i j : Nat} (inside : addr.toNat + count ≤ 2 ^ 32)
    (first : i < count) (second : j < count)
    (same : addr + BitVec.ofNat 32 i = addr + BitVec.ofNat 32 j) : i = j := by
  have equal := congrArg BitVec.toNat same
  rw [← ofNat_toNat_add, ← ofNat_toNat_add, BitVec.toNat_ofNat, BitVec.toNat_ofNat,
    Nat.mod_eq_of_lt (by omega), Nat.mod_eq_of_lt (by omega)] at equal
  omega

/-- A source byte that is still to be read has not been overwritten. -/
theorem Copyable.unwritten {count : Nat} (copyable : Copyable start dest count) {done i : Nat}
    (later : done ≤ i) (below : i < count) :
    ∀ j < done, start + BitVec.ofNat 32 i ≠ dest + BitVec.ofNat 32 j := by
  obtain ⟨source, room, order⟩ := copyable
  intro j before same
  have equal := congrArg BitVec.toNat same
  rw [← ofNat_toNat_add, ← ofNat_toNat_add, BitVec.toNat_ofNat, BitVec.toNat_ofNat,
    Nat.mod_eq_of_lt (by omega), Nat.mod_eq_of_lt (by omega)] at equal
  omega

/-- The two loops, on any range. -/
theorem Copyable.copied {count : Nat} (copyable : Copyable start dest count) :
    Copied memory (copyData loadByte storeByte count start.toNat dest.toNat memory) start dest
      count := by
  have reads : ∀ done i s, Copied memory s start dest done → done ≤ i → i < count →
      loadByte s (start.toNat + i) = memory (start + BitVec.ofNat 32 i) := by
    intro done i s copied later below
    rw [loadByte, ofNat_toNat_add]
    exact copied.others _ (copyable.unwritten later below)
  have writes : ∀ i s, Copied memory s start dest i → i < count → Copied memory
      (storeByte s (dest.toNat + i) (memory (start + BitVec.ofNat 32 i))) start dest (i + 1) := by
    intro i s copied below
    rw [storeByte, ofNat_toNat_add]
    constructor
    · intro j before
      by_cases last : j = i
      · rw [last, Function.update_self]
      · rw [Function.update_of_ne, copied.bytes j (by omega)]
        intro same
        exact last (place_injective copyable.room (by omega) below same)
    · intro addr out
      rw [Function.update_of_ne (out i (by omega))]
      apply copied.others
      intro j before
      exact out j (by omega)
  have nothing : Copied memory memory start dest 0 :=
    ⟨fun _ below => absurd below (Nat.not_lt_zero _), fun _ _ => rfl⟩
  exact copyData_invariant loadByte storeByte (fun done s => Copied memory s start dest done)
    start.toNat dest.toNat (fun i => memory (start + BitVec.ofNat 32 i)) count reads writes count 0
    memory (Nat.zero_add count) nothing

/-- `copy_data`, `copy_from_user` and `copy_to_user` copy `size` bytes and write no other
byte; they write nothing when `size` is not positive. -/
theorem copies_exact (memory : Memory) (start dest size : DWord)
    (copyable : Copyable start dest size.toInt.toNat) :
    Copied memory (memory.copyData start dest size) start dest size.toInt.toNat ∧
    Copied memory (memory.copyFromUser start dest size).1 start dest size.toInt.toNat ∧
    Copied memory (memory.copyToUser start dest size).1 start dest size.toInt.toNat ∧
    (size.toInt ≤ 0 → memory.copyData start dest size = memory ∧
      (memory.copyFromUser start dest size).1 = memory ∧
      (memory.copyToUser start dest size).1 = memory) := by
  have copied := @Copyable.copied memory start dest size.toInt.toNat copyable
  refine ⟨copied, copied, copied, ?_⟩
  intro negative
  have none : size.toInt.toNat = 0 := Int.toNat_of_nonpos negative
  have still : copyData loadByte storeByte size.toInt.toNat start.toNat dest.toNat memory =
      memory := by
    rw [none]
    rfl
  exact ⟨still, still, still⟩

/-- Eleven bytes are moved down by two. -/
theorem copies_exact_down :
    let memory : Memory := fun addr => addr.setWidth 8
    Copied memory (memory.copyData 0x2002 0x2000 11) 0x2002 0x2000 11 :=
  (copies_exact (fun addr => addr.setWidth 8) 0x2002 0x2000 11
    ⟨by decide, by decide, by decide⟩).1

end Zeos
