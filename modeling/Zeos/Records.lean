import Zeos.Copy

set_option autoImplicit false

/-! The fields of C structs in memory. -/

namespace Zeos

/-- A field that is assigned: where it starts in its struct, and its bytes. -/
structure Field where
  offset : Nat
  bytes : List Byte

def storeBytes (memory : Memory) (addr : Nat) : List Byte → Memory
  | [] => memory
  | byte :: rest => storeBytes (storeByte memory addr byte) (addr + 1) rest

/-- Assignments to fields of the struct at an address, in order. -/
def storeFields (memory : Memory) (addr : Nat) (fields : List Field) : Memory :=
  fields.foldl (fun memory field => storeBytes memory (addr + field.offset) field.bytes) memory

/-- The bytes that lie at an address. -/
def Stored (memory : Memory) (addr : Nat) (bytes : List Byte) : Prop :=
  ∀ i (inside : i < bytes.length), loadByte memory (addr + i) = bytes[i]

/-- The two fields share no byte. -/
def Field.Apart (first second : Field) : Prop :=
  first.offset + first.bytes.length ≤ second.offset ∨
    second.offset + second.bytes.length ≤ first.offset

variable {memory : Memory} {addr base : Nat} {bytes : List Byte} {fields : List Field}

theorem storeBytes_outside : ∀ {memory : Memory} {addr : Nat}, addr + bytes.length ≤ 2 ^ 32 →
    ∀ {b : Nat}, b < 2 ^ 32 → b < addr ∨ addr + bytes.length ≤ b →
      loadByte (storeBytes memory addr bytes) b = loadByte memory b := by
  induction bytes with
  | nil => exact fun _ _ _ _ => rfl
  | cons byte rest ih =>
      intro memory addr fits b bound outside
      rw [List.length_cons] at fits outside
      rw [storeBytes, ih (by omega) bound (by omega), loadByte_storeByte (by omega) bound,
        if_neg (by omega)]

theorem storeBytes_stored : ∀ {memory : Memory} {addr : Nat}, addr + bytes.length ≤ 2 ^ 32 →
    Stored (storeBytes memory addr bytes) addr bytes := by
  induction bytes with
  | nil => exact fun _ i inside => absurd inside (Nat.not_lt_zero i)
  | cons byte rest ih =>
      intro memory addr fits i inside
      rw [List.length_cons] at fits inside
      rw [storeBytes]
      cases i with
      | zero =>
          rw [storeBytes_outside (by omega) (by omega) (by omega),
            loadByte_storeByte (by omega) (by omega), if_pos (Nat.add_zero addr)]
          rfl
      | succ i =>
          rw [← Nat.add_assoc, Nat.add_right_comm, ih (by omega) i (by omega)]
          rfl

/-- What lies elsewhere stays. -/
theorem storeFields_outside (fits : ∀ field ∈ fields, base + field.offset + field.bytes.length ≤ 2 ^ 32)
    {b : Nat} (bound : b < 2 ^ 32)
    (outside : ∀ field ∈ fields, b < base + field.offset ∨
      base + field.offset + field.bytes.length ≤ b) :
    loadByte (storeFields memory base fields) b = loadByte memory b := by
  induction fields generalizing memory with
  | nil => rfl
  | cons field rest ih =>
      rw [storeFields, List.foldl_cons, ← storeFields,
        ih (fun other member => fits other (List.mem_cons_of_mem _ member))
          (fun other member => outside other (List.mem_cons_of_mem _ member)),
        storeBytes_outside (fits field List.mem_cons_self) bound
          (outside field List.mem_cons_self)]

/-- Every field has what was assigned to it. -/
theorem storeFields_stored (fits : ∀ field ∈ fields, base + field.offset + field.bytes.length ≤ 2 ^ 32)
    (apart : fields.Pairwise Field.Apart) : ∀ field ∈ fields,
      Stored (storeFields memory base fields) (base + field.offset) field.bytes := by
  induction fields generalizing memory with
  | nil => simp
  | cons field rest ih =>
      obtain ⟨fromFirst, others⟩ := List.pairwise_cons.mp apart
      have fitsRest : ∀ other ∈ rest, base + other.offset + other.bytes.length ≤ 2 ^ 32 :=
        fun other member => fits other (List.mem_cons_of_mem _ member)
      intro other member
      rw [storeFields, List.foldl_cons, ← storeFields]
      rcases List.mem_cons.mp member with rfl | later
      · intro i inside
        have room := fits other List.mem_cons_self
        rw [storeFields_outside fitsRest (by omega), storeBytes_stored room i inside]
        intro field member
        rcases fromFirst field member with before | after
        · omega
        · omega
      · exact ih fitsRest others other later

end Zeos
