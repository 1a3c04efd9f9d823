import Zeos.Space.Layout

set_option autoImplicit false

/-! The reference machine: every process has memory of its own, which a fork copies. -/

namespace Zeos

/-- The heap pages of every process, and what is in its pages. -/
structure Eager where
  heap : TaskId → Option Nat
  bytes : TaskId → Nat → Nat → Byte

namespace Eager

/-- The data pages of a process, and its heap pages. -/
def Owns (e : Eager) (task : TaskId) (page : Nat) : Prop :=
  page ∈ (e.heap task).elim [] Mm.ownPages

instance {e : Eager} {task : TaskId} {page : Nat} : Decidable (e.Owns task page) :=
  inferInstanceAs (Decidable (_ ∈ _))

/-- What a process reads at an address. -/
def read (e : Eager) (task : TaskId) (addr : DWord) : Option Byte :=
  if e.Owns task (addr.toNat / pageSize) then
    some (e.bytes task (addr.toNat / pageSize) (addr.toNat % pageSize))
  else none

/-- The child gets a copy of every page of its parent. -/
def fork (e : Eager) (parent child : TaskId) : Eager where
  heap := Function.update e.heap child (e.heap parent)
  bytes := Function.update e.bytes child (e.bytes parent)

def exit (e : Eager) (task : TaskId) : Eager :=
  { e with heap := Function.update e.heap task none }

/-- A write never faults. -/
def write (e : Eager) (task : TaskId) (addr : DWord) (value : Byte) : Eager :=
  { e with bytes := Function.update e.bytes task (Function.update (e.bytes task)
            (addr.toNat / pageSize) (Function.update (e.bytes task (addr.toNat / pageSize))
              (addr.toNat % pageSize) value)) }

/-- The heap gets another size; `fresh` is what is in the pages that are new. -/
def resize (e : Eager) (task : TaskId) (count : Nat) (fresh : Nat → Nat → Byte) : Eager where
  heap := Function.update e.heap task (some count)
  bytes := Function.update e.bytes task fun page =>
    if e.Owns task page then e.bytes task page else fresh page

variable {e : Eager} {task : TaskId} {page count : Nat}

theorem owns_iff (live : e.heap task = some count) :
    e.Owns task page ↔ page ∈ Mm.ownPages count := by
  rw [Owns, live]
  rfl

theorem bytes_write {t : TaskId} {offset : Nat} {addr : DWord} {value : Byte} :
    (e.write task addr value).bytes t page offset =
      if t = task ∧ page = addr.toNat / pageSize ∧ offset = addr.toNat % pageSize then value
      else e.bytes t page offset := by
  simp only [write, Function.update_apply]
  by_cases mine : t = task
  · by_cases here : page = addr.toNat / pageSize
    · by_cases there : offset = addr.toNat % pageSize
      · simp [mine, here, there]
      · simp [mine, here, there]
    · simp [mine, here]
  · simp [mine]

end Eager

end Zeos
