import Mathlib.Data.List.Basic
import Mathlib.Logic.Function.Basic

set_option autoImplicit false

/-! A ring buffer with one index to read from and one to write to, as the
sequence of the values in it. One cell always stays free. -/

namespace RingBuffer

universe u

variable {α : Type u} {capacity start stop : Nat} {cells : Nat → α}

/-- The index after `i`. -/
def next (capacity i : Nat) : Nat := if i + 1 = capacity then 0 else i + 1

/-- The index of the value `i` places behind the first. -/
def slot (capacity start i : Nat) : Nat :=
  if start + i < capacity then start + i else start + i - capacity

/-- The number of values. -/
def span (capacity start stop : Nat) : Nat :=
  if start ≤ stop then stop - start else stop + capacity - start

def contents (capacity : Nat) (cells : Nat → α) (start stop : Nat) : List α :=
  (List.range (span capacity start stop)).map fun i => cells (slot capacity start i)

@[simp] theorem contents_length :
    (contents capacity cells start stop).length = span capacity start stop := by
  simp [contents]

theorem next_lt (inside : start < capacity) : next capacity start < capacity := by
  unfold next
  split <;> omega

theorem contents_self : contents capacity cells start start = [] := by
  simp [contents, span]

theorem span_pos (startIn : start < capacity) (different : start ≠ stop) :
    0 < span capacity start stop := by
  unfold span
  split <;> omega

/-- The buffer is full when the write index would catch up with the read index. -/
theorem full_iff (startIn : start < capacity) (stopIn : stop < capacity) :
    span capacity start stop + 1 = capacity ↔ next capacity stop = start := by
  unfold span next
  split <;> split <;> omega

theorem span_next_stop (startIn : start < capacity) (stopIn : stop < capacity)
    (room : span capacity start stop + 1 < capacity) :
    span capacity start (next capacity stop) = span capacity start stop + 1 := by
  unfold span next at *
  split at room <;> split <;> split <;> omega

theorem span_next_start (startIn : start < capacity) (stopIn : stop < capacity)
    (different : start ≠ stop) :
    span capacity start stop = span capacity (next capacity start) stop + 1 := by
  unfold span next
  split <;> split <;> split <;> omega

theorem contents_push {value : α} (startIn : start < capacity) (stopIn : stop < capacity)
    (room : span capacity start stop + 1 < capacity) :
    contents capacity (Function.update cells stop value) start (next capacity stop) =
      contents capacity cells start stop ++ [value] := by
  have last : slot capacity start (span capacity start stop) = stop := by
    unfold slot span
    split <;> split <;> omega
  have others : ∀ i < span capacity start stop, slot capacity start i ≠ stop := by
    intro i below
    unfold slot
    unfold span at below room
    split at below <;> split <;> omega
  rw [contents, span_next_stop startIn stopIn room, List.range_succ, List.map_append,
    List.map_singleton, last, Function.update_self, contents]
  congr 1
  apply List.map_congr_left
  intro i member
  rw [Function.update_of_ne (others i (List.mem_range.mp member))]

theorem contents_pop (startIn : start < capacity) (stopIn : stop < capacity)
    (different : start ≠ stop) :
    contents capacity cells start stop =
      cells start :: contents capacity cells (next capacity start) stop := by
  have first : slot capacity start 0 = start := by
    unfold slot
    split <;> omega
  have later : ∀ i < span capacity (next capacity start) stop,
      slot capacity start (i + 1) = slot capacity (next capacity start) i := by
    intro i below
    unfold span next at below
    unfold slot next
    split at below <;> split <;> split <;> split at below <;> omega
  rw [contents, span_next_start startIn stopIn different, List.range_succ_eq_map,
    List.map_cons, first, List.map_map, contents]
  congr 1
  apply List.map_congr_left
  intro i member
  rw [Function.comp_apply, Nat.succ_eq_add_one, later i (List.mem_range.mp member)]

end RingBuffer
