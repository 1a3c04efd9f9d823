import Mathlib.Logic.Function.Basic

set_option autoImplicit false

/-! A terminal of rows and columns: text goes from cell to cell, and from the last one to the
first. -/

universe u

/-- The cells, row after row, and the one that is written next. -/
structure Terminal (α : Type u) where
  place : Nat
  cells : Nat → α

namespace Terminal

variable {α : Type u} (columns rows : Nat) (breaks : α → Bool)

/-- The place after a character; a line break goes to the next row. -/
def advance (place : Nat) (char : α) : Nat :=
  if breaks char then (place / columns + 1) % rows * columns
  else (place + 1) % (rows * columns)

def put (t : Terminal α) (char : α) : Terminal α where
  place := advance columns rows breaks t.place char
  cells := if breaks char then t.cells else Function.update t.cells t.place char

def puts (t : Terminal α) (text : List α) : Terminal α := text.foldl (put columns rows breaks) t

/-- Where a text ends. -/
def after (place : Nat) (text : List α) : Nat := text.foldl (advance columns rows breaks) place

variable {columns rows breaks} {t : Terminal α} {char : α} {text : List α} {cell : Nat}

theorem place_puts (text : List α) : ∀ t : Terminal α,
    (t.puts columns rows breaks text).place = after columns rows breaks t.place text := by
  induction text with
  | nil => exact fun _ => rfl
  | cons char text ih => exact fun t => ih (t.put columns rows breaks char)

theorem after_append {place : Nat} {before rest : List α} :
    after columns rows breaks place (before ++ rest) =
      after columns rows breaks (after columns rows breaks place before) rest :=
  List.foldl_append

theorem after_concat {place : Nat} {before : List α} :
    after columns rows breaks place (before ++ [char]) =
      advance columns rows breaks (after columns rows breaks place before) char :=
  after_append

/-- Nothing in the text lands in the cell. -/
def Misses (columns rows : Nat) (breaks : α → Bool) (cell place : Nat) (text : List α) : Prop :=
  ∀ before char rest, text = before ++ char :: rest → breaks char = false →
    after columns rows breaks place before ≠ cell

theorem Misses.tail {place : Nat}
    (misses : Misses columns rows breaks cell place (char :: text)) :
    Misses columns rows breaks cell (advance columns rows breaks place char) text := by
  intro before last rest same plain
  exact misses (char :: before) last rest (by rw [same]; rfl) plain

/-- A cell where nothing lands keeps what it shows. -/
theorem cells_of_misses (text : List α) : ∀ t : Terminal α,
    Misses columns rows breaks cell t.place text →
    (t.puts columns rows breaks text).cells cell = t.cells cell := by
  induction text with
  | nil => exact fun _ _ => rfl
  | cons char text ih =>
      intro t misses
      have rest := ih (t.put columns rows breaks char) misses.tail
      show ((t.put columns rows breaks char).puts columns rows breaks text).cells cell = _
      rw [rest, put]
      dsimp only
      split
      · rfl
      · rename_i plain
        apply Function.update_of_ne
        exact Ne.symm (misses [] char text rfl (Bool.eq_false_iff.mpr plain))

/-- A cell shows the last character that landed in it. -/
theorem cells_of_last {before rest : List α} (plain : breaks char = false)
    (last : Misses columns rows breaks (after columns rows breaks t.place before)
      (after columns rows breaks t.place (before ++ [char])) rest) :
    (t.puts columns rows breaks (before ++ char :: rest)).cells
      (after columns rows breaks t.place before) = char := by
  have split : t.puts columns rows breaks (before ++ char :: rest) =
      ((t.puts columns rows breaks before).put columns rows breaks char).puts columns rows breaks
        rest := by
    rw [puts, List.foldl_append, List.foldl_cons]
    rfl
  have there := @place_puts α columns rows breaks before t
  have next : ((t.puts columns rows breaks before).put columns rows breaks char).place =
      after columns rows breaks t.place (before ++ [char]) := by
    rw [put, there, after_concat]
  rw [split, cells_of_misses rest _ (next ▸ last), put, plain, there]
  exact Function.update_self ..

/-! ### Text without line breaks -/

/-- The text goes on from cell to cell. -/
theorem after_plain (text : List α) : ∀ {place : Nat}, place < rows * columns →
    (∀ char ∈ text, breaks char = false) →
    after columns rows breaks place text = (place + text.length) % (rows * columns) := by
  induction text with
  | nil => exact fun inside _ => (Nat.mod_eq_of_lt inside).symm
  | cons char text ih =>
      intro place inside plain
      have some : 0 < rows * columns := Nat.zero_lt_of_lt inside
      have step : advance columns rows breaks place char = (place + 1) % (rows * columns) := by
        rw [advance, plain char List.mem_cons_self]
        rfl
      show after columns rows breaks (advance columns rows breaks place char) text = _
      rw [step, ih (Nat.mod_lt _ some) fun c member => plain c (List.mem_cons_of_mem _ member),
        Nat.mod_add_mod, List.length_cons, Nat.add_right_comm, Nat.add_assoc]

/-- Less than a screenful of text does not come to a cell again. -/
theorem misses_plain {place count : Nat} (inside : place < rows * columns)
    (plain : ∀ char ∈ text, breaks char = false) (some : 0 < count)
    (few : count + text.length ≤ rows * columns) :
    Misses columns rows breaks place ((place + count) % (rows * columns)) text := by
  intro before char rest same _
  have length := congrArg List.length same
  rw [List.length_append, List.length_cons] at length
  have total : 0 < rows * columns := Nat.zero_lt_of_lt inside
  rw [after_plain before (Nat.mod_lt _ total) fun c member => plain c (by
    rw [same]
    exact List.mem_append_left _ member), Nat.mod_add_mod]
  generalize rows * columns = size at *
  intro back
  by_cases short : place + count + before.length < size
  · rw [Nat.mod_eq_of_lt short] at back
    omega
  · rw [Nat.mod_eq_sub_mod (by omega), Nat.mod_eq_of_lt (by omega)] at back
    omega

/-- Of a text without line breaks the last screenful is on the screen. -/
theorem cells_plain {before rest : List α} (inside : t.place < rows * columns)
    (plain : ∀ c ∈ before ++ char :: rest, breaks c = false)
    (few : rest.length < rows * columns) :
    (t.puts columns rows breaks (before ++ char :: rest)).cells
      ((t.place + before.length) % (rows * columns)) = char := by
  have total : 0 < rows * columns := Nat.zero_lt_of_lt inside
  have first := @after_plain α columns rows breaks before t.place inside fun c member =>
    plain c (List.mem_append_left _ member)
  have own : breaks char = false :=
    plain char (List.mem_append_right _ List.mem_cons_self)
  have next : after columns rows breaks t.place (before ++ [char]) =
      ((t.place + before.length) % (rows * columns) + 1) % (rows * columns) := by
    rw [after_concat, first, advance, own]
    rfl
  rw [← first]
  apply cells_of_last own
  rw [next, first]
  apply misses_plain (Nat.mod_lt _ total) _ Nat.one_pos (by omega)
  exact fun c member => plain c (List.mem_append_right _ (List.mem_cons_of_mem _ member))

end Terminal
