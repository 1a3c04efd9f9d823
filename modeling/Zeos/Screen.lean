import Zeos.Copy
import Zeos.Terminal

set_option autoImplicit false

/-! The screen: `io.c`, and `sys_write_console` of `devices.c`. -/

namespace Zeos

def numColumns : Nat := 80

def numRows : Nat := 25

/-- The variables `x` and `y`, and memory. -/
structure Screen where
  x : Byte
  y : Byte
  memory : Memory

namespace Screen

/-- Before the first character. -/
def start (memory : Memory) : Screen := ⟨0, 19, memory⟩

/-- `screen`, where the next character goes. -/
def addr (s : Screen) : Nat := 0xb8000 + (s.y.toNat * numColumns + s.x.toNat) * 2

def nextRow (s : Screen) : Byte := BitVec.ofNat 8 ((s.y.toNat + 1) % numRows)

/-- `ch`: the character, and its colour. -/
def ch (c : Byte) : BitVec 16 := (c.signExtend 16 &&& 0x00FF) ||| 0x0200

/-- `movw`. -/
def storeHalf (memory : Memory) (addr : Nat) (value : BitVec 16) : Memory :=
  storeByte (storeByte memory addr (value.extractLsb' 0 8)) (addr + 1) (value.extractLsb' 8 8)

def printc (s : Screen) (c : Byte) : Screen :=
  if c = 0x0a then { s with x := 0, y := s.nextRow }
  else
    let x := s.x + 1
    let memory := storeHalf s.memory s.addr (ch c)
    if x.toNat ≥ numColumns then { x := 0, y := s.nextRow, memory }
    else { x, y := s.y, memory }

/-- The cursor is put back. -/
def printcXy (s : Screen) (mx my c : Byte) : Screen :=
  { printc { s with x := mx, y := my } c with x := s.x, y := s.y }

/-- `printk`, of the characters before the NUL, and `sys_write_console`. -/
def prints (s : Screen) (text : List Byte) : Screen := text.foldl printc s

/-! ### The screen is a terminal -/

/-- `'\n'`. -/
def breaks (cell : Byte × Byte) : Bool := cell.1 == 0x0a

/-- A character, in its colour. -/
def cellOf (c : Byte) : Byte × Byte := (c, 0x02)

/-- The screen has its cursor in the terminal's place and shows its cells. -/
structure Shows (s : Screen) (t : Terminal (Byte × Byte)) : Prop where
  column : s.x.toNat < numColumns
  row : s.y.toNat < numRows
  place : t.place = s.y.toNat * numColumns + s.x.toNat
  cells : ∀ cell < numRows * numColumns, t.cells cell =
    (loadByte s.memory (0xb8000 + cell * 2), loadByte s.memory (0xb8000 + cell * 2 + 1))

variable {s : Screen} {t : Terminal (Byte × Byte)} {c : Byte}

theorem ch_low : (ch c).extractLsb' 0 8 = c := by
  revert c
  decide +kernel

theorem ch_high : (ch c).extractLsb' 8 8 = 0x02 := by
  revert c
  decide +kernel

/-- Both bytes of a cell are stored, and no others. -/
theorem loadByte_storeHalf {memory : Memory} {a b : Nat} (first : a + 1 < 2 ^ 32)
    (second : b < 2 ^ 32) : loadByte (storeHalf memory a (ch c)) b =
      if b = a then c else if b = a + 1 then 0x02 else loadByte memory b := by
  rw [storeHalf, ch_low, ch_high, loadByte_storeByte first second,
    loadByte_storeByte (by omega) second]
  by_cases low : b = a
  · rw [if_neg (by omega), if_pos low, if_pos low]
  · rw [if_neg low, if_neg low]

/-- The bounds, as numbers. -/
theorem Shows.bounds (shows : s.Shows t) : s.x.toNat < 80 ∧ s.y.toNat < 25 ∧
    t.place = s.y.toNat * 80 + s.x.toNat ∧ t.place < 2000 := by
  have column : s.x.toNat < 80 := shows.column
  have row : s.y.toNat < 25 := shows.row
  have place : t.place = s.y.toNat * 80 + s.x.toNat := shows.place
  exact ⟨column, row, place, by omega⟩

theorem Shows.addr_eq (shows : s.Shows t) : s.addr = 0xb8000 + t.place * 2 := by
  rw [addr, shows.place]

theorem breaks_cellOf (c : Byte) : breaks (cellOf c) = true ↔ c = 0x0a := beq_iff_eq

theorem nextRow_toNat : s.nextRow.toNat = (s.y.toNat + 1) % 25 := by
  show (s.y.toNat + 1) % 25 % 256 = (s.y.toNat + 1) % 25
  omega

/-- The cursor after a character. -/
theorem Shows.cursor (shows : s.Shows t) (c : Byte) :
    (s.printc c).x.toNat < numColumns ∧ (s.printc c).y.toNat < numRows ∧
      Terminal.advance numColumns numRows breaks t.place (cellOf c) =
        (s.printc c).y.toNat * numColumns + (s.printc c).x.toNat := by
  obtain ⟨column, row, place, inside⟩ := shows.bounds
  have low := @nextRow_toNat s
  have zero : (0 : Byte).toNat = 0 := rfl
  rw [Screen.printc, Terminal.advance]
  by_cases newline : c = 0x0a
  · have broken := (breaks_cellOf c).mpr newline
    rw [if_pos newline, if_pos broken]
    show (0 : Byte).toNat < 80 ∧ s.nextRow.toNat < 25 ∧
      (t.place / 80 + 1) % 25 * 80 = s.nextRow.toNat * 80 + (0 : Byte).toNat
    omega
  · have plain := mt (breaks_cellOf c).mp newline
    have next : (s.x + 1).toNat = s.x.toNat + 1 := by
      rw [BitVec.toNat_add]
      exact Nat.mod_eq_of_lt (show s.x.toNat + 1 < 2 ^ 8 by omega)
    rw [if_neg newline, if_neg plain]
    dsimp only
    split
    · rename_i last
      rw [next] at last
      change s.x.toNat + 1 ≥ 80 at last
      show (0 : Byte).toNat < 80 ∧ s.nextRow.toNat < 25 ∧
        (t.place + 1) % 2000 = s.nextRow.toNat * 80 + (0 : Byte).toNat
      omega
    · rename_i more
      rw [next] at more
      change ¬ s.x.toNat + 1 ≥ 80 at more
      show (s.x + 1).toNat < 80 ∧ s.y.toNat < 25 ∧
        (t.place + 1) % 2000 = s.y.toNat * 80 + (s.x + 1).toNat
      omega

theorem memory_printc (c : Byte) : (s.printc c).memory =
    if c = 0x0a then s.memory else storeHalf s.memory s.addr (ch c) := by
  unfold Screen.printc
  split
  · rfl
  · dsimp only
    split <;> rfl

/-- A printed character goes to the terminal. -/
theorem Shows.printc (shows : s.Shows t) (c : Byte) :
    (s.printc c).Shows (t.put numColumns numRows breaks (cellOf c)) := by
  obtain ⟨column, row, place⟩ := shows.cursor c
  refine ⟨column, row, place, ?_⟩
  intro cell inside
  change cell < 2000 at inside
  obtain ⟨_, _, _, within⟩ := shows.bounds
  rw [Terminal.put, memory_printc]
  by_cases newline : c = 0x0a
  · have broken := (breaks_cellOf c).mpr newline
    rw [if_pos newline, if_pos broken]
    exact shows.cells cell inside
  · have plain := mt (breaks_cellOf c).mp newline
    rw [if_neg newline, if_neg plain, shows.addr_eq]
    dsimp only
    rw [Function.update_apply,
      loadByte_storeHalf (by omega) (by omega), loadByte_storeHalf (by omega) (by omega)]
    by_cases here : cell = t.place
    · rw [if_pos here, if_pos (by omega), if_neg (by omega), if_pos (by omega), cellOf]
    · rw [if_neg here, if_neg (by omega), if_neg (by omega), if_neg (by omega), if_neg (by omega)]
      exact shows.cells cell inside

/-- Nothing is stored out of the 4000 bytes of the screen. -/
theorem Shows.frame (shows : s.Shows t) (c : Byte) {a : Nat} (bounded : a < 2 ^ 32)
    (outside : a < 0xb8000 ∨ 0xb8000 + 4000 ≤ a) :
    loadByte (s.printc c).memory a = loadByte s.memory a := by
  obtain ⟨_, _, _, within⟩ := shows.bounds
  rw [memory_printc]
  split
  · rfl
  · rw [shows.addr_eq, loadByte_storeHalf (by omega) bounded, if_neg (by omega),
      if_neg (by omega)]

theorem Shows.prints (text : List Byte) : ∀ {s : Screen} {t : Terminal (Byte × Byte)},
    s.Shows t → (s.prints text).Shows (t.puts numColumns numRows breaks (text.map cellOf)) ∧
      ∀ a < 2 ^ 32, a < 0xb8000 ∨ 0xb8000 + 4000 ≤ a →
        loadByte (s.prints text).memory a = loadByte s.memory a := by
  induction text with
  | nil => exact fun shows => ⟨shows, fun _ _ _ => rfl⟩
  | cons c text ih =>
      intro s t shows
      obtain ⟨shown, kept⟩ := ih (shows.printc c)
      refine ⟨shown, fun a bounded outside => ?_⟩
      exact (kept a bounded outside).trans (shows.frame c bounded outside)

/-- A character at a place; the cursor stays where it was. -/
theorem Shows.printcXy (shows : s.Shows t) {mx my : Byte} (column : mx.toNat < numColumns)
    (row : my.toNat < numRows) (c : Byte) :
    (s.printcXy mx my c).Shows { t with
      cells := if breaks (cellOf c) then t.cells
        else Function.update t.cells (my.toNat * numColumns + mx.toNat) (cellOf c) } := by
  have moved : Shows { s with x := mx, y := my }
      ⟨my.toNat * numColumns + mx.toNat, t.cells⟩ := ⟨column, row, rfl, shows.cells⟩
  exact ⟨shows.column, shows.row, shows.place, (moved.printc c).cells⟩

end Screen

end Zeos
