import Zeos.Console
import Zeos.Properties.Write
import Zeos.Screen

set_option autoImplicit false

/-! What is on the screen: the last character printed in each cell. -/

namespace Zeos

open Screen (breaks cellOf)
open Terminal (after Misses)

namespace Screen

/-- The cursor is on the screen. -/
def InRange (s : Screen) : Prop := s.x.toNat < numColumns ∧ s.y.toNat < numRows

/-- The number of the cell at the cursor. -/
def place (s : Screen) : Nat := s.y.toNat * numColumns + s.x.toNat

/-- The character in a cell and its attribute. -/
def cell (s : Screen) (i : Nat) : Byte × Byte :=
  (loadByte s.memory (0xb8000 + i * 2), loadByte s.memory (0xb8000 + i * 2 + 1))

variable {s : Screen} {text : List Byte}

theorem InRange.shows (inRange : s.InRange) : s.Shows ⟨s.place, s.cell⟩ :=
  ⟨inRange.1, inRange.2, rfl, fun _ _ => rfl⟩

theorem place_lt (inRange : s.InRange) : s.place < numRows * numColumns :=
  inRange.shows.bounds.2.2.2

/-- The place after a text, in characters of the screen. -/
def placeAfter (s : Screen) (text : List Byte) : Nat :=
  after numColumns numRows breaks s.place (text.map cellOf)

theorem plain_map (plain : 0x0a ∉ text) : ∀ cell ∈ text.map cellOf, breaks cell = false := by
  intro cell member
  obtain ⟨c, inside, rfl⟩ := List.mem_map.mp member
  apply Bool.eq_false_iff.mpr
  intro same
  rw [show c = 0x0a from beq_iff_eq.mp same] at inside
  exact plain inside

theorem misses_map {i place : Nat}
    (spared : ∀ before c rest, text = before ++ c :: rest → c ≠ 0x0a →
      after numColumns numRows breaks place (before.map cellOf) ≠ i) :
    Misses numColumns numRows breaks i place (text.map cellOf) := by
  intro before char rest same plain
  obtain ⟨first, others, whole, firsts, second⟩ := List.map_eq_append_iff.mp same
  obtain ⟨c, last, split, rfl, _⟩ := List.map_eq_cons_iff.mp second
  rw [← firsts]
  apply spared first c last (by rw [whole, split])
  rintro rfl
  cases plain

/-- What a text does to the screen: the cursor stays on it, and no byte out of it is stored
to. Each cell shows the character that was printed last there, or what it showed before. -/
structure Printed (s : Screen) (text : List Byte) (s' : Screen) : Prop where
  inRange : s'.InRange
  place : s'.place = s.placeAfter text
  frame : ∀ a < 2 ^ 32, a < 0xb8000 ∨ 0xb8000 + 4000 ≤ a →
    loadByte s'.memory a = loadByte s.memory a
  kept : ∀ i < numRows * numColumns, (∀ before c rest, text = before ++ c :: rest → c ≠ 0x0a →
    s.placeAfter before ≠ i) → s'.cell i = s.cell i
  last : ∀ before c rest, text = before ++ c :: rest → c ≠ 0x0a →
    (∀ early d late, rest = early ++ d :: late → d ≠ 0x0a →
      s.placeAfter (before ++ c :: early) ≠ s.placeAfter before) →
    s'.cell (s.placeAfter before) = (c, 0x02)

theorem Shows.inRange {t : Terminal (Byte × Byte)} (shows : s.Shows t) : s.InRange :=
  ⟨shows.column, shows.row⟩

/-- The cells of the terminal are those of the screen. -/
theorem Shows.cell_eq {t : Terminal (Byte × Byte)} (shows : s.Shows t) {i : Nat}
    (inside : i < numRows * numColumns) : s.cell i = t.cells i :=
  (shows.cells i inside).symm

theorem place_prints (inRange : s.InRange) (text : List Byte) :
    (s.prints text).place = s.placeAfter text := by
  have shown := (inRange.shows.prints text).1
  have place := @Terminal.place_puts _ numColumns numRows breaks (text.map cellOf)
    ⟨s.place, s.cell⟩
  exact shown.place.symm.trans place

theorem placeAfter_lt (inRange : s.InRange) (text : List Byte) :
    s.placeAfter text < numRows * numColumns := by
  rw [← place_prints inRange text]
  exact place_lt (inRange.shows.prints text).1.inRange

end Screen

open Screen

variable {k : Kernel} {buffer : DWord}

theorem start_inRange (memory : Memory) : (Screen.start memory).InRange :=
  ⟨show 0 < 80 by decide, show 19 < 25 by decide⟩

/-- Any text, on any screen. -/
theorem screen_text {s : Screen} (inRange : s.InRange) (text : List Byte) :
    s.Printed text (s.prints text) := by
  obtain ⟨shown, frame⟩ := inRange.shows.prints text
  constructor
  case inRange => exact shown.inRange
  case place => exact place_prints inRange text
  case frame => exact frame
  case kept =>
    intro i inside spared
    rw [shown.cell_eq inside]
    exact Terminal.cells_of_misses _ ⟨s.place, s.cell⟩ (misses_map spared)
  case last =>
    intro before c rest same plain spared
    rw [shown.cell_eq (placeAfter_lt inRange before), same, List.map_append, List.map_cons]
    apply Terminal.cells_of_last (t := ⟨s.place, s.cell⟩)
    · exact Bool.eq_false_iff.mpr fun broken => plain (beq_iff_eq.mp broken)
    · apply misses_map
      intro early d late whole other
      have apart := spared early d late whole other
      rw [placeAfter, placeAfter, List.map_append, List.map_cons, ← List.singleton_append,
        ← List.append_assoc, Terminal.after_append] at apart
      exact apart

/-- A character on each of two rows. -/
theorem screen_text_two :
    (Screen.start fun _ => 0).Printed [0x48, 0x0a, 0x49]
      ((Screen.start fun _ => 0).prints [0x48, 0x0a, 0x49]) :=
  screen_text (start_inRange _) _

/-- A text without line breaks, from the cursor on. -/
theorem screen_plain {s : Screen} (inRange : s.InRange) {text : List Byte} (plain : 0x0a ∉ text) :
    (s.prints text).place = (s.place + text.length) % 2000 ∧
      ∀ i, (below : i < text.length) → text.length ≤ i + 2000 →
        (s.prints text).cell ((s.place + i) % 2000) = (text[i], 0x02) := by
  obtain ⟨shown, _⟩ := inRange.shows.prints text
  constructor
  · rw [place_prints inRange, placeAfter,
      Terminal.after_plain _ (place_lt inRange) (plain_map plain), List.length_map]
    rfl
  · intro i below few
    have split : text = text.take i ++ text[i] :: text.drop (i + 1) := by
      rw [List.getElem_cons_drop, List.take_append_drop]
    have inside : (s.place + i) % 2000 < numRows * numColumns := Nat.mod_lt _ (by decide)
    have mapped : text.map cellOf =
        (text.take i).map cellOf ++ cellOf text[i] :: (text.drop (i + 1)).map cellOf := by
      rw [← List.map_cons, ← List.map_append, ← split]
    have cells := @Terminal.cells_plain _ numColumns numRows breaks ⟨s.place, s.cell⟩
      (cellOf text[i]) ((text.take i).map cellOf) ((text.drop (i + 1)).map cellOf)
      (place_lt inRange) (mapped ▸ plain_map plain) (by
        rw [List.length_map, List.length_drop]
        show text.length - (i + 1) < 2000
        omega)
    rw [← mapped, List.length_map, List.length_take, Nat.min_eq_left (by omega)] at cells
    rw [shown.cell_eq inside]
    exact cells

/-- What a call of `sys_write` prints. -/
theorem console_sysWrite {size : Int} (running : k.stuck = false) (some : buffer ≠ 0)
    (positive : 0 ≤ size) (chunks : size.toNat ≤ chunkSize ∨ chunkSize ∣ size.toNat)
    (mapped : ∀ i < size.toNat, k.present (buffer + BitVec.ofNat 32 i) = true) :
    (k.sysWrite 1 buffer size).2 = size ∧ (k.sysWrite 1 buffer size).1.console =
      k.console ++ (blockAddrs buffer size.toNat).map k.byteAt := by
  have written := @Kernel.writeLoop_all k size.toNat buffer running
  rw [(movedBytes_exact _).mpr chunks] at written
  rw [sysWrite_eq some positive]
  generalize Kernel.writeLoop size.toNat k buffer size.toNat 0 = result at written ⊢
  cases written with
  | clean _ => exact ⟨rfl, rfl⟩
  | fault addr among missing _ =>
      obtain ⟨i, below, rfl⟩ := List.mem_map.mp among
      rw [mapped i (List.mem_range.mp below)] at missing
      cases missing

/-- The frame of the screen, at `0xb8000`. -/
def screenFrame : Nat := 0xb8

/-- The machine with this screen in its memory. -/
def Kernel.showing (k : Kernel) (s : Screen) : Kernel :=
  let shown := fun offset =>
    if offset < 4000 then loadByte s.memory (0xb8000 + offset) else k.mm.ram screenFrame offset
  { k with mm := { k.mm with ram := Function.update k.mm.ram screenFrame shown } }

/-- Printing changes no byte of a user frame. -/
theorem byteAt_showing {s : Screen} {addr : DWord}
    (user : numPagKernel ≤ (k.mm.mapped (addr.toNat / pageSize)).pbaseAddr) :
    (k.showing s).byteAt addr = k.byteAt addr := by
  have apart : (k.mm.mapped (addr.toNat / pageSize)).pbaseAddr ≠ screenFrame := by
    rw [screenFrame]
    simp only [numPagKernel] at user
    omega
  have kept := Function.update_of_ne apart
    (fun offset => if offset < 4000 then loadByte s.memory (0xb8000 + offset)
      else k.mm.ram screenFrame offset) k.mm.ram
  exact congrFun kept (addr.toNat % pageSize)

/-- What `sys_write` prints of a block in user frames, without line breaks, is on the screen in
full, whatever the screen was: of the last 2000 characters, each is in the next cell from the
cursor on, and the first cell comes after the last. The block is still as it was printed. -/
theorem write_shows {size : Int} (running : k.stuck = false) (some : buffer ≠ 0)
    (positive : 0 ≤ size) (chunks : size.toNat ≤ chunkSize ∨ chunkSize ∣ size.toNat)
    (mapped : ∀ i < size.toNat, k.present (buffer + BitVec.ofNat 32 i) = true)
    (user : ∀ i < size.toNat,
      numPagKernel ≤ (k.mm.mapped ((buffer + BitVec.ofNat 32 i).toNat / pageSize)).pbaseAddr)
    (plain : ∀ i < size.toNat, k.byteAt (buffer + BitVec.ofNat 32 i) ≠ 0x0a) :
    (k.sysWrite 1 buffer size).2 = size ∧
    ∃ text, (k.sysWrite 1 buffer size).1.console = k.console ++ text ∧ text.length = size.toNat ∧
      ∀ s : Screen, s.InRange →
        (s.prints text).place = (s.place + size.toNat) % 2000 ∧
        ∀ i < size.toNat,
          (∀ n, (k.showing (s.prints (text.take n))).byteAt (buffer + BitVec.ofNat 32 i) =
            k.byteAt (buffer + BitVec.ofNat 32 i)) ∧
          (size.toNat ≤ i + 2000 → (s.prints text).cell ((s.place + i) % 2000) =
            (k.byteAt (buffer + BitVec.ofNat 32 i), 0x02)) := by
  obtain ⟨result, console⟩ := console_sysWrite running some positive chunks mapped
  have length : ((blockAddrs buffer size.toNat).map k.byteAt).length = size.toNat := by
    rw [List.length_map, blockAddrs_length]
  have bytes : 0x0a ∉ (blockAddrs buffer size.toNat).map k.byteAt := by
    intro broken
    obtain ⟨addr, among, same⟩ := List.mem_map.mp broken
    obtain ⟨i, below, rfl⟩ := List.mem_map.mp among
    exact plain i (List.mem_range.mp below) same
  refine ⟨result, _, console, length, fun s inRange => ?_⟩
  obtain ⟨place, cells⟩ := screen_plain inRange bytes
  rw [length] at place
  refine ⟨place, fun i below => ⟨fun n => byteAt_showing (user i below), fun few => ?_⟩⟩
  rw [cells i (by omega) (by omega)]
  simp [blockAddrs]

/-- Ten bytes of the data pages at boot, on a screen with the cursor in its last row. -/
theorem write_shows_ten :
    ((Kernel.boot Image.empty).sysWrite 1 0x108000 10).2 = 10 ∧
    ∃ text, ((Kernel.boot Image.empty).sysWrite 1 0x108000 10).1.console =
        (Kernel.boot Image.empty).console ++ text ∧ text.length = (10 : Int).toNat ∧
      (Screen.prints ⟨75, 24, fun _ => 0⟩ text).place = 5 ∧
      (Screen.prints ⟨75, 24, fun _ => 0⟩ text).cell 4 =
        ((Kernel.boot Image.empty).byteAt (0x108000 + BitVec.ofNat 32 9), 0x02) := by
  obtain ⟨result, text, console, length, shown⟩ := @write_shows (Kernel.boot Image.empty) 0x108000
    10 (by decide +kernel) (by decide) (by decide) (Or.inl (by decide)) (by decide +kernel)
    (by decide +kernel) (by decide +kernel)
  obtain ⟨place, cells⟩ := shown ⟨75, 24, fun _ => 0⟩ ⟨by decide, by decide⟩
  exact ⟨result, text, console, length, place, (cells 9 (by decide)).2 (by decide)⟩

end Zeos
