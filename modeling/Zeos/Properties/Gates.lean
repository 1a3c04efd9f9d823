import Mathlib.Tactic.IntervalCases
import Zeos.Gates

set_option autoImplicit false

/-! The ways into the kernel: what the processor does with the tables that `main` sets up. -/

namespace Zeos

open Protected

variable {places : GatePlaces} {link : Link} {s s' : System} {memory memory' : Memory}

/-- The gates that `setIdt` makes: vector, handler, and the level that `int` needs. -/
def GatePlaces.gates (places : GatePlaces) : List (Nat × DWord × Nat) :=
  [(14, places.pfHandler, 0), (32, places.clockHandler, 0), (33, places.keyboardHandler, 0),
    (0x80, places.systemCallHandler, 3)]

/-- `set_handlers` changes nothing but the interrupt table. -/
def OnlyIdt (places : GatePlaces) (setHandlers : Memory → Memory) : Prop :=
  ∀ memory b, b < 2 ^ 32 → b < places.idt ∨ places.idt + 8 * idtEntries ≤ b →
    loadByte (setHandlers memory) b = loadByte memory b

/-- The bytes of a range are the same. -/
def SameBytes (memory memory' : Memory) (addr length : Nat) : Prop :=
  ∀ i < length, loadByte memory' (addr + i) = loadByte memory (addr + i)

/-- The tables are the same, but for `tss.esp0` and what the processor does not read. -/
structure SameTables (places : GatePlaces) (memory memory' : Memory) : Prop where
  idt : SameBytes memory memory' places.idt (8 * idtEntries)
  gdt : SameBytes memory memory' gdtStart gdt.length
  ss0 : SameBytes memory memory' (places.tss + 8) 2

/-- What the processor finds in the tables. -/
structure Installed (places : GatePlaces) (memory : Memory) : Prop where
  gates : ∀ gate ∈ places.gates, gateAt (loadByte memory) (places.idt + 8 * gate.1) =
    ⟨gate.2.1, kernelCS, 0x0e, gate.2.2, true⟩
  code : segmentAt (loadByte memory) (gdtStart + 16) = ⟨0, 0xFFFFF, true, 0xA, true, 0, true⟩
  data : segmentAt (loadByte memory) (gdtStart + 24) = ⟨0, 0xFFFFF, true, 0x2, true, 0, true⟩
  ss0 : half (loadByte memory) (places.tss + 8) = BitVec.ofNat 16 kernelDS

/-! ### Reading what was stored -/

/-- A descriptor of a table that is known. -/
theorem segmentAt_stored {addr : Nat} {bytes : List Byte} (stored : Stored memory addr bytes)
    (i : Nat) (inside : i + 8 ≤ bytes.length) : segmentAt (loadByte memory) (addr + i) =
      segmentAt (fun place => bytes.getD place 0) i := by
  apply segmentAt_congr
  intro j below
  have within : i + j < bytes.length := by omega
  rw [Nat.add_assoc, stored (i + j) within]
  exact List.getElem_eq_getD 0

theorem SameBytes.trans {memory'' : Memory} {addr length : Nat}
    (first : SameBytes memory memory' addr length)
    (second : SameBytes memory' memory'' addr length) : SameBytes memory memory'' addr length :=
  fun i inside => (second i inside).trans (first i inside)

theorem SameBytes.part {addr length : Nat} (same : SameBytes memory memory' addr length)
    (start count : Nat) (inside : start + count ≤ length) :
    SameBytes memory memory' (addr + start) count := by
  intro i below
  rw [Nat.add_assoc]
  exact same (start + i) (by omega)

theorem gate_inside : ∀ gate ∈ places.gates, 8 * gate.1 + 8 ≤ 8 * idtEntries := by
  simp [GatePlaces.gates, idtEntries]

/-- Later memory with the same tables. -/
theorem Installed.kept (installed : Installed places memory)
    (same : SameTables places memory memory') : Installed places memory' where
  gates gate member := by
    exact (gateAt_congr (same.idt.part _ 8 (gate_inside gate member))).trans
      (installed.gates gate member)
  code := (segmentAt_congr (same.gdt.part 16 8 (by decide))).trans installed.code
  data := (segmentAt_congr (same.gdt.part 24 8 (by decide))).trans installed.data
  ss0 := (half_congr same.ss0).trans installed.ss0

/-- A gate reads as it was set. -/
theorem gateAt_setGate {idt vector : Nat} {handler : DWord} {flags : Word}
    (fits : idt + 8 * vector + 8 ≤ 2 ^ 32) :
    gateAt (loadByte (setGate idt vector handler flags memory)) (idt + 8 * vector) =
      ⟨handler, kernelCS, flags.extractLsb' 8 5, (flags.extractLsb' 13 2).toNat,
        flags.getLsbD 15⟩ := by
  have stored : ∀ field ∈ gateFields handler flags,
      Stored (setGate idt vector handler flags memory) (idt + 8 * vector + field.offset)
        field.bytes := by
    apply storeFields_stored
    · simp only [gateFields, List.forall_mem_cons, halfBytes, List.length_cons, List.length_nil]
      simp only [List.not_mem_nil, false_implies, implies_true, and_true]
      omega
    · simp [gateFields, Field.Apart, halfBytes]
  simp only [gateFields, List.forall_mem_cons, Nat.add_zero] at stored
  obtain ⟨low, selector, access, high, -⟩ := stored
  rw [gateAt, half_of_stored low, half_of_stored selector, half_of_stored access,
    half_of_stored high, words_join]

/-! ### What the assignments leave alone -/

/-- Fields of a struct of some size, away from the range. -/
theorem storeFields_same {fields : List Field} {base size addr length : Nat}
    (within : ∀ field ∈ fields, field.offset + field.bytes.length ≤ size)
    (fits : base + size ≤ 2 ^ 32) (bound : addr + length ≤ 2 ^ 32)
    (apart : base + size ≤ addr ∨ addr + length ≤ base) :
    SameBytes memory (storeFields memory base fields) addr length := by
  intro i inside
  apply storeFields_outside
  · intro field member
    have := within field member
    omega
  · omega
  · intro field member
    have := within field member
    omega

theorem gateFields_within (handler : DWord) (flags : Word) :
    ∀ field ∈ gateFields handler flags, field.offset + field.bytes.length ≤ 8 := by
  simp [gateFields, halfBytes]

theorem tssFields_within (initialEsp : DWord) :
    ∀ field ∈ tssFields initialEsp, field.offset + field.bytes.length ≤ 104 := by
  simp [tssFields, halfBytes, dwordBytes]

theorem tssFields_apart (initialEsp : DWord) : (tssFields initialEsp).Pairwise Field.Apart := by
  -- where the fields lie does not depend on what they hold
  have spans : ((tssFields initialEsp).map fun field => (field.offset, field.bytes.length)).Pairwise
      fun first second => first.1 + first.2 ≤ second.1 ∨ second.1 + second.2 ≤ first.1 := by
    change List.Pairwise _ ((tssFields 0).map fun field => (field.offset, field.bytes.length))
    decide
  rw [List.pairwise_map] at spans
  exact spans

theorem baseFields_within (base : DWord) :
    ∀ field ∈ baseFields base, field.offset + field.bytes.length ≤ 8 := by
  simp [baseFields, halfBytes]

/-! ### `setIdt` -/

/-- The interrupt gate of a handler, for a level that exists. -/
theorem setInterruptHandler_gate {idt vector level : Nat} {handler : DWord} (known : level < 4)
    (fits : idt + 8 * vector + 8 ≤ 2 ^ 32) :
    gateAt (loadByte (setInterruptHandler idt vector handler (BitVec.ofNat 32 level) memory))
        (idt + 8 * vector) = ⟨handler, kernelCS, 0x0e, level, true⟩ := by
  rw [setInterruptHandler, gateAt_setGate fits]
  interval_cases level <;> rfl

/-- Setting gates one after the other. -/
def setGates (idt : Nat) (gates : List (Nat × DWord × Nat)) (memory : Memory) : Memory :=
  gates.foldl (fun memory gate =>
    setInterruptHandler idt gate.1 gate.2.1 (BitVec.ofNat 32 gate.2.2) memory) memory

theorem setGates_outside {idt addr length : Nat} {gates : List (Nat × DWord × Nat)}
    (fits : ∀ gate ∈ gates, idt + 8 * gate.1 + 8 ≤ 2 ^ 32) (bound : addr + length ≤ 2 ^ 32)
    (apart : ∀ gate ∈ gates, idt + 8 * gate.1 + 8 ≤ addr ∨ addr + length ≤ idt + 8 * gate.1) :
    ∀ {memory : Memory}, SameBytes memory (setGates idt gates memory) addr length := by
  induction gates with
  | nil => exact fun _ _ => rfl
  | cons gate rest ih =>
      intro memory
      have first : SameBytes memory (setInterruptHandler idt gate.1 gate.2.1
          (BitVec.ofNat 32 gate.2.2) memory) addr length :=
        storeFields_same (gateFields_within _ _) (fits gate List.mem_cons_self) bound
          (apart gate List.mem_cons_self)
      exact first.trans (ih (fun other member => fits other (List.mem_cons_of_mem _ member))
        fun other member => apart other (List.mem_cons_of_mem _ member))

/-- Each of the gates is there at the end. -/
theorem setGates_gates {idt : Nat} {gates : List (Nat × DWord × Nat)}
    (fits : ∀ gate ∈ gates, idt + 8 * gate.1 + 8 ≤ 2 ^ 32) (levels : ∀ gate ∈ gates, gate.2.2 < 4)
    (distinct : gates.Pairwise fun first second => first.1 ≠ second.1) :
    ∀ {memory : Memory}, ∀ gate ∈ gates,
      gateAt (loadByte (setGates idt gates memory)) (idt + 8 * gate.1) =
        ⟨gate.2.1, kernelCS, 0x0e, gate.2.2, true⟩ := by
  induction gates with
  | nil => simp
  | cons first rest ih =>
      obtain ⟨fromFirst, others⟩ := List.pairwise_cons.mp distinct
      have fitsRest : ∀ gate ∈ rest, idt + 8 * gate.1 + 8 ≤ 2 ^ 32 :=
        fun gate member => fits gate (List.mem_cons_of_mem _ member)
      intro memory gate member
      rcases List.mem_cons.mp member with rfl | later
      · have room := fits gate List.mem_cons_self
        have same : SameBytes (setInterruptHandler idt gate.1 gate.2.1
            (BitVec.ofNat 32 gate.2.2) memory) _ (idt + 8 * gate.1) 8 :=
          setGates_outside fitsRest room fun gate member => by
            have := fromFirst gate member
            omega
        exact (gateAt_congr same).trans
          (setInterruptHandler_gate (levels gate List.mem_cons_self) room)
      · exact ih fitsRest (fun gate member => levels gate (List.mem_cons_of_mem _ member)) others
          gate later

/-! ### The tables of `main` -/

theorem gates_fit : ∀ gate ∈ places.gates, places.idt + 8 * gate.1 + 8 ≤ 2 ^ 32 := by
  intro gate member
  have fits := places.idtFits
  have := gate_inside gate member
  omega

theorem setIdt_memory {setHandlers : Memory → Memory} : (setIdt places setHandlers s).memory =
    setGates places.idt places.gates (setHandlers s.memory) := by
  simp only [setIdt, setIdtReg, setTrapHandler, setInterruptHandler, setGates, GatePlaces.gates,
    List.foldl_cons, List.foldl_nil]
  rfl

theorem setIdt_gates {setHandlers : Memory → Memory} : ∀ gate ∈ places.gates,
    gateAt (loadByte (setIdt places setHandlers s).memory) (places.idt + 8 * gate.1) =
      ⟨gate.2.1, kernelCS, 0x0e, gate.2.2, true⟩ := by
  rw [setIdt_memory]
  apply setGates_gates gates_fit
  · simp [GatePlaces.gates]
  · simp [GatePlaces.gates]

/-- A byte that is stored away from the range. -/
theorem storeByte_same {place addr length : Nat} {value : Byte} (fits : place < 2 ^ 32)
    (bound : addr + length ≤ 2 ^ 32) (apart : place < addr ∨ addr + length ≤ place) :
    SameBytes memory (storeByte memory place value) addr length := by
  intro i inside
  rw [loadByte_storeByte fits (by omega), if_neg (by omega)]

/-- The state segment as `setGdt` describes it. -/
theorem segmentAt_tss (boot : Stored memory gdtStart gdt) (base : DWord) :
    segmentAt (loadByte (storeFields memory (gdtStart + 48) (baseFields base))) (gdtStart + 48) =
      ⟨base, 104, false, 0x9, false, 0, true⟩ := by
  have fits : gdtStart + 48 + 8 ≤ 2 ^ 32 := by decide
  have within := baseFields_within base
  have stored : ∀ field ∈ baseFields base, Stored
      (storeFields memory (gdtStart + 48) (baseFields base)) (gdtStart + 48 + field.offset)
      field.bytes := by
    apply storeFields_stored
    · intro field member
      have := within field member
      omega
    · simp [baseFields, Field.Apart, halfBytes]
  have low := stored ⟨2, halfBytes (lowWord base)⟩ (by simp [baseFields])
  have byte4 : loadByte _ (gdtStart + 48 + 4) = midByte base :=
    stored ⟨4, [midByte base]⟩ (by simp [baseFields]) 0 Nat.zero_lt_one
  have byte7 : loadByte _ (gdtStart + 48 + 7) = highByte base :=
    stored ⟨7, [highByte base]⟩ (by simp [baseFields]) 0 Nat.zero_lt_one
  -- the bytes that come from the boot sector
  have other (i : Nat) (below : 48 + i < gdt.length) (apart : ∀ field ∈ baseFields base,
      i < field.offset ∨ field.offset + field.bytes.length ≤ i) :
      loadByte (storeFields memory (gdtStart + 48) (baseFields base)) (gdtStart + 48 + i) =
        gdt[48 + i] := by
    have inside : 48 + i < 56 := below
    rw [← boot (48 + i) below, ← Nat.add_assoc]
    apply storeFields_outside
    · intro field member
      have := within field member
      omega
    · omega
    · intro field member
      have := apart field member
      omega
  have byte0 : loadByte _ (gdtStart + 48) = 0x68 := other 0 (by decide) (by simp [baseFields])
  have byte1 : loadByte _ (gdtStart + 48 + 1) = 0 := other 1 (by decide) (by simp [baseFields])
  have byte5 : loadByte _ (gdtStart + 48 + 5) = 0x89 :=
    other 5 (by decide) (by simp [baseFields, halfBytes])
  have byte6 : loadByte _ (gdtStart + 48 + 6) = 0 :=
    other 6 (by decide) (by simp [baseFields, halfBytes])
  rw [segmentAt, half_of_stored low, half, byte0, byte1, byte4, byte5, byte6, byte7, bytes_join]
  rfl

theorem setTaskReg_eq {selector : Word} {segment : Segment}
    (found : selected (loadByte s.memory) s.tables selector = some segment)
    (available : segment.ordinary = false ∧ segment.kind = 0x9 ∧ segment.present = true) :
    let place := s.tables.gdtBase + 8 * (selector >>> 3).toNat + 5
    setTaskReg selector s = some
      { memory := storeByte s.memory place (loadByte s.memory place ||| 0x02)
        tables := { s.tables with tssBase := segment.base.toNat, tssLimit := segment.last } } := by
  rw [setTaskReg, found]
  exact if_pos available

theorem setGdt_same : SameBytes s.memory (setGdt places s).memory gdtStart 48 :=
  storeFields_same (baseFields_within _) (by decide) (by decide) (.inr (le_refl _))

theorem setIdt_same {setHandlers : Memory → Memory} (library : OnlyIdt places setHandlers) :
    SameBytes s.memory (setIdt places setHandlers s).memory gdtStart gdt.length := by
  have below := places.gdtApart.1
  have table : gdt.length = 56 := rfl
  have start : gdtStart = 0x901b3 := rfl
  have handlers : SameBytes s.memory (setHandlers s.memory) gdtStart gdt.length := by
    intro i inside
    apply library
    · omega
    · omega
  rw [setIdt_memory]
  refine handlers.trans (setGates_outside gates_fit (by decide) fun gate member => ?_)
  have := gate_inside gate member
  omega

theorem fillTSS_same {addr length : Nat} (bound : addr + length ≤ 2 ^ 32)
    (apart : places.tss + 104 ≤ addr ∨ addr + length ≤ places.tss) :
    SameBytes s.memory (fillTSS places link s).memory addr length :=
  storeFields_same (tssFields_within _) places.tssFits bound apart

theorem fillTSS_ss0 :
    half (loadByte (fillTSS places link s).memory) (places.tss + 8) = BitVec.ofNat 16 kernelDS := by
  have fits := places.tssFits
  have within := tssFields_within (BitVec.ofNat 32 (link.stack 1 kernelStackSize))
  apply half_of_stored
  refine storeFields_stored ?_ (tssFields_apart _) ⟨8, halfBytes (BitVec.ofNat 16 kernelDS)⟩
    (by simp [tssFields])
  intro field member
  have := within field member
  omega

/-- What `set_task_reg` finds. -/
def filled (places : GatePlaces) (link : Link) (setHandlers : Memory → Memory) (s : System) :
    System :=
  fillTSS places link (setIdt places setHandlers (setGdt places s))

theorem filled_gdt (link : Link) {setHandlers : Memory → Memory}
    (library : OnlyIdt places setHandlers) :
    SameBytes (setGdt places s).memory (filled places link setHandlers s).memory gdtStart
      gdt.length := by
  have bound : gdtStart + gdt.length ≤ 2 ^ 32 := by decide
  exact (setIdt_same library).trans (fillTSS_same bound places.gdtApart.2)

theorem filled_front (link : Link) {setHandlers : Memory → Memory}
    (library : OnlyIdt places setHandlers) :
    SameBytes s.memory (filled places link setHandlers s).memory gdtStart 48 := by
  have front : 0 + 48 ≤ gdt.length := by decide
  exact setGdt_same.trans ((filled_gdt link library).part 0 48 front)

theorem filled_tss (link : Link) {setHandlers : Memory → Memory}
    (library : OnlyIdt places setHandlers) (boot : Stored s.memory gdtStart gdt) :
    selected (loadByte (filled places link setHandlers s).memory)
      (filled places link setHandlers s).tables kernelTss =
        some ⟨BitVec.ofNat 32 places.tss, 104, false, 0x9, false, 0, true⟩ := by
  have inside : 48 + 8 ≤ gdt.length := by decide
  have kept := (@filled_gdt places s link _ library).part 48 8 inside
  have state := (segmentAt_congr kept).trans (segmentAt_tss boot _)
  rw [← state]
  rfl

theorem filled_gates (link : Link) (setHandlers : Memory → Memory) : ∀ gate ∈ places.gates,
    SameBytes (setIdt places setHandlers (setGdt places s)).memory
      (filled places link setHandlers s).memory (places.idt + 8 * gate.1) 8 := by
  intro gate member
  have inside := gate_inside gate member
  have fits := places.idtFits
  have apart := places.idtApart
  exact fillTSS_same (by omega) (by omega)

/-- What `setTables` leaves, with the registers that it loads. -/
theorem setTables_installed (link : Link) {setHandlers : Memory → Memory}
    (library : OnlyIdt places setHandlers) (boot : Stored s.memory gdtStart gdt) :
    ∃ s', setTables places link setHandlers s = some s' ∧ Installed places s'.memory ∧
      s'.tables = ⟨places.idt, idtEntries * 8 - 1, gdtStart, 256 * 8, places.tss, 104⟩ := by
  obtain ⟨idtBelow, tssBelow⟩ := places.gdtApart
  have idtFits := places.idtFits
  have tssFits := places.tssFits
  have table : gdt.length = 56 := rfl
  have start : gdtStart = 0x901b3 := rfl
  refine ⟨_, setTaskReg_eq (filled_tss link library boot) ⟨rfl, rfl, rfl⟩, ?_, ?_⟩
  · -- the processor marks the descriptor of the task as busy
    have busy {addr length : Nat} (bound : addr + length ≤ 2 ^ 32)
        (apart : gdtStart + 53 < addr ∨ addr + length ≤ gdtStart + 53) :=
      @storeByte_same (filled places link setHandlers s).memory (gdtStart + 53) addr length
        (loadByte (filled places link setHandlers s).memory (gdtStart + 53) ||| 0x02)
        (by decide) bound apart
    have front := (@filled_front places s link _ library).trans
      (busy (by decide) (by decide))
    constructor
    · intro gate member
      have inside := gate_inside gate member
      have kept := (filled_gates link setHandlers gate member).trans
        (busy (by omega) (by omega))
      exact (gateAt_congr kept).trans (setIdt_gates gate member)
    · exact (segmentAt_congr (front.part 16 8 (by decide))).trans
        (segmentAt_stored boot 16 (by decide))
    · exact (segmentAt_congr (front.part 24 8 (by decide))).trans
        (segmentAt_stored boot 24 (by decide))
    · exact (half_congr (busy (by omega) (by omega))).trans fillTSS_ss0
  · have base : (BitVec.ofNat 32 places.tss).toNat = places.tss := by
      rw [BitVec.toNat_ofNat, Nat.mod_eq_of_lt (by omega)]
    rw [base]
    rfl

/-! ### The processor with these tables -/

/-- The registers that `setTables` loads. -/
def GatePlaces.loaded (places : GatePlaces) : Tables :=
  ⟨places.idt, idtEntries * 8 - 1, gdtStart, 256 * 8, places.tss, 104⟩

theorem selected_code (load : Nat → Byte) :
    selected load places.loaded kernelCS = some (segmentAt load (gdtStart + 16)) := rfl

theorem selected_data (load : Nat → Byte) :
    selected load places.loaded (BitVec.ofNat 16 kernelDS) =
      some (segmentAt load (gdtStart + 24)) := rfl

/-- The stack of the kernel: `tss.ss0` and `tss.esp0`. -/
theorem Installed.innerStack (installed : Installed places memory) :
    Protected.innerStack (loadByte memory) places.loaded 0 =
      .ok (BitVec.ofNat 16 kernelDS, word (loadByte memory) (places.tss + 4)) := by
  have ss : half (loadByte memory) (places.loaded.tssBase + (8 * 0 + 4) + 4) =
      BitVec.ofNat 16 kernelDS := installed.ss0
  have room : ¬ places.loaded.tssLimit < 8 * 0 + 4 + 5 := by
    simp [GatePlaces.loaded]
  simp only [Protected.innerStack, if_neg room, ss, selected_data, installed.data]
  rfl

/-- The gates that `setIdt` wrote are inside the limit it loaded. -/
theorem GatePlaces.within_limit (places : GatePlaces) :
    ∀ gate ∈ places.gates, ¬ places.loaded.idtLimit < 8 * gate.1 + 7 := by
  intro gate member
  have inside := gate_inside gate member
  have entries : idtEntries = 256 := rfl
  simp only [GatePlaces.loaded]
  omega

theorem Installed.found (installed : Installed places memory) : ∀ gate ∈ places.gates,
    gateAt (loadByte memory) (places.loaded.idtBase + 8 * gate.1) =
      ⟨gate.2.1, kernelCS, 0x0e, gate.2.2, true⟩ :=
  fun gate member => installed.gates gate member

/-- An interrupt that its gate lets through, at the level of the user or of the kernel. -/
theorem Installed.enters (installed : Installed places memory) {gate : Nat × DWord × Nat}
    (member : gate ∈ places.gates) {software : Bool} {cpl : Nat}
    (allowed : software = true → cpl ≤ gate.2.2) :
    deliver (loadByte memory) places.loaded software cpl gate.1 =
      .ok ⟨withLevel kernelCS 0, gate.2.1, if cpl = 0 then none else
        some (BitVec.ofNat 16 kernelDS, word (loadByte memory) (places.tss + 4)), true⟩ := by
  have found := installed.found gate member
  have limit := places.within_limit gate member
  have passes : ¬ (software = true ∧ gate.2.2 < cpl) := by
    rintro ⟨soft, below⟩
    have := allowed soft
    omega
  have reaches : ¬ (Segment.last ⟨0, 0xFFFFF, true, 0xA, true, 0, true⟩ < gate.2.1.toNat) := by
    have last : Segment.last ⟨0, 0xFFFFF, true, 0xA, true, 0, true⟩ = 0xFFFFFFFF := rfl
    have := gate.2.1.isLt
    omega
  simp only [deliver, if_neg limit, found, if_neg passes, selected_code, installed.code,
    if_neg reaches]
  have code : ¬ (Segment.isCode ⟨0, 0xFFFFF, true, 0xA, true, 0, true⟩ = false ∨ cpl < 0) := by
    rintro (data | less)
    · exact absurd data (by decide)
    · exact absurd less (Nat.not_lt_zero _)
  have plain : Segment.conforming ⟨0, 0xFFFFF, true, 0xA, true, 0, true⟩ = false := rfl
  rw [if_neg (by simp), if_neg (by simp), if_neg code, if_neg (by simp)]
  by_cases idle : cpl = 0
  · subst idle
    rw [if_pos (.inr rfl), if_pos rfl]
    rfl
  · have leaves : ¬ (Segment.conforming ⟨0, 0xFFFFF, true, 0xA, true, 0, true⟩ = true ∨
        0 = cpl) := by
      rw [plain]
      rintro (conforms | same)
      · exact absurd conforms (by decide)
      · exact idle same.symm
    rw [if_neg leaves, installed.innerStack, if_neg idle]
    rfl

/-- A gate that the user may not use. -/
theorem Installed.refuses (installed : Installed places memory) {gate : Nat × DWord × Nat}
    (member : gate ∈ places.gates) {cpl : Nat} (below : gate.2.2 < cpl) :
    deliver (loadByte memory) places.loaded true cpl gate.1 = .error .generalProtection := by
  have found := installed.found gate member
  have limit := places.within_limit gate member
  simp only [deliver, if_neg limit, found]
  rw [if_neg (by simp), if_pos ⟨trivial, below⟩]

/-- What `main` sets up from the table of the boot sector, whatever else is in memory and wherever
the linker puts things: from user mode a page fault, a clock tick, a key and `int $0x80` enter
their handlers in ring 0, on the stack that `tss.esp0` names at that time and with interrupts
masked; in the idle loop the first three keep the stack; and the user cannot call them. -/
theorem kernel_entered (places : GatePlaces) (link : Link) {setHandlers : Memory → Memory}
    (library : OnlyIdt places setHandlers) {s : System} (boot : Stored s.memory gdtStart gdt) :
    ∃ s', setTables places link setHandlers s = some s' ∧
      ∀ memory, SameTables places s'.memory memory → ∀ gate ∈ places.gates,
        let user := Except.ok ⟨kernelCS, gate.2.1, some (BitVec.ofNat 16 kernelDS,
          word (loadByte memory) (places.tss + 4)), true⟩
        deliver (loadByte memory) s'.tables false 3 gate.1 = user ∧
          deliver (loadByte memory) s'.tables false 0 gate.1 =
            .ok ⟨kernelCS, gate.2.1, none, true⟩ ∧
          deliver (loadByte memory) s'.tables true 3 gate.1 =
            if gate.1 = 0x80 then user else .error .generalProtection := by
  obtain ⟨s', done, installed, registers⟩ := setTables_installed link library boot
  refine ⟨s', done, ?_⟩
  intro memory same gate member user
  have now := installed.kept same
  have levels : (gate.1 = 0x80 → gate.2.2 = 3) ∧ (gate.1 ≠ 0x80 → gate.2.2 = 0) := by
    revert gate
    simp [GatePlaces.gates]
  rw [registers]
  refine ⟨now.enters member (by simp), now.enters member (by simp), ?_⟩
  split
  · rename_i call
    have level := levels.1 call
    exact now.enters member fun _ => by omega
  · rename_i other
    have level := levels.2 other
    exact now.refuses member (by omega)

/-- The tables and handlers at some places. -/
def somePlaces : GatePlaces where
  idt := 0x20000
  tss := 0x21000
  pfHandler := 0x11000
  clockHandler := 0x12000
  keyboardHandler := 0x13000
  systemCallHandler := 0x14000
  idtFits := by decide
  tssFits := by decide
  idtApart := by decide
  gdtApart := by decide

/-- Only the table of the boot sector is in memory. -/
def onlyGdt : System where
  memory := fun addr => gdt.getD (addr.toNat - gdtStart) 0
  tables := ⟨0, 0, 0, 0, 0, 0⟩

theorem kernel_entered_flat :
    let link : Link := ⟨32, 1, 2, 3, 4, 5, 6, 7, 8, 9, 10, by decide, by decide⟩
    ∃ s', setTables somePlaces link id onlyGdt = some s' ∧
      deliver (loadByte s'.memory) s'.tables true 3 0x80 = .ok ⟨kernelCS, 0x14000,
        some (BitVec.ofNat 16 kernelDS, word (loadByte s'.memory) (somePlaces.tss + 4)), true⟩ ∧
      deliver (loadByte s'.memory) s'.tables true 3 14 = .error .generalProtection := by
  intro link
  have library : OnlyIdt somePlaces id := fun _ _ _ _ => rfl
  have boot : Stored onlyGdt.memory gdtStart gdt := by
    unfold Stored
    decide +kernel
  obtain ⟨s', done, delivered⟩ := kernel_entered somePlaces link library boot
  have same : SameTables somePlaces s'.memory s'.memory :=
    ⟨fun _ _ => rfl, fun _ _ => rfl, fun _ _ => rfl⟩
  have call := (delivered s'.memory same (0x80, 0x14000, 3) (by decide)).2.2
  have fault := (delivered s'.memory same (14, 0x11000, 0) (by decide)).2.2
  rw [if_pos rfl] at call
  rw [if_neg (by decide)] at fault
  exact ⟨s', done, call, fault⟩

end Zeos
