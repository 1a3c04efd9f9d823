import Zeos.Contexts
import Zeos.Disk.Loader
import Zeos.Protected
import Zeos.Records

set_option autoImplicit false

/-! The descriptor tables: `interrupt.c`, `setGdt` and `setTSS` of `mm.c`, and the table of
`bootsect.S`. -/

namespace Zeos

/-! ### `types.h`, `segment.h` -/

def highWord (address : DWord) : Word := ((address >>> 16) &&& 0xFFFF).setWidth 16
def lowWord (address : DWord) : Word := (address &&& 0xFFFF).setWidth 16
def midByte (address : DWord) : Byte := ((address >>> 16) &&& 0xFF).setWidth 8
def highByte (address : DWord) : Byte := ((address >>> (16 + 8)) &&& 0xFF).setWidth 8

/-- `__KERNEL_CS`, `__USER_CS`, `__USER_DS`, `KERNEL_TSS`; `__KERNEL_DS` is `kernelDS`. -/
def kernelCS : Word := 0x10
def userCS : Word := 0x23
def userDS : Word := 0x2B
def kernelTss : Word := 0x30

/-- `GDT_START`: where the table of the boot sector lies. -/
def gdtStart : Nat := 0x901b3

def initialEflags : DWord := 0x00000200

def userEsp : DWord := BitVec.ofNat 32 (lUserStart + (numPagCode + numPagData) * 0x1000 - 16)

/-- `IDT_ENTRIES`. -/
def idtEntries : Nat := 256

def halfBytes (value : Word) : List Byte := [value.extractLsb' 0 8, value.extractLsb' 8 8]

/-- The table in `bootsect.S`. -/
def gdt : List Byte :=
  [0x00, 0x00, 0x00, 0x00, 0x00, 0x00, 0x00, 0x00,  -- dummy
    0x00, 0x00, 0x00, 0x00, 0x00, 0x00, 0x00, 0x00,  -- not used
    0xFF, 0xFF, 0x00, 0x00, 0x00, 0x9a, 0xcf, 0x00,  -- `__KERNEL_CS`
    0xFF, 0xFF, 0x00, 0x00, 0x00, 0x92, 0xcf, 0x00,  -- `__KERNEL_DS`
    0xFF, 0xFF, 0x00, 0x00, 0x00, 0xfa, 0xcf, 0x00,  -- `__USER_CS`
    0xFF, 0xFF, 0x00, 0x00, 0x00, 0xf2, 0xcf, 0x00,  -- `__USER_DS`
    0x68, 0x00, 0x00, 0x00, 0x00, 0x89, 0x00, 0x00]  -- the task state segment

/-- Where the linker puts the tables and the handlers. -/
structure GatePlaces where
  idt : Nat
  tss : Nat
  pfHandler : DWord
  clockHandler : DWord
  keyboardHandler : DWord
  systemCallHandler : DWord
  idtFits : idt + 8 * idtEntries ≤ 2 ^ 32
  tssFits : tss + 104 ≤ 2 ^ 32
  idtApart : idt + 8 * idtEntries ≤ tss ∨ tss + 104 ≤ idt
  gdtApart : (idt + 8 * idtEntries ≤ gdtStart ∨ gdtStart + gdt.length ≤ idt) ∧
    (tss + 104 ≤ gdtStart ∨ gdtStart + gdt.length ≤ tss)

/-! ### `interrupt.c` -/

/-- The fields of a `Gate`. -/
def gateFields (handler : DWord) (flags : Word) : List Field :=
  [⟨0, halfBytes (lowWord handler)⟩, ⟨2, halfBytes kernelCS⟩, ⟨4, halfBytes flags⟩,
    ⟨6, halfBytes (highWord handler)⟩]

/-- The assignments to `idt[vector]`. -/
def setGate (idt vector : Nat) (handler : DWord) (flags : Word) (memory : Memory) : Memory :=
  storeFields memory (idt + 8 * vector) (gateFields handler flags)

def setInterruptHandler (idt vector : Nat) (handler maxAccessibleFromPL : DWord) :
    Memory → Memory :=
  setGate idt vector handler ((maxAccessibleFromPL <<< 13).setWidth 16 ||| 0x8E00)

/-- An interrupt gate too: so the system calls are not interrupted. -/
def setTrapHandler (idt vector : Nat) (handler maxAccessibleFromPL : DWord) : Memory → Memory :=
  setGate idt vector handler ((maxAccessibleFromPL <<< 13).setWidth 16 ||| 0x8E00)

/-- Memory, and the system registers. -/
structure System where
  memory : Memory
  tables : Protected.Tables

/-- `set_idt_reg` and `set_gdt_reg`. -/
def setIdtReg (base limit : Nat) (s : System) : System :=
  { s with tables := { s.tables with idtBase := base, idtLimit := limit } }

def setGdtReg (base limit : Nat) (s : System) : System :=
  { s with tables := { s.tables with gdtBase := base, gdtLimit := limit } }

/-- `setIdt`; `setHandlers` is `set_handlers` of the library. -/
def setIdt (places : GatePlaces) (setHandlers : Memory → Memory) (s : System) : System :=
  let memory := setHandlers s.memory
  let memory := setInterruptHandler places.idt 14 places.pfHandler 0 memory
  let memory := setInterruptHandler places.idt 32 places.clockHandler 0 memory
  let memory := setInterruptHandler places.idt 33 places.keyboardHandler 0 memory
  let memory := setTrapHandler places.idt 0x80 places.systemCallHandler 3 memory
  setIdtReg places.idt (idtEntries * 8 - 1) { s with memory := memory }

/-! ### `mm.c` -/

/-- The fields of a `Descriptor` that `setGdt` assigns. -/
def baseFields (base : DWord) : List Field :=
  [⟨2, halfBytes (lowWord base)⟩, ⟨4, [midByte base]⟩, ⟨7, [highByte base]⟩]

def setGdt (places : GatePlaces) (s : System) : System :=
  setGdtReg gdtStart (256 * 8)
    { s with
      memory := storeFields s.memory (gdtStart + 8 * (kernelTss >>> 3).toNat)
        (baseFields (BitVec.ofNat 32 places.tss)) }

/-- `set_task_reg`: the processor loads the base and the limit of an available segment and marks
it busy; `none` if it faults. -/
def setTaskReg (selector : Word) (s : System) : Option System :=
  match Protected.selected (loadByte s.memory) s.tables selector with
  | none => none
  | some segment =>
      if segment.ordinary = false ∧ segment.kind = 0x9 ∧ segment.present = true then
        let place := s.tables.gdtBase + 8 * (selector >>> 3).toNat + 5
        some
          { memory := storeByte s.memory place (loadByte s.memory place ||| 0x02)
            tables := { s.tables with tssBase := segment.base.toNat, tssLimit := segment.last } }
      else none

/-- The fields that `setTSS` assigns. -/
def tssFields (initialEsp : DWord) : List Field :=
  [⟨0, halfBytes 0⟩, ⟨4, dwordBytes initialEsp⟩, ⟨8, halfBytes (BitVec.ofNat 16 kernelDS)⟩,
    ⟨12, dwordBytes 0⟩, ⟨16, halfBytes 0⟩, ⟨20, dwordBytes 0⟩, ⟨24, halfBytes 0⟩,
    ⟨28, dwordBytes 0⟩, ⟨32, dwordBytes 0⟩, ⟨36, dwordBytes initialEflags⟩,
    ⟨40, dwordBytes 0⟩, ⟨44, dwordBytes 0⟩, ⟨48, dwordBytes 0⟩, ⟨52, dwordBytes 0⟩,
    ⟨56, dwordBytes userEsp⟩, ⟨60, dwordBytes userEsp⟩, ⟨64, dwordBytes 0⟩, ⟨68, dwordBytes 0⟩,
    ⟨72, halfBytes userDS⟩, ⟨76, halfBytes userCS⟩, ⟨80, halfBytes userDS⟩,
    ⟨84, halfBytes userDS⟩, ⟨88, halfBytes 0⟩, ⟨92, halfBytes 0⟩, ⟨96, halfBytes kernelTss⟩,
    ⟨100, halfBytes 0⟩, ⟨102, halfBytes 0⟩]

/-- The assignments of `setTSS`; the stack is `INITIAL_ESP`, the end of that of `tasks[1]`. -/
def fillTSS (places : GatePlaces) (link : Link) (s : System) : System :=
  let initialEsp := BitVec.ofNat 32 (link.stack 1 kernelStackSize)
  { s with memory := storeFields s.memory places.tss (tssFields initialEsp) }

def setTSS (places : GatePlaces) (link : Link) (s : System) : Option System :=
  setTaskReg kernelTss (fillTSS places link s)

/-- What `main` does first. -/
def setTables (places : GatePlaces) (link : Link) (setHandlers : Memory → Memory) (s : System) :
    Option System :=
  setTSS places link (setIdt places setHandlers (setGdt places s))

/-! ### Halves and bytes -/

theorem highWord_eq (address : DWord) : highWord address = address.extractLsb' 16 16 := by
  rw [highWord, BitVec.setWidth_and, BitVec.setWidth_ushiftRight_eq_extractLsb]
  exact BitVec.and_allOnes

theorem lowWord_eq (address : DWord) : lowWord address = address.extractLsb' 0 16 := by
  rw [lowWord, BitVec.setWidth_and, BitVec.setWidth_eq_extractLsb' (by decide)]
  exact BitVec.and_allOnes

theorem midByte_eq (address : DWord) : midByte address = address.extractLsb' 16 8 := by
  rw [midByte, BitVec.setWidth_and, BitVec.setWidth_ushiftRight_eq_extractLsb]
  exact BitVec.and_allOnes

theorem highByte_eq (address : DWord) : highByte address = address.extractLsb' 24 8 := by
  rw [highByte, BitVec.setWidth_and, BitVec.setWidth_ushiftRight_eq_extractLsb]
  exact BitVec.and_allOnes

theorem words_join (address : DWord) : highWord address ++ lowWord address = address := by
  rw [highWord_eq, lowWord_eq]
  exact @BitVec.extractLsb'_append_extractLsb' 16 16 address

theorem bytes_join (address : DWord) :
    highByte address ++ midByte address ++ lowWord address = address := by
  have upper : highByte address ++ midByte address = highWord address := by
    rw [highWord_eq, midByte_eq, highByte_eq]
    exact @BitVec.extractLsb'_append_extractLsb'_eq_extractLsb' 32 24 16 8 8 address rfl
  rw [upper]
  exact words_join address

theorem half_of_stored {memory : Memory} {addr : Nat} {value : Word}
    (stored : Stored memory addr (halfBytes value)) :
    Protected.half (loadByte memory) addr = value := by
  have low : loadByte memory addr = value.extractLsb' 0 8 := stored 0 Nat.zero_lt_two
  have high : loadByte memory (addr + 1) = value.extractLsb' 8 8 := stored 1 Nat.one_lt_two
  rw [Protected.half, low, high]
  exact @BitVec.extractLsb'_append_extractLsb' 8 8 value

end Zeos
