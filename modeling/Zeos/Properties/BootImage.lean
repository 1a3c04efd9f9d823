import Zeos.Disk.Build
import Zeos.Disk.Loader
import Zeos.Space.Boot

set_option autoImplicit false

/-! From the files to the memory that the user program starts in: `build`, the boot sector
and the move in `main` of `system.c`. -/

namespace Zeos

/-- `KERNEL_START`. -/
def kernelStart : Nat := 0x10000

/-- `usr_main`, which is `PH_USER_START`. -/
def usrMain : DWord := 0x100000

namespace Mm

def peekWord (m : Mm) (addr : Nat) : DWord :=
  m.peek (addr + 3) ++ m.peek (addr + 2) ++ m.peek (addr + 1) ++ m.peek addr

/-- May ring 0 load, or store, `count` bytes from `start` on? -/
def readable (m : Mm) (start count : Nat) : Bool :=
  (List.range count).all fun i => (m.mapped ((start + i) / pageSize)).present

def writable (m : Mm) (start count : Nat) : Bool :=
  (List.range count).all fun i => m.kernelWritable ((start + i) / pageSize)

end Mm

/-- The move of the user program in `main`, with paging on: the sizes are at `KERNEL_START`.
`none` is a page fault. -/
def moveUser (m : Mm) : Option Mm :=
  let start := BitVec.ofNat 32 kernelStart + m.peekWord kernelStart
  let size := (m.peekWord (kernelStart + 4)).toInt.toNat
  if m.readable kernelStart 8 && m.readable start.toNat size && m.writable usrMain.toNat size then
    some (copyData Mm.peek Mm.poke size start.toNat usrMain.toNat m)
  else none

/-- `syssize`, in the boot sector. -/
def syssize (disk : Nat → Byte) : Word := disk 501 ++ disk 500

theorem peekWord_size {m : Mm} {addr size : Nat} (small : size < 2 ^ 24)
    (bytes : ∀ i < 4, (sizeBytes size)[i]? = some (m.peek (addr + i))) :
    m.peekWord addr = BitVec.ofNat 32 size := by
  have zero := Option.some.inj (bytes 0 (by decide))
  have one := Option.some.inj (bytes 1 (by decide))
  have two := Option.some.inj (bytes 2 (by decide))
  have three := Option.some.inj (bytes 3 (by decide))
  rw [Nat.add_zero] at zero
  rw [Mm.peekWord, ← zero, ← one, ← two, ← three]
  apply BitVec.eq_of_toNat_eq
  simp only [BitVec.toNat_append, BitVec.toNat_ofNat, Nat.shiftRight_eq_div_pow]
  rw [← Nat.shiftLeft_add_eq_or_of_lt (Nat.mod_lt _ (by decide)),
    ← Nat.shiftLeft_add_eq_or_of_lt (Nat.mod_lt _ (by decide)),
    ← Nat.shiftLeft_add_eq_or_of_lt (Nat.mod_lt _ (by decide))]
  rw [show (0 : Byte).toNat = 0 from rfl]
  simp only [Nat.shiftLeft_eq]
  omega

/-- The BIOS has the image on the disk. -/
def OnDisk (image : File) (disk : Nat → Byte) : Prop :=
  ∀ i < image.length, image[i]? = some (disk i)

/-- Where the sizes and the user program are in what the boot sector has loaded. -/
def Program (sysSize usrSize i : Nat) : Prop := i < 8 ∨ sysSize ≤ i ∧ i < sysSize + usrSize

/-- The initialisation of the kernel has left the sizes and the user program as the boot
sector has loaded them, and the linker has put the guard pages elsewhere. -/
structure Untouched (machine : Image) (loaded : RealMemory) (sysSize usrSize : Nat) : Prop where
  bytes : ∀ i, Program sysSize usrSize i →
    machine.ram ((kernelStart + i) / pageSize) ((kernelStart + i) % pageSize) =
      loaded (kernelStart + i)
  guards : ∀ i, Program sysSize usrSize i →
    (kernelStart + i) / pageSize ≠ machine.guardBefore ∧
    (kernelStart + i) / pageSize ≠ machine.guardAfter

variable {disk : Nat → Byte} {int13 : DiskRequest → RealMemory → RealMemory}

/-- `read_it` ends, and has read whole segments of the sectors after the boot sector. -/
theorem readIt_loads (syssize : Word) (memory : RealMemory) (fuel : Nat)
    (reads : ReadsDisk disk int13) (small : syssize.toNat < 0x8000) (enough : 1024 < fuel) :
    ∃ l, Loader.readIt int13 syssize fuel (Loader.start memory) = some l ∧
      ∀ addr, l.memory addr =
        if 0x10000 ≤ addr ∧ addr < 0x10000 + 0x10000 * (syssize.toNat / 0x1000 + 1) then
          disk (512 + (addr - 0x10000))
        else memory addr := by
  obtain ⟨l, ended, loaded⟩ := Loader.Loaded.readIt reads small (@start_loaded disk memory)
    (Nat.zero_add _)
    (show 128 * (syssize.toNat / 4096 + 1) < fuel by omega)
  have bytes := loaded.bytes
  rw [← Nat.mul_assoc] at bytes
  exact ⟨l, ended, bytes⟩

/-- Two segments, in 16 tracks. -/
theorem readIt_loads_two :
    ∃ l, Loader.readIt (diskBios fun i => BitVec.ofNat 8 i) 0x17f0 1025
        (Loader.start fun _ => 0) = some l ∧
      ∀ addr, l.memory addr =
        if 0x10000 ≤ addr ∧ addr < 0x10000 + 0x10000 * ((0x17f0 : Word).toNat / 0x1000 + 1) then
          BitVec.ofNat 8 (512 + (addr - 0x10000))
        else 0 :=
  readIt_loads 0x17f0 (fun _ => 0) 1025 (diskBios_reads _) (by decide) (by decide)

theorem syssize_toNat {image system user : File} (layout : Layout image system user)
    (onDisk : OnDisk image disk) (fits : system.length + user.length + 15 < 0x80000) :
    (syssize disk).toNat = (system.length + user.length + 15) / 16 := by
  have low := layout.imageSize 0 (by decide)
  have high := layout.imageSize 1 (by decide)
  have length := layout.length
  rw [onDisk _ (by omega)] at low high
  have first := Option.some.inj low
  have second := Option.some.inj high
  rw [Nat.add_zero] at first
  rw [syssize, first, second]
  simp only [BitVec.toNat_append, BitVec.toNat_ofNat, Nat.shiftRight_eq_div_pow]
  rw [← Nat.shiftLeft_add_eq_or_of_lt (Nat.mod_lt _ (by decide)), imSize, Nat.shiftLeft_eq]
  omega

/-! ### The move -/

/-- The first `count` bytes of the user program are in its frames, and nothing else of memory
has changed. -/
structure Moved (m moved : Mm) (source : Nat → Byte) (count : Nat) : Prop where
  tables : moved = { m with ram := moved.ram }
  bytes : ∀ i < count, moved.ram (codeFrame (i / pageSize)) (i % pageSize) = source i
  others : ∀ frame offset,
    (∀ i < count, ¬ (frame = codeFrame (i / pageSize) ∧ offset = i % pageSize)) →
    moved.ram frame offset = m.ram frame offset

section Move

variable {m moved : Mm} {source : Nat → Byte} {count i : Nat}

theorem userPlace (i : Nat) : (usrMain.toNat + i) / pageSize = pagLogInitCode + i / pageSize ∧
    (usrMain.toNat + i) % pageSize = i % pageSize := by
  obtain ⟨codeAt, _, _, _⟩ := Mm.regions
  have start : usrMain.toNat = 0x100000 := rfl
  rw [start, codeAt]
  simp only [pageSize]
  omega

theorem Moved.mapped (done : Moved m moved source count) : moved.mapped = m.mapped := by
  rw [done.tables]
  rfl

/-- One byte of the move. -/
theorem Moved.poke (done : Moved m moved source i)
    (frame : (m.mapped (pagLogInitCode + i / pageSize)).pbaseAddr = codeFrame (i / pageSize)) :
    Moved m (moved.poke (usrMain.toNat + i) (source i)) source (i + 1) := by
  have stored : (moved.poke (usrMain.toNat + i) (source i)).ram =
      Function.update moved.ram (codeFrame (i / pageSize))
        (Function.update (moved.ram (codeFrame (i / pageSize))) (i % pageSize) (source i)) := by
    rw [Mm.poke, done.mapped, (userPlace i).1, (userPlace i).2, frame]
  constructor
  · rw [Mm.poke, done.tables]
  · intro j below
    rw [stored]
    by_cases last : j = i
    · rw [last, Function.update_self, Function.update_self]
    · have before := done.bytes j (by omega)
      by_cases page : codeFrame (j / pageSize) = codeFrame (i / pageSize)
      · rw [page] at before ⊢
        rw [Function.update_self, Function.update_of_ne, before]
        simp only [codeFrame, pageSize] at page ⊢
        omega
      · rw [Function.update_of_ne page, before]
  · intro frame' offset out
    rw [stored]
    have kept := done.others frame' offset fun j below => out j (by omega)
    by_cases page : frame' = codeFrame (i / pageSize)
    · rw [page] at kept ⊢
      rw [Function.update_self, Function.update_of_ne, kept]
      exact fun same => out i (by omega) ⟨page, same⟩
    · rw [Function.update_of_ne page, kept]

/-- The two loops, from kernel pages that are mapped to themselves to the user pages. -/
theorem moved_copyData {start : Nat}
    (kernel : ∀ i < count, (start + i) / pageSize < numPagKernel ∧
      (m.mapped ((start + i) / pageSize)).pbaseAddr = (start + i) / pageSize)
    (user : ∀ i < count,
      (m.mapped (pagLogInitCode + i / pageSize)).pbaseAddr = codeFrame (i / pageSize)) :
    Moved m (copyData Mm.peek Mm.poke count start usrMain.toNat m)
      (fun i => m.peek (start + i)) count := by
  have nothing : Moved m m (fun i => m.peek (start + i)) 0 :=
    ⟨rfl, fun _ below => absurd below (Nat.not_lt_zero _), fun _ _ _ => rfl⟩
  refine copyData_invariant Mm.peek Mm.poke
    (fun done moved => Moved m moved (fun i => m.peek (start + i)) done) start usrMain.toNat
    (fun i => m.peek (start + i)) count ?_ ?_ count 0 m (Nat.zero_add count) nothing
  · intro done i moved holds _ below
    obtain ⟨low, itself⟩ := kernel i below
    rw [Mm.peek, Mm.peek, holds.mapped, itself]
    apply holds.others
    intro j _ same
    have frame := same.1
    simp only [codeFrame, numPagKernel] at frame low
    omega
  · intro i moved holds below
    exact holds.poke (user i below)

end Move

section Boot

variable {s : Space} {machine : Image}

/-- The user pages at boot, the code first. -/
theorem Space.Initial.userPage (init : s.Initial) {i : Nat} (below : i < numPagCode + numPagData) :
    s.mm.kernelWritable (pagLogInitCode + i) = true ∧
    (s.mm.mapped (pagLogInitCode + i)).pbaseAddr = codeFrame i := by
  obtain ⟨codeAt, dataAt, _, _⟩ := Mm.regions
  have entry : s.mm.mapped (pagLogInitCode + i) =
      ⟨true, decide (numPagCode ≤ i), true, codeFrame i⟩ := by
    simp only [numPagCode, numPagData] at below
    rw [Mm.mapped, init.cr3]
    dsimp only
    rw [if_pos (by rw [codeAt]; simp only [totalPages]; omega)]
    by_cases code : i < numPagCode
    · rw [init.fresh.code i code, decide_eq_false (by omega)]
      rfl
    · have data := init.fresh.data (i - numPagCode) (by simp only [numPagCode, numPagData]; omega)
      rw [pagLogInitData, Nat.add_assoc, Nat.add_sub_cancel' (by omega)] at data
      rw [data, decide_eq_true (by omega)]
  rw [Mm.kernelWritable, init.fresh.unprotected, entry]
  exact ⟨by simp, rfl⟩

/-- The page after them. -/
theorem Space.Initial.noPage (init : s.Initial) :
    s.mm.kernelWritable (pagLogInitCode + (numPagCode + numPagData)) = false := by
  rw [Mm.kernelWritable, Mm.mapped, init.cr3]
  dsimp only
  rw [if_pos (by decide), init.fresh.others 8 _ (by decide) (by decide)]
  rfl

/-- The kernel pages at boot. -/
theorem boot_kernelMapped {p : Nat} (low : 1 ≤ p) (high : p < numPagKernel)
    (guards : p ≠ machine.guardBefore ∧ p ≠ machine.guardAfter) :
    (Kernel.boot machine).mm.mapped p = ⟨true, true, false, p⟩ := by
  have cr3 := (boot_space machine).cr3
  have total : p < totalPages := by
    simp only [numPagKernel] at high
    simp only [totalPages]
    omega
  rw [Kernel.space_mm] at cr3
  rw [Mm.mapped, cr3]
  dsimp only
  rw [if_pos total, boot_kernelPage machine 8 low high]
  simp [guards.1, guards.2]

end Boot

/-- What is loaded is read through the kernel pages. -/
theorem Untouched.peek {machine : Image} {loaded : RealMemory} {sysSize usrSize i : Nat}
    (untouched : Untouched machine loaded sysSize usrSize) (fits : sysSize + usrSize < 0x80000)
    (inside : Program sysSize usrSize i) :
    (Kernel.boot machine).mm.mapped ((kernelStart + i) / pageSize) =
      ⟨true, true, false, (kernelStart + i) / pageSize⟩ ∧
    (kernelStart + i) / pageSize < numPagKernel ∧
    (Kernel.boot machine).mm.peek (kernelStart + i) = loaded (kernelStart + i) := by
  have range : 1 ≤ (kernelStart + i) / pageSize ∧ (kernelStart + i) / pageSize < numPagKernel := by
    simp only [Program, kernelStart, pageSize, numPagKernel] at inside ⊢
    omega
  have entry := boot_kernelMapped range.1 range.2 (untouched.guards i inside)
  refine ⟨entry, range.2, ?_⟩
  rw [Mm.peek, entry, boot_ram]
  exact untouched.bytes i inside

/-- The move at boot, when the sizes are where `main` reads them. -/
theorem moveUser_boot {machine : Image} {loaded : RealMemory} {sysSize usrSize : Nat}
    (untouched : Untouched machine loaded sysSize usrSize) (fits : sysSize + usrSize < 0x80000)
    (sys : (Kernel.boot machine).mm.peekWord kernelStart = BitVec.ofNat 32 sysSize)
    (usr : (Kernel.boot machine).mm.peekWord (kernelStart + 4) = BitVec.ofNat 32 usrSize) :
    (usrSize ≤ (numPagCode + numPagData) * pageSize →
      ∃ moved, moveUser (Kernel.boot machine).mm = some moved ∧
        Moved (Kernel.boot machine).mm moved (fun i => loaded (kernelStart + sysSize + i))
          usrSize) ∧
    ((numPagCode + numPagData) * pageSize < usrSize →
      moveUser (Kernel.boot machine).mm = none) := by
  have source : ∀ i, Program sysSize usrSize i → _ := fun i => untouched.peek fits
  have init := boot_space machine
  simp only [← Kernel.space_mm] at source sys usr ⊢
  generalize (Kernel.boot machine).space = s at init source sys usr ⊢
  have start : (BitVec.ofNat 32 kernelStart + BitVec.ofNat 32 sysSize).toNat =
      kernelStart + sysSize := by
    rw [← BitVec.ofNat_add, BitVec.toNat_ofNat, kernelStart, Nat.mod_eq_of_lt (by omega)]
  have count : (BitVec.ofNat 32 usrSize).toInt.toNat = usrSize := by
    rw [BitVec.toInt_eq_toNat_of_lt] <;> rw [BitVec.toNat_ofNat, Nat.mod_eq_of_lt (by omega)]
    · rfl
    · omega
  have program : ∀ i < usrSize, Program sysSize usrSize (sysSize + i) :=
    fun i below => Or.inr (by omega)
  have sizes : s.mm.readable kernelStart 8 = true := by
    apply List.all_eq_true.mpr
    intro i member
    rw [(source i (Or.inl (List.mem_range.mp member))).1]
  have readable : s.mm.readable (kernelStart + sysSize) usrSize = true := by
    apply List.all_eq_true.mpr
    intro i member
    rw [Nat.add_assoc, (source _ (program i (List.mem_range.mp member))).1]
  rw [moveUser, sys, usr, start, count, sizes, readable, Bool.true_and, Bool.true_and]
  constructor
  · intro small
    have page : ∀ i < usrSize, i / pageSize < numPagCode + numPagData := fun i below =>
      (Nat.div_lt_iff_lt_mul (by decide)).mpr (Nat.lt_of_lt_of_le below small)
    have writable : s.mm.writable usrMain.toNat usrSize = true := by
      apply List.all_eq_true.mpr
      intro i member
      rw [(userPlace i).1]
      exact (init.userPage (page i (List.mem_range.mp member))).1
    have moved := @moved_copyData s.mm usrSize (kernelStart + sysSize)
      (fun i below => by
        obtain ⟨entry, low, _⟩ := source _ (program i below)
        rw [Nat.add_assoc, entry]
        exact ⟨low, rfl⟩)
      (fun i below => (init.userPage (page i below)).2)
    rw [if_pos writable]
    refine ⟨_, rfl, moved.tables, ?_, moved.others⟩
    intro i below
    rw [moved.bytes i below, Nat.add_assoc, (source _ (program i below)).2.2]
  · intro large
    have missing : s.mm.writable usrMain.toNat usrSize = false := by
      apply List.all_eq_false.mpr
      refine ⟨_, List.mem_range.mpr large, ?_⟩
      rw [(userPlace _).1, Nat.mul_div_cancel _ (by decide), init.noPage]
      decide
    rw [if_neg (by rw [missing]; decide)]

/-- The system and the user program get to memory as they are in the files: what `build` has
written, the boot sector loads, and `main` moves the user program to where it starts, unless it
is longer than the pages of the first process. -/
theorem image_boots {bootName : String} {boot system user image : File}
    (memory : RealMemory) (fuel : Nat)
    (built : build bootName boot system user = .ok image)
    (room : 12 ≤ system.length) (fits : system.length + user.length + 15 < 0x80000)
    (onDisk : OnDisk image disk) (reads : ReadsDisk disk int13) (enough : 1024 < fuel) :
    ∃ l, Loader.readIt int13 (syssize disk) fuel (Loader.start memory) = some l ∧
      (∀ i, 12 ≤ i → i < system.length → system[i]? = some (l.memory (kernelStart + i))) ∧
      ∀ machine, Untouched machine l.memory system.length user.length →
        (user.length ≤ (numPagCode + numPagData) * pageSize →
          ∃ moved, moveUser (Kernel.boot machine).mm = some moved ∧
            (∀ i < user.length, user[i]? = some (moved.peek (usrMain.toNat + i))) ∧
            moved = { (Kernel.boot machine).mm with ram := moved.ram } ∧
            ∀ frame offset,
              (∀ i < user.length, ¬ (frame = codeFrame (i / pageSize) ∧ offset = i % pageSize)) →
              moved.ram frame offset = machine.ram frame offset) ∧
        ((numPagCode + numPagData) * pageSize < user.length →
          moveUser (Kernel.boot machine).mm = none) := by
  have layout := build_layout built room (by omega)
  have length := layout.length
  have size := syssize_toNat layout onDisk fits
  obtain ⟨l, ended, bytes⟩ := readIt_loads (syssize disk) memory fuel reads (by omega) enough
  have read : ∀ i < system.length + user.length,
      image[512 + i]? = some (l.memory (kernelStart + i)) := by
    intro i inside
    rw [onDisk _ (by omega), bytes, if_pos (by rw [kernelStart]; omega), kernelStart,
      Nat.add_sub_cancel_left]
  refine ⟨l, ended, ?_, ?_⟩
  · intro i low high
    rw [← layout.kernel i low high, read i (by omega)]
  · intro machine untouched
    have sys : (Kernel.boot machine).mm.peekWord kernelStart = BitVec.ofNat 32 system.length := by
      apply peekWord_size (by omega)
      intro i four
      rw [← layout.sysSize i four, read i (by omega),
        (untouched.peek (by omega) (Or.inl (by omega))).2.2]
    have usr : (Kernel.boot machine).mm.peekWord (kernelStart + 4) =
        BitVec.ofNat 32 user.length := by
      apply peekWord_size (by omega)
      intro i four
      rw [← layout.usrSize i four, show 516 + i = 512 + (4 + i) by omega, read _ (by omega),
        Nat.add_assoc, (untouched.peek (by omega) (Or.inl (by omega))).2.2]
    obtain ⟨short, long⟩ := moveUser_boot untouched (by omega) sys usr
    refine ⟨fun small => ?_, long⟩
    obtain ⟨moved, done, there⟩ := short small
    refine ⟨moved, done, fun i below => ?_, there.tables, fun frame offset out => ?_⟩
    · have page : i / pageSize < numPagCode + numPagData :=
        (Nat.div_lt_iff_lt_mul (by decide)).mpr (Nat.lt_of_lt_of_le below small)
      rw [Mm.peek, there.mapped, (userPlace i).1, (userPlace i).2, ← Kernel.space_mm,
        ((boot_space machine).userPage page).2, there.bytes i below, Nat.add_assoc,
        ← read _ (by omega), ← Nat.add_assoc]
      exact (layout.program i below).symm
    · rw [there.others frame offset out, boot_ram]

/-- A boot sector, with its header. -/
def bootFile : File :=
  minixHdr ++ List.replicate 24 0 ++ (List.replicate 510 0 ++ [0x55, 0xaa])

theorem build_bootFile (system user : File) :
    build "bootsect" bootFile system user =
      .ok (File.fill (List.replicate 510 0 ++ [0x55, 0xaa] ++ system.take system.stSize ++
        user.take user.stSize) system.stSize user.stSize) := by
  have opened : minixOpen "bootsect" bootFile = .ok (List.replicate 510 0 ++ [0x55, 0xaa]) := by
    decide +kernel
  have checked : bootBlock (List.replicate 510 0 ++ [0x55, 0xaa]) =
      .ok (List.replicate 510 0 ++ [0x55, 0xaa]) := by
    decide +kernel
  rw [build, opened]
  dsimp only
  rw [checked]
  dsimp only
  rw [copyFile_eq, copyFile_eq]

theorem onDisk_getD (image : File) : OnDisk image fun i => image.getD i 0 := by
  intro i inside
  dsimp only
  rw [List.getD_eq_getElem?_getD, List.getElem?_eq_getElem inside, Option.getD_some]

/-- The machine that starts with what is loaded, and has its guard pages in frames 20 and 32. -/
def loadedMachine (loaded : RealMemory) : Image where
  guardBefore := 20
  guardAfter := 32
  ram frame offset := loaded (frame * pageSize + offset)
  clock _ := 0

theorem untouched_loaded (loaded : RealMemory) {sysSize usrSize : Nat}
    (fits : sysSize + usrSize < 4 * pageSize) :
    Untouched (loadedMachine loaded) loaded sysSize usrSize := by
  constructor
  · intro i _
    show loaded ((kernelStart + i) / pageSize * pageSize + (kernelStart + i) % pageSize) = _
    rw [Nat.div_add_mod']
  · intro i inside
    simp only [Program, loadedMachine, kernelStart, pageSize] at inside fits ⊢
    omega

/-- A system of 16 bytes and a user program of three. -/
theorem image_boots_small :
    ∃ image l moved,
      build "bootsect" bootFile (List.replicate 16 0x90) [1, 2, 3] = .ok image ∧
      Loader.readIt (diskBios fun i => image.getD i 0) (syssize fun i => image.getD i 0) 1025
        (Loader.start fun _ => 0) = some l ∧
      moveUser (Kernel.boot (loadedMachine l.memory)).mm = some moved ∧
      ∀ i < 3, ([1, 2, 3] : File)[i]? = some (moved.peek (usrMain.toNat + i)) := by
  have built := build_bootFile (List.replicate 16 0x90) [1, 2, 3]
  obtain ⟨l, ended, -, moves⟩ := image_boots (fun _ => 0) 1025 built (by decide) (by decide)
    (onDisk_getD _) (diskBios_reads _) (by decide)
  obtain ⟨moved, done, bytes, -⟩ :=
    (moves _ (untouched_loaded l.memory (by decide))).1 (by decide)
  exact ⟨_, l, moved, built, ended, done, bytes⟩

end Zeos
