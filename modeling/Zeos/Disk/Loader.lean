import Zeos.State

set_option autoImplicit false

/-! `read_it` of `bootsect.S`: the system comes from the disk, a track at a time. -/

namespace Zeos

abbrev Word := BitVec 16

/-- `SYSSEG`. -/
def sysSeg : Word := 0x1000

/-- `sectors`: `SEC_PISTA`. -/
def sectors : Word := 18

/-- `setup_sects`: `SETUPSECS`. -/
def setupSects : BitVec 8 := 0

def sectorSize : Nat := 512

/-- The registers of `int 0x13` with `AH` = 2. `DL` is 0. -/
structure DiskRequest where
  es : Word
  bx : Word
  al : BitVec 8
  ch : BitVec 8
  cl : BitVec 8
  dh : BitVec 8

/-- Memory in real mode, by physical address. -/
abbrev RealMemory := Nat → Byte

/-- The registers, the variables and the memory at `rp_read`. -/
structure Loader where
  es : Word
  bx : Word
  sread : Word
  head : Word
  track : Word
  memory : RealMemory

namespace Loader

/-- `read_it`, up to `rp_read`. The high bytes of the variables are zero. -/
def start (memory : RealMemory) : Loader where
  es := sysSeg
  bx := 0
  sread := (setupSects + 1).setWidth 16
  head := 0
  track := 0
  memory := memory

/-- What `read_track` asks the BIOS for. -/
def request (l : Loader) (ax : Word) : DiskRequest where
  es := l.es
  bx := l.bx
  al := ax.setWidth 8
  ch := l.track.setWidth 8
  cl := (l.sread + 1).setWidth 8
  dh := l.head.setWidth 8 &&& 1

/-- Between `ok1_read` and `ok2_read`: the rest of the track, cut at the end of the segment. -/
def room (l : Loader) : Word :=
  let ax := sectors - l.sread
  let cx := ax <<< 9
  if cx.toNat + l.bx.toNat < 2 ^ 16 then ax
  else if cx + l.bx = 0 then ax
  else (0 - l.bx) >>> 9

/-- From `ok1_read` back to `rp_read`. -/
def round (int13 : DiskRequest → RealMemory → RealMemory) (l : Loader) : Loader :=
  let ax := l.room
  let memory := int13 (l.request ax) l.memory
  let cx := ax <<< 9
  let ax := ax + l.sread
  let last := ax = sectors
  let other := 1 - l.head
  let track := if last ∧ other = 0 then l.track + 1 else l.track
  let head := if last then other else l.head
  let sread := if last then 0 else ax
  if l.bx.toNat + cx.toNat < 2 ^ 16 then
    { es := l.es, bx := l.bx + cx, sread, head, track, memory }
  else { es := l.es + 0x1000, bx := 0, sread, head, track, memory }

/-- `rp_read`; `none` when the fuel does not take it to the `ret`. -/
def readIt (int13 : DiskRequest → RealMemory → RealMemory) (syssize : Word) :
    Nat → Loader → Option Loader
  | 0, _ => none
  | fuel + 1, l =>
      if (l.es - sysSeg).toNat ≤ syssize.toNat then readIt int13 syssize fuel (l.round int13)
      else some l

end Loader

/-- A request for sectors of one track of a 1.44 MB disk, with a buffer in one 64 kB page. -/
structure DiskRequest.Valid (r : DiskRequest) : Prop where
  some : 0 < r.al.toNat
  first : 0 < r.cl.toNat
  last : r.cl.toNat + r.al.toNat ≤ sectors.toNat + 1
  head : r.dh.toNat < 2
  track : r.ch.toNat < 80
  buffer : (r.es.toNat * 16 + r.bx.toNat) % 65536 + sectorSize * r.al.toNat ≤ 65536

/-- The number of the first sector on the disk. -/
def DiskRequest.sector (r : DiskRequest) : Nat :=
  (r.ch.toNat * 2 + r.dh.toNat) * sectors.toNat + (r.cl.toNat - 1)

/-- The BIOS reads the sectors of a valid request to the buffer. -/
def ReadsDisk (disk : Nat → Byte) (int13 : DiskRequest → RealMemory → RealMemory) : Prop :=
  ∀ (r : DiskRequest) (memory : RealMemory), r.Valid → ∀ addr, int13 r memory addr =
    if r.es.toNat * 16 + r.bx.toNat ≤ addr ∧
        addr < r.es.toNat * 16 + r.bx.toNat + sectorSize * r.al.toNat then
      disk (sectorSize * r.sector + (addr - (r.es.toNat * 16 + r.bx.toNat)))
    else memory addr

/-- A BIOS that reads the sectors of every request. -/
def diskBios (disk : Nat → Byte) (r : DiskRequest) (memory : RealMemory) : RealMemory :=
  fun addr =>
    if r.es.toNat * 16 + r.bx.toNat ≤ addr ∧
        addr < r.es.toNat * 16 + r.bx.toNat + sectorSize * r.al.toNat then
      disk (sectorSize * r.sector + (addr - (r.es.toNat * 16 + r.bx.toNat)))
    else memory addr

theorem diskBios_reads (disk : Nat → Byte) : ReadsDisk disk (diskBios disk) :=
  fun _ _ _ _ => rfl

variable {disk : Nat → Byte} {int13 : DiskRequest → RealMemory → RealMemory} {l : Loader}
  {memory : RealMemory} {syssize : Word} {n : Nat}

/-- The `n` sectors after the boot sector are at `0x10000`; nothing else has changed. -/
structure Loader.Loaded (disk : Nat → Byte) (memory : RealMemory) (n : Nat) (l : Loader) :
    Prop where
  segment : l.es.toNat = 4096 * (1 + n / 128)
  offset : l.bx.toNat = 512 * (n % 128)
  place : (l.track.toNat * 2 + l.head.toNat) * 18 + l.sread.toNat = 1 + n
  sector : l.sread.toNat < 18
  side : l.head.toNat < 2
  bytes : ∀ addr, l.memory addr =
    if 0x10000 ≤ addr ∧ addr < 0x10000 + 512 * n then disk (512 + (addr - 0x10000))
    else memory addr

theorem start_loaded : (Loader.start memory).Loaded disk memory 0 where
  segment := rfl
  offset := rfl
  place := rfl
  sector := show 1 < 18 by decide
  side := Nat.two_pos
  bytes addr := (if_neg (by omega)).symm

/-- As many sectors as the track has left, and the segment. -/
def Loader.step (l : Loader) (n : Nat) : Nat := min (18 - l.sread.toNat) (128 - n % 128)

namespace Loader.Loaded

variable (loaded : l.Loaded disk memory n)
include loaded

theorem room_toNat : l.room.toNat = l.step n := by
  have sector := loaded.sector
  have offset := loaded.offset
  have inside : n % 128 < 128 := Nat.mod_lt n (by decide)
  have rest : (sectors - l.sread).toNat = 18 - l.sread.toNat := by
    rw [BitVec.toNat_sub_of_le (by rw [BitVec.le_def]; exact Nat.le_of_lt sector)]
    rfl
  have length : ((sectors - l.sread) <<< 9).toNat = (18 - l.sread.toNat) * 512 := by
    rw [BitVec.toNat_shiftLeft, rest, Nat.shiftLeft_eq, Nat.mod_eq_of_lt (by omega)]
  have below : (0 - l.bx).toNat = (65536 - 512 * (n % 128)) % 65536 := by
    rw [BitVec.toNat_sub, offset]
    rfl
  simp only [Loader.room, step]
  split
  · omega
  · split
    · rename_i high full
      have total := congrArg BitVec.toNat full
      rw [BitVec.toNat_add, length, offset] at total
      have : (0 : Word).toNat = 0 := rfl
      omega
    · rw [BitVec.toNat_ushiftRight, below, Nat.shiftRight_eq_div_pow]
      omega

theorem step_pos : 0 < l.step n := by
  have sector := loaded.sector
  have inside : n % 128 < 128 := Nat.mod_lt n (by decide)
  rw [step]
  omega

theorem side_cases : l.head = 0 ∨ l.head = 1 := by
  have side := loaded.side
  have cases : l.head.toNat = 0 ∨ l.head.toNat = 1 := by omega
  exact cases.imp BitVec.eq_of_toNat_eq BitVec.eq_of_toNat_eq

/-- The request asks for the sectors that follow, and the buffer follows too. -/
theorem request_next (short : n < 1024) :
    (l.request l.room).al.toNat = l.step n ∧ (l.request l.room).ch.toNat = l.track.toNat ∧
    (l.request l.room).cl.toNat = l.sread.toNat + 1 ∧
    (l.request l.room).dh.toNat = l.head.toNat ∧
    l.es.toNat * 16 + l.bx.toNat = 0x10000 + 512 * n := by
  have sector := loaded.sector
  have place := loaded.place
  have segment := loaded.segment
  have offset := loaded.offset
  have most : l.step n ≤ 18 := by
    rw [step]
    omega
  have next : (l.sread + 1).toNat = l.sread.toNat + 1 := by
    rw [BitVec.toNat_add]
    exact Nat.mod_eq_of_lt (show l.sread.toNat + 1 < 2 ^ 16 by omega)
  refine ⟨?_, ?_, ?_, ?_, ?_⟩
  · rw [request, BitVec.toNat_setWidth, loaded.room_toNat, Nat.mod_eq_of_lt (by omega)]
  · rw [request, BitVec.toNat_setWidth, Nat.mod_eq_of_lt (by omega)]
  · rw [request, BitVec.toNat_setWidth, next, Nat.mod_eq_of_lt (by omega)]
  · rw [request]
    rcases loaded.side_cases with zero | one
    · rw [zero]
      rfl
    · rw [one]
      rfl
  · omega

theorem request_valid (short : n < 1024) : (l.request l.room).Valid := by
  obtain ⟨count, cylinder, number, side, buffer⟩ := loaded.request_next short
  have some := loaded.step_pos
  have sector := loaded.sector
  have place := loaded.place
  have eighteen : sectors.toNat = 18 := rfl
  have most : l.step n ≤ 18 - l.sread.toNat ∧ l.step n ≤ 128 - n % 128 :=
    ⟨Nat.min_le_left _ _, Nat.min_le_right _ _⟩
  constructor
  case some => omega
  case first => omega
  case last => omega
  case head => rw [side]; exact loaded.side
  case track => omega
  case buffer =>
    show (l.es.toNat * 16 + l.bx.toNat) % 65536 + 512 * (l.request l.room).al.toNat ≤ 65536
    omega

theorem request_sector (short : n < 1024) : (l.request l.room).sector = 1 + n := by
  obtain ⟨count, cylinder, number, side, buffer⟩ := loaded.request_next short
  have place := loaded.place
  rw [DiskRequest.sector, cylinder, number, side, Nat.add_sub_cancel]
  exact place

/-- What the BIOS stores. -/
theorem round_bytes (reads : ReadsDisk disk int13) (short : n < 1024) (addr : Nat) :
    (l.round int13).memory addr =
      if 0x10000 ≤ addr ∧ addr < 0x10000 + 512 * (n + l.step n) then
        disk (512 + (addr - 0x10000))
      else memory addr := by
  obtain ⟨count, cylinder, number, side, buffer⟩ := loaded.request_next short
  have stored := reads _ l.memory (loaded.request_valid short) addr
  have kept : (l.round int13).memory = int13 (l.request l.room) l.memory := by
    unfold round
    dsimp only
    split <;> rfl
  rw [kept, stored, count, loaded.request_sector short,
    show (l.request l.room).es.toNat * 16 + (l.request l.room).bx.toNat = 0x10000 + 512 * n
      from buffer, loaded.bytes, show sectorSize = 512 from rfl]
  by_cases low : 0x10000 ≤ addr
  · by_cases old : addr < 0x10000 + 512 * n
    · rw [if_neg (by omega), if_pos ⟨low, old⟩, if_pos (by omega)]
    · by_cases new : addr < 0x10000 + 512 * (n + l.step n)
      · rw [if_pos (by omega), if_pos ⟨low, new⟩]
        exact congrArg disk (by omega)
      · rw [if_neg (by omega), if_neg (by omega), if_neg (by omega)]
  · rw [if_neg (by omega), if_neg (by omega), if_neg (by omega)]

/-- The variables after a round; the next sector may be on the other side, or on the next
track. -/
theorem round_place (short : n < 1024) :
    ((l.round int13).track.toNat * 2 + (l.round int13).head.toNat) * 18 +
        (l.round int13).sread.toNat = 1 + (n + l.step n) ∧
      (l.round int13).sread.toNat < 18 ∧ (l.round int13).head.toNat < 2 := by
  have sector := loaded.sector
  have place := loaded.place
  have side := loaded.side
  have most : l.step n ≤ 18 - l.sread.toNat := Nat.min_le_left _ _
  have sum : (l.room + l.sread).toNat = l.step n + l.sread.toNat := by
    rw [BitVec.toNat_add, loaded.room_toNat, Nat.mod_eq_of_lt (by omega)]
  have sread : (l.round int13).sread =
      if l.room + l.sread = sectors then 0 else l.room + l.sread := by
    unfold round
    dsimp only
    split <;> rfl
  have head : (l.round int13).head = if l.room + l.sread = sectors then 1 - l.head else l.head := by
    unfold round
    dsimp only
    split <;> rfl
  have track : (l.round int13).track =
      if l.room + l.sread = sectors ∧ 1 - l.head = 0 then l.track + 1 else l.track := by
    unfold round
    dsimp only
    split <;> rfl
  rw [sread, head, track]
  by_cases last : l.room + l.sread = sectors
  · have whole : l.step n + l.sread.toNat = 18 := by
      rw [← sum, last]
      rfl
    have fresh : (0 : Word).toNat = 0 := rfl
    rcases loaded.side_cases with zero | one
    · have first : l.head.toNat = 0 := by
        rw [zero]
        rfl
      have other : ((1 : Word) - l.head).toNat = 1 := by
        rw [zero]
        rfl
      have same : ¬ (l.room + l.sread = sectors ∧ (1 : Word) - l.head = 0) := by
        rw [zero]
        exact fun both => absurd both.2 (by decide)
      rw [if_pos last, if_pos last, if_neg same, other, fresh]
      omega
    · have second : l.head.toNat = 1 := by
        rw [one]
        rfl
      have other : (1 : Word) - l.head = 0 := by
        rw [one]
        rfl
      have next : (l.track + 1).toNat = l.track.toNat + 1 := by
        rw [BitVec.toNat_add]
        exact Nat.mod_eq_of_lt (show l.track.toNat + 1 < 2 ^ 16 by omega)
      rw [if_pos last, if_pos last, if_pos ⟨last, other⟩, next, other, fresh]
      omega
  · have part : l.step n + l.sread.toNat ≠ 18 := by
      intro whole
      exact last (BitVec.eq_of_toNat_eq (by rw [sum, whole]; rfl))
    rw [if_neg last, if_neg last, if_neg fun both => last both.1, sum]
    omega

/-- One round reads the next sectors. -/
theorem round (reads : ReadsDisk disk int13) (short : n < 1024) :
    (l.round int13).Loaded disk memory (n + l.step n) := by
  have segment := loaded.segment
  have offset := loaded.offset
  have count := loaded.room_toNat
  have some := loaded.step_pos
  have most : l.step n ≤ 18 - l.sread.toNat ∧ l.step n ≤ 128 - n % 128 :=
    ⟨Nat.min_le_left _ _, Nat.min_le_right _ _⟩
  have length : (l.room <<< 9).toNat = 512 * l.step n := by
    rw [BitVec.toNat_shiftLeft, count, Nat.shiftLeft_eq, Nat.mod_eq_of_lt (by omega)]
    omega
  obtain ⟨place, sector, side⟩ := loaded.round_place short
  have wraps : l.bx.toNat + (l.room <<< 9).toNat < 2 ^ 16 ↔ n % 128 + l.step n < 128 := by
    rw [length, offset]
    omega
  obtain ⟨es, bx⟩ : ((l.round int13).es =
      if n % 128 + l.step n < 128 then l.es else l.es + 0x1000) ∧
      (l.round int13).bx = if n % 128 + l.step n < 128 then l.bx + l.room <<< 9 else 0 := by
    unfold Loader.round
    dsimp only
    by_cases below : n % 128 + l.step n < 128
    · rw [if_pos (wraps.mpr below), if_pos below, if_pos below]
      exact ⟨rfl, rfl⟩
    · rw [if_neg (mt wraps.mp below), if_neg below, if_neg below]
      exact ⟨rfl, rfl⟩
  have seg : (l.round int13).es.toNat = 4096 * (1 + (n + l.step n) / 128) := by
    rw [es]
    split
    · omega
    · rw [BitVec.toNat_add, segment, show (0x1000 : Word).toNat = 4096 from rfl,
        Nat.mod_eq_of_lt (by omega)]
      omega
  have off : (l.round int13).bx.toNat = 512 * ((n + l.step n) % 128) := by
    rw [bx]
    split
    · rw [BitVec.toNat_add, length, offset, Nat.mod_eq_of_lt (by omega)]
      omega
    · rw [show (0 : Word).toNat = 0 from rfl]
      omega
  exact ⟨seg, off, place, sector, side, loaded.round_bytes reads short⟩

omit loaded in
/-- A round does not pass the end of the segment. -/
theorem step_within : n + l.step n ≤ 128 * (n / 128 + 1) := by
  have most : l.step n ≤ 128 - n % 128 := Nat.min_le_right _ _
  omega

/-- The test at `rp_read`: whole segments are read. -/
theorem more_iff (short : n ≤ 1024) :
    (l.es - sysSeg).toNat ≤ syssize.toNat ↔ n < 128 * (syssize.toNat / 4096 + 1) := by
  have segment := loaded.segment
  have first : sysSeg.toNat = 4096 := rfl
  rw [BitVec.toNat_sub_of_le (by rw [BitVec.le_def]; omega), segment, first]
  omega

end Loader.Loaded

/-- The run from any round on. -/
theorem Loader.Loaded.readIt (reads : ReadsDisk disk int13) (small : syssize.toNat < 0x8000)
    {left fuel : Nat} (loaded : l.Loaded disk memory n)
    (total : n + left = 128 * (syssize.toNat / 4096 + 1)) (enough : left < fuel) :
    ∃ l', Loader.readIt int13 syssize fuel l = some l' ∧
      l'.Loaded disk memory (128 * (syssize.toNat / 4096 + 1)) := by
  induction left using Nat.strongRecOn generalizing l n fuel with
  | ind left ih =>
      obtain ⟨fuel, rfl⟩ : ∃ rest, fuel = rest + 1 := ⟨fuel - 1, by omega⟩
      have test := @more_iff disk l memory syssize n loaded (by omega)
      rw [Loader.readIt]
      by_cases more : n < 128 * (syssize.toNat / 4096 + 1)
      · rw [if_pos (test.mpr more)]
        have some := loaded.step_pos
        have within := @step_within l n
        exact ih (left - l.step n) (by omega) (loaded.round reads (by omega)) (by omega)
          (by omega)
      · rw [if_neg fun below => more (test.mp below)]
        have all : n = 128 * (syssize.toNat / 4096 + 1) := by omega
        exact ⟨l, rfl, all ▸ loaded⟩

end Zeos
