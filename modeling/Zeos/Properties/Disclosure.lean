import Zeos.Boot
import Zeos.Console

set_option autoImplicit false

/-! What `sys_write` can disclose: it copies without `access_ok`. -/

namespace Zeos

open Kernel

variable {k k' : Kernel} {buffer : DWord} {fd size : Int} {addrs : List DWord}

/-- The code, data and heap pages of the caller. -/
def Kernel.callerPage (k : Kernel) (page : Nat) : Bool :=
  (decide (pagLogInitCode ≤ page ∧ page < pagLogInitData + numPagData) ||
    decide (pagLogInitHeap < page + heapPages k.currentTask.heapTop ∧ page ≤ pagLogInitHeap)) &&
    (k.mm.mapped page).present

/-- The other state has the same memory there; anything else may differ. -/
structure Kernel.SameMemory (k k' : Kernel) : Prop where
  mapped : ∀ page, k.callerPage page = true → k'.mm.mapped page = k.mm.mapped page
  bytes : ∀ page offset, k.callerPage page = true →
    k'.mm.ram (k.mm.mapped page).pbaseAddr offset = k.mm.ram (k.mm.mapped page).pbaseAddr offset

/-- A call prints the same on the screen and returns the same, or does not return, in both. -/
structure Kernel.SameOutput (k k' : Kernel) (fd : Int) (buffer : DWord) (size : Int) : Prop where
  console : ∃ out, (k.sysWrite fd buffer size).1.console = k.console ++ out ∧
    (k'.sysWrite fd buffer size).1.console = k'.console ++ out
  returns : (k.sysWrite fd buffer size).1.stuck = (k'.sysWrite fd buffer size).1.stuck ∧
    (k.sysWrite fd buffer size).2 = (k'.sysWrite fd buffer size).2

/-- The tests of `sys_write`. -/
def writeRefused (fd : Int) (buffer : DWord) (size : Int) : Prop :=
  checkFd fd writeOperation < 0 ∨ buffer = 0 ∨ size < 0

/-- A round of the loop moves so many bytes. -/
abbrev chunkBytes (size : Int) : Nat := min size.toNat chunkSize

/-- Every byte the loop moves is on a page of the caller. -/
def Kernel.WriteInside (k : Kernel) (buffer : DWord) (size : Int) : Prop :=
  ∀ addr ∈ blockAddrs buffer (movedBytes size.toNat), k.callerPage (addr.toNat / pageSize) = true

/-- The chunk with the first byte elsewhere reaches beyond the page tables. -/
def Kernel.WriteBeyond (k : Kernel) (buffer : DWord) (size : Int) : Prop :=
  ∃ i, i * chunkBytes size < size.toNat ∧
    (∀ addr ∈ blockAddrs buffer (i * chunkBytes size),
      k.callerPage (addr.toNat / pageSize) = true) ∧
    ∃ addr ∈ blockAddrs (buffer + BitVec.ofNat 32 (i * chunkBytes size)) (chunkBytes size),
      totalPages ≤ addr.toNat / pageSize

/-! ### The loop without faults -/

theorem sysWrite_refused (refused : writeRefused fd buffer size) :
    ∃ error, ∀ k : Kernel, k.sysWrite fd buffer size = (k, error) := by
  by_cases badFd : checkFd fd writeOperation < 0
  · exact ⟨_, fun k => if_pos badFd⟩
  · by_cases null : buffer = 0
    · exact ⟨_, fun k => (if_neg badFd).trans (if_pos null)⟩
    · have negative : size < 0 := (refused.resolve_left badFd).resolve_left null
      exact ⟨_, fun k => ((if_neg badFd).trans (if_neg null)).trans (if_pos negative)⟩

theorem sysWrite_accepted (accepted : ¬ writeRefused fd buffer size) (k : Kernel) :
    k.sysWrite fd buffer size = (writeLoop size.toNat k buffer size.toNat 0, size) := by
  simp only [writeRefused, not_or] at accepted
  exact ((if_neg accepted.1).trans (if_neg accepted.2.1)).trans (if_neg accepted.2.2)

theorem copyFromUser_clean {size : Nat} {start : DWord}
    (mapped : ∀ addr ∈ blockAddrs start size, k.present addr = true) :
    copyFromUser size k start = (k.loaded (blockAddrs start size),
      (blockAddrs start size).map k.byteAt) := by
  have fetched := copyFromUser_fetched size k start
  generalize copyFromUser size k start = result at fetched ⊢
  cases fetched with
  | clean _ => rfl
  | fault addr among missing _ =>
      rw [mapped addr among] at missing
      cases missing

/-- Rounds over mapped bytes print them. -/
theorem writeLoop_clean {size rounds : Nat} {buffer : DWord} : ∀ {k : Kernel} {offset fuel : Nat},
    k.stuck = false → offset + rounds * min size chunkSize < size + min size chunkSize →
    (∀ addr ∈ blockAddrs (buffer + BitVec.ofNat 32 offset) (rounds * min size chunkSize),
      k.present addr = true) →
    writeLoop (rounds + fuel) k buffer size offset = writeLoop fuel
      (k.printed (blockAddrs (buffer + BitVec.ofNat 32 offset) (rounds * min size chunkSize)))
      buffer size (offset + rounds * min size chunkSize) := by
  induction rounds with
  | zero =>
      intro k offset fuel _ _ _
      rw [Nat.zero_mul, blockAddrs_zero, printed_nil, Nat.zero_add, Nat.add_zero]
  | succ rounds ih =>
      intro k offset fuel running fits mapped
      rw [Nat.succ_mul, Nat.add_comm (rounds * _)] at fits mapped ⊢
      rw [blockAddrs_append] at mapped ⊢
      have place : buffer + BitVec.ofNat 32 offset + BitVec.ofNat 32 (min size chunkSize) =
          buffer + BitVec.ofNat 32 (offset + min size chunkSize) := by
        rw [BitVec.ofNat_add, BitVec.add_assoc]
      have chunk := copyFromUser_clean fun addr among => mapped addr (List.mem_append_left _ among)
      have printed : printChunk (copyFromUser (min size chunkSize) k (buffer + BitVec.ofNat 32 offset)) =
          k.printed (blockAddrs (buffer + BitVec.ofNat 32 offset) (min size chunkSize)) := by
        rw [chunk]
        exact if_neg (by rw [show (k.loaded _).stuck = k.stuck from rfl, running]; decide)
      rw [Nat.succ_add, writeLoop_succ, if_pos (by omega), printed, printed_append, place,
        ← Nat.add_assoc offset]
      rw [place] at mapped
      exact ih running (by omega) fun addr among => mapped addr (List.mem_append_right _ among)

/-! ### Calls that disclose nothing -/

/-- What is loaded from the pages of the caller does not depend on the rest. -/
theorem Kernel.SameMemory.reads (same : k.SameMemory k')
    (inside : ∀ addr ∈ addrs, k.callerPage (addr.toNat / pageSize) = true) :
    (∀ addr ∈ addrs, k.present addr = true) ∧ (∀ addr ∈ addrs, k'.present addr = true) ∧
      addrs.map k'.byteAt = addrs.map k.byteAt := by
  have present : ∀ addr ∈ addrs, k.present addr = true := by
    intro addr among
    have mine := inside addr among
    rw [callerPage, Bool.and_eq_true] at mine
    exact mine.2
  refine ⟨present, fun addr among => ?_, List.map_congr_left fun addr among => ?_⟩
  · rw [Kernel.present, same.mapped _ (inside addr among)]
    exact present addr among
  · rw [byteAt, byteAt, Mm.peek, Mm.peek, same.mapped _ (inside addr among)]
    exact same.bytes _ _ (inside addr among)

theorem same_refused (running : k.stuck = false) (running' : k'.stuck = false)
    (refused : writeRefused fd buffer size) : k.SameOutput k' fd buffer size := by
  obtain ⟨error, unchanged⟩ := sysWrite_refused refused
  refine ⟨⟨[], ?_, ?_⟩, ?_, ?_⟩
  · rw [unchanged, List.append_nil]
  · rw [unchanged, List.append_nil]
  · rw [unchanged, unchanged]
    exact running.trans running'.symm
  · rw [unchanged, unchanged]

theorem same_inside (running : k.stuck = false) (running' : k'.stuck = false)
    (same : k.SameMemory k') (accepted : ¬ writeRefused fd buffer size)
    (inside : k.WriteInside buffer size) : k.SameOutput k' fd buffer size := by
  obtain ⟨present, present', bytes⟩ := same.reads inside
  have clean : ∀ k : Kernel, k.stuck = false →
      (∀ addr ∈ blockAddrs buffer (movedBytes size.toNat), k.present addr = true) →
      writeLoop size.toNat k buffer size.toNat 0 =
        k.printed (blockAddrs buffer (movedBytes size.toNat)) := by
    intro k running mapped
    have written := @writeLoop_all k size.toNat buffer running
    generalize writeLoop size.toNat k buffer size.toNat 0 = result at written ⊢
    cases written with
    | clean _ => rfl
    | fault addr among missing _ =>
        rw [mapped addr among] at missing
        cases missing
  have first := sysWrite_accepted accepted k
  have second := sysWrite_accepted accepted k'
  rw [clean k running present] at first
  rw [clean k' running' present'] at second
  refine ⟨⟨(blockAddrs buffer (movedBytes size.toNat)).map k.byteAt, ?_, ?_⟩, ?_, ?_⟩
  · rw [first]
    rfl
  · rw [second, ← bytes]
    rfl
  · rw [first, second]
    exact running.trans running'.symm
  · rw [first, second]

theorem same_beyond (running : k.stuck = false) (running' : k'.stuck = false)
    (same : k.SameMemory k') (accepted : ¬ writeRefused fd buffer size)
    (beyond : k.WriteBeyond buffer size) : k.SameOutput k' fd buffer size := by
  obtain ⟨i, early, inside, outside⟩ := beyond
  obtain ⟨present, present', bytes⟩ := same.reads inside
  have hangs : ∀ k : Kernel, k.stuck = false →
      (∀ addr ∈ blockAddrs buffer (i * chunkBytes size), k.present addr = true) →
      (writeLoop size.toNat k buffer size.toNat 0).stuck = true ∧
      (writeLoop size.toNat k buffer size.toNat 0).console = k.console ++
        ((blockAddrs buffer (i * chunkBytes size)).map k.byteAt ++ message "WRONG ACCESS") := by
    intro k running mapped
    have positive : 0 < chunkBytes size := by
      rw [chunkBytes, lt_min_iff]
      exact ⟨by omega, by decide⟩
    have rounds : i ≤ i * chunkBytes size := Nat.le_mul_of_pos_right i positive
    obtain ⟨fuel, enough⟩ : ∃ fuel, size.toNat = i + (fuel + 1) :=
      ⟨size.toNat - i - 1, by omega⟩
    have start : buffer + BitVec.ofNat 32 0 = buffer := BitVec.add_zero buffer
    have fits : i * min size.toNat chunkSize < size.toNat + min size.toNat chunkSize :=
      Nat.lt_add_right _ early
    have done := @writeLoop_clean size.toNat i buffer k 0 (fuel + 1) running (by omega)
    rw [start, ← enough, Nat.zero_add] at done
    rw [done mapped, writeLoop_succ, if_pos early]
    have free : (k.printed (blockAddrs buffer (i * chunkBytes size))).stuck = false := running
    obtain ⟨stuck, console⟩ := copyFromUser_beyond free (Nat.min_le_right ..) outside
    have shown := @prints_printChunk (copyFromUser (chunkBytes size)
      (k.printed (blockAddrs buffer (i * chunkBytes size)))
      (buffer + BitVec.ofNat 32 (i * chunkBytes size)))
    have rest := prints_writeLoop fuel (printChunk (copyFromUser (chunkBytes size)
      (k.printed (blockAddrs buffer (i * chunkBytes size)))
      (buffer + BitVec.ofNat 32 (i * chunkBytes size)))) buffer size.toNat
      (i * chunkBytes size + chunkBytes size)
    obtain ⟨stuck', same⟩ := (shown.trans rest).halted stuck
    refine ⟨stuck', ?_⟩
    rw [same, console, ← List.append_assoc]
    rfl
  obtain ⟨hung, console⟩ := hangs k running present
  obtain ⟨hung', console'⟩ := hangs k' running' present'
  rw [bytes] at console'
  have first := sysWrite_accepted accepted k
  have second := sysWrite_accepted accepted k'
  refine ⟨⟨(blockAddrs buffer (i * chunkBytes size)).map k.byteAt ++ message "WRONG ACCESS",
    ?_, ?_⟩, ?_, ?_⟩
  · rw [first]
    exact console
  · rw [second]
    exact console'
  · rw [first, second]
    exact hung.trans hung'.symm
  · rw [first, second]

/-! ### Calls that disclose a byte -/

/-- The loop makes whole rounds. -/
theorem movedBytes_rounds {size : Nat} (positive : 0 < size) : ∃ rounds,
    movedBytes size = rounds * min size chunkSize ∧
      rounds * min size chunkSize < size + min size chunkSize := by
  unfold movedBytes
  split
  · rename_i small
    rw [Nat.min_eq_left small]
    exact ⟨1, by omega, by omega⟩
  · rename_i large
    rw [Nat.min_eq_right (by omega)]
    refine ⟨_, rfl, ?_⟩
    simp only [chunkSize] at large ⊢
    omega

/-- Outside the caller's pages, everything is one frame of equal bytes. -/
def Kernel.staged (k : Kernel) (frame : Nat) (value : Byte) : Kernel :=
  { k with mm := { k.mm with
      cr3 := some (k.mm.cr3.getD 0)
      pagusrTable := Function.update k.mm.pagusrTable (k.mm.cr3.getD 0) fun page =>
        if k.callerPage page then k.mm.mapped page else ⟨true, true, true, frame⟩
      ram := Function.update k.mm.ram frame fun _ => value } }

/-- The page tables have an entry for the page. -/
theorem callerPage_below {page : Nat} (mine : k.callerPage page = true) : page < totalPages := by
  rw [callerPage, Bool.and_eq_true] at mine
  by_contra beyond
  have unmapped : (k.mm.mapped page).present = false := by
    unfold Mm.mapped
    split
    · rw [if_neg beyond]
    · rfl
  rw [unmapped] at mine
  cases mine.2

theorem mapped_staged {frame page : Nat} {value : Byte} (below : page < totalPages) :
    (k.staged frame value).mm.mapped page =
      if k.callerPage page then k.mm.mapped page else ⟨true, true, true, frame⟩ := by
  show (if page < totalPages then Function.update k.mm.pagusrTable (k.mm.cr3.getD 0)
    (fun page => if k.callerPage page then k.mm.mapped page else ⟨true, true, true, frame⟩)
    (k.mm.cr3.getD 0) page else noEntry) = _
  rw [if_pos below, Function.update_self]

theorem sameMemory_staged {frame : Nat} {value : Byte}
    (fresh : ∀ page < totalPages, (k.mm.mapped page).pbaseAddr ≠ frame) :
    k.SameMemory (k.staged frame value) := by
  constructor
  · intro page mine
    rw [mapped_staged (callerPage_below mine), if_pos mine]
  · intro page offset mine
    show Function.update k.mm.ram frame (fun _ => value) _ offset = _
    rw [Function.update_of_ne (fresh page (callerPage_below mine))]

/-- A frame that no entry names. -/
theorem fresh_frame (m : Mm) : ∃ frame, ∀ page < totalPages, (m.mapped page).pbaseAddr ≠ frame := by
  obtain ⟨frame, out⟩ := Infinite.exists_notMem_finset
    ((Finset.range totalPages).image fun page => (m.mapped page).pbaseAddr)
  refine ⟨frame, fun page below same => out ?_⟩
  exact Finset.mem_image.mpr ⟨page, Finset.mem_range.mpr below, same⟩

theorem present_staged {frame : Nat} {value : Byte} {addr : DWord}
    (below : addr.toNat / pageSize < totalPages) : (k.staged frame value).present addr = true := by
  rw [Kernel.present, mapped_staged below]
  split
  · rename_i mine
    rw [callerPage, Bool.and_eq_true] at mine
    exact mine.2
  · rfl

theorem byteAt_staged {frame : Nat} {value : Byte} {addr : DWord}
    (below : addr.toNat / pageSize < totalPages)
    (other : k.callerPage (addr.toNat / pageSize) = false) :
    (k.staged frame value).byteAt addr = value := by
  rw [byteAt, Mm.peek, mapped_staged below, other]
  show Function.update k.mm.ram frame (fun _ => value) frame _ = value
  rw [Function.update_self]

/-- Rounds that stay below the end of the tables print what was staged. -/
theorem staged_prints {n frame : Nat} {value : Byte} (running : k.stuck = false)
    (accepted : ¬ writeRefused fd buffer size) (positive : 0 < n)
    (fits : n * chunkBytes size < size.toNat + chunkBytes size)
    (below : ∀ addr ∈ blockAddrs buffer (n * chunkBytes size), addr.toNat / pageSize < totalPages) :
    ∃ rest, ((k.staged frame value).sysWrite fd buffer size).1.console = k.console ++
      ((blockAddrs buffer (n * chunkBytes size)).map (k.staged frame value).byteAt ++ rest) := by
  have short : n ≤ size.toNat := by
    obtain ⟨i, rfl⟩ : ∃ i, n = i + 1 := ⟨n - 1, by omega⟩
    rw [Nat.add_mul, Nat.one_mul] at fits
    have early : i * chunkBytes size < size.toNat := by omega
    have moving : 0 < chunkBytes size := by
      rw [chunkBytes, lt_min_iff]
      exact ⟨by omega, by decide⟩
    have rounds : i ≤ i * chunkBytes size := Nat.le_mul_of_pos_right i moving
    omega
  have present : ∀ addr ∈ blockAddrs buffer (n * chunkBytes size),
      (k.staged frame value).present addr = true :=
    fun addr among => present_staged (below addr among)
  have start : buffer + BitVec.ofNat 32 0 = buffer := BitVec.add_zero buffer
  have done := @writeLoop_clean size.toNat n buffer (k.staged frame value) 0 (size.toNat - n)
    running (by rw [Nat.zero_add]; exact fits)
  rw [start, Nat.zero_add, Nat.add_sub_cancel' short] at done
  have more := prints_writeLoop (size.toNat - n)
    ((k.staged frame value).printed (blockAddrs buffer (n * chunkBytes size))) buffer size.toNat
    (n * chunkBytes size)
  obtain ⟨rest, grown⟩ := more.grows
  refine ⟨rest, ?_⟩
  rw [sysWrite_accepted accepted, done present, grown, ← List.append_assoc]
  rfl

/-- When a byte elsewhere is reached before the tables end, it is printed. -/
theorem discloses (running : k.stuck = false) (accepted : ¬ writeRefused fd buffer size)
    (outside : ¬ k.WriteInside buffer size) (before : ¬ k.WriteBeyond buffer size) :
    ∃ k', k'.stuck = false ∧ k.SameMemory k' ∧ ¬ k.SameOutput k' fd buffer size := by
  have positive : 0 < size.toNat := by
    by_contra empty
    rw [WriteInside, Nat.eq_zero_of_not_pos empty] at outside
    exact outside nofun
  obtain ⟨rounds, total, bound⟩ := movedBytes_rounds positive
  simp only [WriteInside, total, not_forall] at outside
  -- The first round that moves a byte elsewhere.
  have some : ∃ n, ∃ addr ∈ blockAddrs buffer (n * chunkBytes size),
      ¬ k.callerPage (addr.toNat / pageSize) = true := by
    obtain ⟨addr, among, other⟩ := outside
    exact ⟨rounds, addr, among, other⟩
  obtain ⟨n, ⟨addr, among, other⟩, first⟩ := Nat.findX some
  have least : n ≤ rounds := by
    by_contra later
    obtain ⟨addr, among, other⟩ := outside
    exact first rounds (by omega) ⟨addr, among, other⟩
  obtain ⟨i, rfl⟩ : ∃ i, n = i + 1 := by
    cases n with
    | zero =>
        rw [Nat.zero_mul, blockAddrs_zero] at among
        cases among
    | succ i => exact ⟨i, rfl⟩
  have inside : ∀ addr ∈ blockAddrs buffer (i * chunkBytes size),
      k.callerPage (addr.toNat / pageSize) = true := by
    intro addr among
    by_contra other
    exact first i (Nat.lt_succ_self i) ⟨addr, among, other⟩
  have fits : (i + 1) * chunkBytes size < size.toNat + chunkBytes size :=
    (Nat.mul_le_mul_right _ least).trans_lt bound
  have early : i * chunkBytes size < size.toNat := by
    rw [Nat.add_mul, Nat.one_mul] at fits
    omega
  have below : ∀ addr ∈ blockAddrs buffer ((i + 1) * chunkBytes size),
      addr.toNat / pageSize < totalPages := by
    intro addr among
    rw [Nat.add_mul, Nat.one_mul, blockAddrs_append] at among
    rcases List.mem_append.mp among with mine | last
    · exact callerPage_below (inside addr mine)
    · by_contra beyond
      exact before ⟨i, early, inside, addr, last, by omega⟩
  obtain ⟨frame, fresh⟩ := fresh_frame k.mm
  by_contra secret
  simp only [not_exists, not_and, not_not] at secret
  have zero := (secret (k.staged frame 0) running (sameMemory_staged fresh)).console
  have one := (secret (k.staged frame 1) running (sameMemory_staged fresh)).console
  obtain ⟨out, whole, shown⟩ := zero
  obtain ⟨out', whole', shown'⟩ := one
  have same : out = out' := List.append_cancel_left (whole.symm.trans whole')
  obtain ⟨rest, printed⟩ := @staged_prints k buffer fd size (i + 1) frame 0 running accepted
    (Nat.succ_pos i) fits below
  obtain ⟨rest', printed'⟩ := @staged_prints k buffer fd size (i + 1) frame 1 running accepted
    (Nat.succ_pos i) fits below
  have left := List.append_cancel_left (shown.symm.trans printed)
  have right := List.append_cancel_left (shown'.symm.trans printed')
  rw [← same, left] at right
  have equal := List.append_inj_left right (by rw [List.length_map, List.length_map])
  have there := List.map_inj_left.mp equal addr among
  have hidden : k.callerPage (addr.toNat / pageSize) = false := by
    rw [Bool.not_eq_true] at other
    exact other
  rw [byteAt_staged (below addr among) hidden, byteAt_staged (below addr among) hidden] at there
  exact absurd there (by decide)

/-- `sys_write` discloses nothing, whatever the rest of the machine is like, exactly when it
refuses its arguments, or moves only bytes of the caller's pages, or hangs before it prints
one that is not. -/
theorem write_discloses_iff (running : k.stuck = false) :
    (∀ k', k'.stuck = false → k.SameMemory k' → k.SameOutput k' fd buffer size) ↔
      writeRefused fd buffer size ∨ k.WriteInside buffer size ∨ k.WriteBeyond buffer size := by
  constructor
  · intro secret
    by_contra confined
    simp only [not_or] at confined
    obtain ⟨k', running', same, different⟩ :=
      discloses running confined.1 confined.2.1 confined.2.2
    exact different (secret k' running' same)
  · intro confined k' running' same
    by_cases refused : writeRefused fd buffer size
    · exact same_refused running running' refused
    · rcases confined.resolve_left refused with inside | beyond
      · exact same_inside running running' same refused inside
      · exact same_beyond running running' same refused beyond

theorem write_discloses_boot :
    (∀ k', k'.stuck = false → (Kernel.boot Image.empty).SameMemory k' →
      (Kernel.boot Image.empty).SameOutput k' 1 0x10000 1) ↔
      writeRefused 1 0x10000 1 ∨ (Kernel.boot Image.empty).WriteInside 0x10000 1 ∨
        (Kernel.boot Image.empty).WriteBeyond 0x10000 1 :=
  write_discloses_iff (by decide +kernel)

theorem mapped_ram (m : Mm) (ram : Nat → Nat → Byte) (page : Nat) :
    ({ m with ram := ram } : Mm).mapped page = m.mapped page := rfl

/-- The first task prints a byte of the kernel. -/
theorem write_discloses_counterexample :
    let k := Kernel.boot Image.empty
    let k' := { k with mm := { k.mm with ram := Function.update k.mm.ram 16 fun _ => 0x5A } }
    k'.stuck = false ∧ k.SameMemory k' ∧ ¬ k.SameOutput k' 1 0x10000 1 := by
  intro k k'
  have used : ∀ i < 28, (k.mm.mapped (pagLogInitCode + i)).pbaseAddr ≠ 16 := by decide +kernel
  have elsewhere : ∀ page, k.callerPage page = true → (k.mm.mapped page).pbaseAddr ≠ 16 := by
    intro page mine
    rw [callerPage, Bool.and_eq_true, Bool.or_eq_true, decide_eq_true_iff, decide_eq_true_iff] at mine
    have none : heapPages (Kernel.boot Image.empty).currentTask.heapTop = 0 := by decide +kernel
    rw [show heapPages k.currentTask.heapTop = 0 from none] at mine
    rcases mine.1 with code | heap
    · have size : pagLogInitData + numPagData = pagLogInitCode + 28 := rfl
      rw [← Nat.add_sub_cancel' code.1]
      exact used _ (by omega)
    · omega
  have first : (k.sysWrite 1 0x10000 1).1.console = k.console ++ [0] := by decide +kernel
  have second : (k'.sysWrite 1 0x10000 1).1.console = k'.console ++ [0x5A] := by decide +kernel
  refine ⟨by decide +kernel, ⟨fun page _ => mapped_ram k.mm _ page, ?_⟩, ?_⟩
  · intro page offset mine
    show Function.update k.mm.ram 16 (fun _ => 0x5A) _ offset = _
    rw [Function.update_of_ne (elsewhere page mine)]
  · intro same
    obtain ⟨out, shown, shown'⟩ := same.console
    have left := List.append_cancel_left (first.symm.trans shown)
    have right := List.append_cancel_left (second.symm.trans shown')
    rw [← left] at right
    exact absurd right (by decide)

end Zeos
