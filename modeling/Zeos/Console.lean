import Zeos.Space.Stores
import Zeos.Write

set_option autoImplicit false

/-! What loads that fault do to the screen. -/

namespace Zeos

namespace Kernel

variable {k k' : Kernel} {addr : DWord} {addrs : List DWord}

/-- Text is only ever appended, and none once the machine is stuck. -/
structure Prints (k k' : Kernel) : Prop where
  grows : ∃ out, k'.console = k.console ++ out
  halted : k.stuck = true → k'.stuck = true ∧ k'.console = k.console

theorem Prints.refl (k : Kernel) : Prints k k :=
  ⟨⟨[], (List.append_nil _).symm⟩, fun stuck => ⟨stuck, rfl⟩⟩

theorem Prints.trans {last : Kernel} (first : Prints k k') (second : Prints k' last) :
    Prints k last := by
  obtain ⟨early, grown⟩ := first.grows
  obtain ⟨late, grown'⟩ := second.grows
  refine ⟨⟨early ++ late, ?_⟩, fun stuck => ?_⟩
  · rw [grown', grown, List.append_assoc]
  · obtain ⟨stuck', same⟩ := first.halted stuck
    obtain ⟨stuck'', same'⟩ := second.halted stuck'
    exact ⟨stuck'', same'.trans same⟩

/-- Steps that print nothing. -/
theorem Prints.quiet (same : k'.console = k.console) (kept : k.stuck = true → k'.stuck = true) :
    Prints k k' :=
  ⟨⟨[], by rw [same, List.append_nil]⟩, fun stuck => ⟨kept stuck, same⟩⟩

/-- The characters of a message. -/
def message (text : String) : List Byte := text.toList.map fun c => BitVec.ofNat 8 c.toNat

theorem console_text {words : String} : (k.text words).console =
    if k.stuck then k.console else k.console ++ message words := rfl

/-- A message, and then the machine hangs. -/
theorem prints_hang {words : String} : Prints k (k.text words).hang := by
  refine ⟨?_, fun stuck => ⟨rfl, ?_⟩⟩
  · show ∃ out, (k.text words).console = k.console ++ out
    rw [console_text]
    split
    · exact ⟨[], (List.append_nil _).symm⟩
    · exact ⟨_, rfl⟩
  · show (k.text words).console = k.console
    rw [console_text, if_pos stuck]

theorem prints_mm {m : Mm} : Prints k { k with mm := m } := .quiet rfl id

theorem prints_pfRsi : Prints k (k.pfRsi addr) := by
  unfold pfRsi
  split
  · exact prints_hang
  · dsimp only
    generalize k.getPT k.current = dir
    generalize addr.toNat >>> 12 = page
    generalize k.mm.getFrame dir page = frame
    split
    · exact prints_mm
    · split
      · split
        · exact prints_mm.trans prints_hang
        · exact prints_mm
      · exact prints_hang

theorem prints_withFault {allowed : Mm → Bool} : Prints k (k.withFault addr allowed) := by
  have handled : Prints k (Kernel.pfRsi { k with mm := k.mm.fault (addr.toNat / pageSize) } addr) :=
    prints_mm.trans prints_pfRsi
  unfold withFault
  split
  · exact .refl k
  · dsimp only
    split
    · exact handled
    · exact handled.trans (.quiet rfl fun _ => rfl)

theorem prints_kernelLoad : Prints k (k.kernelLoad addr) := by
  have noted : Prints k { k with loads := (k.current, addr) :: k.loads } := .quiet rfl id
  unfold kernelLoad
  apply noted.trans
  exact prints_withFault

/-- The copy loop loads the block byte by byte. -/
theorem kernelLoads_foldl (size : Nat) : ∀ (k : Kernel) (start : DWord),
    (kernelLoads size k start).1 = (blockAddrs start size).foldl kernelLoad k := by
  induction size with
  | zero => exact fun _ _ => rfl
  | succ size ih =>
      intro k start
      rw [blockAddrs_succ, List.foldl_cons, ← ih]
      rfl

theorem copyFromUser_foldl (size : Nat) : ∀ (k : Kernel) (start : DWord),
    (copyFromUser size k start).1 = (blockAddrs start size).foldl kernelLoad k := by
  induction size using Nat.strongRecOn with
  | ind size ih =>
      intro k start
      match size with
      | 0 | 1 | 2 | 3 | 4 => exact kernelLoads_foldl _ k start
      | size + 5 =>
          have split : blockAddrs start (size + 5) =
              blockAddrs start 4 ++ blockAddrs (start + 4) (size + 1) := by
            rw [show size + 5 = 4 + (size + 1) by omega, blockAddrs_append]
            rfl
          rw [split, List.foldl_append, ← kernelLoads_foldl 4, ← ih (size + 1) (by omega)]
          rfl

theorem prints_foldl (addrs : List DWord) : ∀ k : Kernel, Prints k (addrs.foldl kernelLoad k) := by
  induction addrs with
  | nil => exact .refl
  | cons addr rest ih => exact fun k => prints_kernelLoad.trans (ih _)

theorem prints_copyFromUser (size : Nat) (start : DWord) : Prints k (copyFromUser size k start).1 := by
  rw [copyFromUser_foldl]
  exact prints_foldl _ k

theorem prints_printChunk {chunk : Kernel × List Byte} : Prints chunk.1 (printChunk chunk) := by
  unfold printChunk
  split
  · exact .refl _
  · rename_i running
    exact ⟨⟨_, rfl⟩, fun stuck => absurd stuck running⟩

theorem prints_writeLoop (fuel : Nat) : ∀ (k : Kernel) (buffer : DWord) (size offset : Nat),
    Prints k (writeLoop fuel k buffer size offset) := by
  induction fuel with
  | zero => exact fun k _ _ _ => .refl k
  | succ fuel ih =>
      intro k buffer size offset
      rw [writeLoop_succ]
      split
      · exact ((prints_copyFromUser _ _).trans prints_printChunk).trans (ih _ _ _ _)
      · exact .refl k

/-! ### Addresses that `pf_rsi` refuses -/

/-- No task has memory from the page after the heap on. -/
theorem refused (high : pagLogInitHeap < addr.toNat / pageSize) :
    k.accessOk .write addr 1 = false := by
  have heap : pagLogInitHeap = 511 := rfl
  have user : userFirstPage = 256 := rfl
  have shift : ∀ x : Nat, x >>> 12 = x / pageSize := fun x => Nat.shiftRight_eq_div_pow x 12
  rw [heap] at high
  unfold accessOk
  dsimp only
  rw [shift, shift, heap, user]
  generalize addr.toNat / pageSize = first at high ⊢
  generalize (addr + 1).toNat / pageSize = last
  split
  · rfl
  · rename_i order
    simp only [numPagCode, numPagData]
    split
    · rename_i granted
      omega
    · rw [decide_eq_false_iff_not]
      omega

/-- Loads there are of mapped bytes, or the end. -/
inductive Perilous (k : Kernel) (addrs : List DWord) : Kernel → Prop
  | clean (mapped : ∀ addr ∈ addrs, k.present addr = true) : Perilous k addrs (k.loaded addrs)
  | hung {k' : Kernel} (stuck : k'.stuck = true)
      (console : k.stuck = false → k'.console = k.console ++ message "WRONG ACCESS") :
      Perilous k addrs k'

theorem kernelLoad_high (high : pagLogInitHeap < addr.toNat / pageSize) :
    Perilous k [addr] (k.kernelLoad addr) := by
  by_cases mapped : k.present addr = true
  · have clean : k.kernelLoad addr = k.loaded [addr] := by
      unfold kernelLoad withFault
      dsimp only
      exact if_pos mapped
    rw [clean]
    exact .clean fun other among => by rw [List.mem_singleton.mp among, mapped]
  · have handled : ∀ k : Kernel, (k.pfRsi addr).stuck = true ∧
        (k.stuck = false → (k.pfRsi addr).console = k.console ++ message "WRONG ACCESS") := by
      intro k
      unfold pfRsi
      rw [refused high]
      refine ⟨rfl, fun running => ?_⟩
      show (k.text "WRONG ACCESS").console = _
      rw [console_text, running]
      rfl
    obtain ⟨stuck, console⟩ := handled { k with
      loads := (k.current, addr) :: k.loads
      mm := k.mm.fault (addr.toNat / pageSize) }
    have shape : k.kernelLoad addr = Kernel.pfRsi { k with
        loads := (k.current, addr) :: k.loads
        mm := k.mm.fault (addr.toNat / pageSize) } addr := by
      unfold kernelLoad withFault
      dsimp only
      rw [if_neg (show ¬ (k.mm.mapped (addr.toNat / pageSize)).present = true from mapped),
        if_pos (by rw [stuck]; rfl)]
    rw [shape]
    exact .hung stuck console

/-- Beyond the page tables nothing is mapped. -/
theorem present_beyond (beyond : totalPages ≤ addr.toNat / pageSize) : k.present addr = false := by
  unfold present Mm.mapped
  split
  · rw [if_neg (by omega)]
  · rfl

/-- Loads one after the other. -/
theorem Perilous.append {last : Kernel} {more : List DWord} (first : Perilous k addrs k')
    (onward : Prints k' last) (second : Perilous k' more last) :
    Perilous k (addrs ++ more) last := by
  cases first with
  | clean mapped =>
      cases second with
      | clean mapped' =>
          rw [← loaded_append]
          apply Perilous.clean
          intro addr among
          rcases List.mem_append.mp among with early | late
          · exact mapped addr early
          · exact mapped' addr late
      | hung stuck console => exact .hung stuck console
  | hung stuck console =>
      obtain ⟨stuck', same⟩ := onward.halted stuck
      exact .hung stuck' fun running => same.trans (console running)

theorem foldl_high (addrs : List DWord) : ∀ k : Kernel,
    (∀ addr ∈ addrs, pagLogInitHeap < addr.toNat / pageSize) →
    Perilous k addrs (addrs.foldl kernelLoad k) := by
  induction addrs with
  | nil => exact fun k _ => .clean nofun
  | cons addr rest ih =>
      intro k high
      exact (kernelLoad_high (high addr List.mem_cons_self)).append (prints_foldl ..)
        (ih _ fun other among => high other (List.mem_cons_of_mem _ among))

/-- A chunk that touches a page beyond the tables begins on the last page of them, or
beyond. -/
theorem chunk_split {size : Nat} {start : DWord} (small : size ≤ chunkSize)
    (beyond : ∃ addr ∈ blockAddrs start size, totalPages ≤ addr.toNat / pageSize) :
    ∃ before addr after, blockAddrs start size = before ++ addr :: after ∧
      totalPages ≤ addr.toNat / pageSize ∧
      ∀ other ∈ before, pagLogInitHeap < other.toNat / pageSize := by
  obtain ⟨addr, among, outside⟩ := beyond
  obtain ⟨i, inside, rfl⟩ := List.mem_map.mp among
  have below := List.mem_range.mp inside
  have value : ∀ i, i < size → start.toNat < totalPages * pageSize →
      (start + BitVec.ofNat 32 i).toNat = start.toNat + i := by
    intro i below low
    simp only [totalPages, pageSize, chunkSize] at small low
    rw [BitVec.toNat_add, BitVec.toNat_ofNat]
    omega
  by_cases low : start.toNat < totalPages * pageSize
  · have place := value i below low
    have first : totalPages * pageSize - start.toNat < size := by
      rw [place] at outside
      simp only [totalPages, pageSize, chunkSize] at outside low small ⊢
      omega
    generalize length : totalPages * pageSize - start.toNat = early at first
    have split : blockAddrs start size = blockAddrs start early ++
        (start + BitVec.ofNat 32 early) :: blockAddrs (start + BitVec.ofNat 32 early + 1)
          (size - early - 1) := by
      rw [← blockAddrs_succ, ← blockAddrs_append]
      congr 1
      omega
    refine ⟨_, _, _, split, ?_, ?_⟩
    · rw [value early first low]
      simp only [totalPages, pageSize] at low length ⊢
      omega
    · intro other among'
      obtain ⟨j, inside', rfl⟩ := List.mem_map.mp among'
      have below' := List.mem_range.mp inside'
      have heap : pagLogInitHeap = 511 := rfl
      rw [value j (by omega) low, heap]
      simp only [totalPages, pageSize, chunkSize] at low length small ⊢
      omega
  · obtain ⟨rest, positive⟩ : ∃ rest, size = rest + 1 := ⟨size - 1, by omega⟩
    refine ⟨[], start, blockAddrs (start + 1) rest, ?_, ?_, nofun⟩
    · rw [positive, blockAddrs_succ]
      rfl
    · simp only [totalPages, pageSize] at low ⊢
      omega

/-- Such a chunk is not copied: the machine hangs. -/
theorem copyFromUser_beyond {size : Nat} {start : DWord} (running : k.stuck = false)
    (small : size ≤ chunkSize)
    (beyond : ∃ addr ∈ blockAddrs start size, totalPages ≤ addr.toNat / pageSize) :
    (copyFromUser size k start).1.stuck = true ∧
      (copyFromUser size k start).1.console = k.console ++ message "WRONG ACCESS" := by
  obtain ⟨before, addr, after, split, outside, high⟩ := chunk_split small beyond
  have heap : pagLogInitHeap = 511 := rfl
  have all : ∀ other ∈ before ++ [addr], pagLogInitHeap < other.toNat / pageSize := by
    intro other among
    rcases List.mem_append.mp among with early | last
    · exact high other early
    · have tables : totalPages = 1024 := rfl
      rw [List.mem_singleton.mp last]
      omega
  have whole : before ++ addr :: after = (before ++ [addr]) ++ after := by simp
  have onward := prints_foldl after ((before ++ [addr]).foldl kernelLoad k)
  have loads := foldl_high (before ++ [addr]) k all
  rw [copyFromUser_foldl, split, whole, List.foldl_append]
  generalize (before ++ [addr]).foldl kernelLoad k = middle at loads onward ⊢
  cases loads with
  | clean mapped =>
      have unmapped := @present_beyond k addr outside
      rw [mapped addr (by simp)] at unmapped
      cases unmapped
  | hung stuck console =>
      obtain ⟨stuck', same⟩ := onward.halted stuck
      exact ⟨stuck', same.trans (console running)⟩

end Kernel

end Zeos
