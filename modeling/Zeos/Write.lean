import Zeos.Sys

set_option autoImplicit false

/-! The loops of `sys_write`: the bytes they load, and what a fault leaves behind. -/

namespace Zeos

/-! ### Blocks -/

/-- The addresses of a block, in order. -/
def blockAddrs (start : DWord) (size : Nat) : List DWord :=
  (List.range size).map fun i => start + BitVec.ofNat 32 i

theorem blockAddrs_zero (start : DWord) : blockAddrs start 0 = [] := rfl

theorem blockAddrs_length (start : DWord) (size : Nat) : (blockAddrs start size).length = size := by
  rw [blockAddrs, List.length_map, List.length_range]

theorem blockAddrs_append (start : DWord) (first second : Nat) :
    blockAddrs start (first + second) =
      blockAddrs start first ++ blockAddrs (start + BitVec.ofNat 32 first) second := by
  rw [blockAddrs, blockAddrs, blockAddrs, List.range_add, List.map_append, List.map_map]
  congr 1
  apply List.map_congr_left
  intro i _
  show start + BitVec.ofNat 32 (first + i) = start + BitVec.ofNat 32 first + BitVec.ofNat 32 i
  rw [BitVec.ofNat_add, BitVec.add_assoc]

theorem blockAddrs_succ (start : DWord) (size : Nat) :
    blockAddrs start (size + 1) = start :: blockAddrs (start + 1) size := by
  rw [Nat.add_comm, blockAddrs_append]
  show (start + 0#32) :: blockAddrs (start + 1) size = _
  rw [BitVec.add_zero]

namespace Kernel

variable {k k' : Kernel} {addr : DWord} {addrs more : List DWord}

/-- The page of the address is mapped. -/
def present (k : Kernel) (addr : DWord) : Bool := (k.mm.mapped (addr.toNat / pageSize)).present

/-- The byte at an address. -/
def byteAt (k : Kernel) (addr : DWord) : Byte := k.mm.peek addr.toNat

/-- After loads without faults. -/
def loaded (k : Kernel) (addrs : List DWord) : Kernel :=
  { k with loads := (addrs.map (Prod.mk k.current)).reverse ++ k.loads }

/-- After the bytes at these addresses are loaded and printed, each once and in order. -/
def printed (k : Kernel) (addrs : List DWord) : Kernel :=
  { k.loaded addrs with console := k.console ++ addrs.map k.byteAt }

theorem loaded_append : k.loaded (addrs ++ more) = (k.loaded addrs).loaded more := by
  simp only [loaded, List.map_append, List.reverse_append, List.append_assoc]

theorem printed_nil : k.printed [] = k := by
  simp only [printed, loaded, List.map_nil, List.append_nil, List.reverse_nil, List.nil_append]

theorem printed_append : k.printed (addrs ++ more) = (k.printed addrs).printed more := by
  rw [printed, loaded_append, List.map_append, ← List.append_assoc]
  rfl

/-! ### Faults -/

/-- How much has happened to the tables; every fault makes it larger. -/
def tableEvents (k : Kernel) : Nat := k.mm.log.length

theorem log_allocFrame (m : Mm) : m.allocFrame.1.log = m.log := by
  unfold Mm.allocFrame
  split
  · rfl
  · rfl

theorem log_copyFrame (m : Mm) (dir : DirId) (page frame : Nat) :
    m.log.length ≤ (m.copyFrame dir page frame).log.length := by
  have copied := copyData_frame Mm.peek Mm.poke Mm.log (fun _ _ _ => rfl) pageSize
    (page * pageSize) ((pagLogInitHeap + 1) * pageSize)
    (m.setSsPag dir (pagLogInitHeap + 1) frame)
  show m.log.length ≤ (_ :: _ :: (copyData Mm.peek Mm.poke pageSize (page * pageSize)
    ((pagLogInitHeap + 1) * pageSize) (m.setSsPag dir (pagLogInitHeap + 1) frame)).log).length
  rw [copied]
  show m.log.length ≤ (_ :: _ :: _ :: m.log).length
  simp only [List.length_cons]
  omega

theorem events_pfRsi : k.tableEvents ≤ (k.pfRsi addr).tableEvents := by
  unfold pfRsi
  split
  · exact Nat.le_refl _
  · dsimp only
    generalize k.getPT k.current = dir
    generalize addr.toNat >>> 12 = page
    generalize k.mm.getFrame dir page = frame
    split
    · exact Nat.le_succ _
    · split
      · have same := log_allocFrame (k.mm.setCow frame (k.mm.cowCountMem frame - 1))
        split
        · rename_i m allocated
          rw [allocated] at same
          exact Nat.le_of_eq (congrArg List.length same.symm)
        · rename_i m new allocated
          rw [allocated] at same
          have grown := log_copyFrame m dir page new
          have more : (m.copyFrame dir page new).log.length ≤
              ((m.copyFrame dir page new).setSsPag dir page new).log.length := Nat.le_succ _
          have start : k.mm.log.length = m.log.length := congrArg List.length same.symm
          exact Nat.le_trans (Nat.le_trans (Nat.le_of_eq start) grown) more
      · exact Nat.le_refl _

/-- A load or store that is not allowed at once leaves a fault in the history. -/
theorem events_withFault {allowed : Mm → Bool} :
    k.tableEvents ≤ (k.withFault addr allowed).tableEvents ∧
    (allowed k.mm = false → k.tableEvents < (k.withFault addr allowed).tableEvents) := by
  have handled := @events_pfRsi { k with mm := k.mm.fault (addr.toNat / pageSize) } addr
  have faulted : { k with mm := k.mm.fault (addr.toNat / pageSize) }.tableEvents =
      k.tableEvents + 1 := rfl
  rw [faulted] at handled
  unfold withFault
  split
  · rename_i fine
    refine ⟨Nat.le_refl _, fun not => ?_⟩
    rw [fine] at not
    cases not
  · dsimp only
    split
    · exact ⟨by omega, fun _ => by omega⟩
    · change k.tableEvents + 1 ≤ (Kernel.hang _).tableEvents at handled
      exact ⟨by omega, fun _ => by omega⟩

/-! ### Loads -/

/-- What the loads of a block come to: the bytes, or a fault in the history. -/
inductive Fetched (k : Kernel) (addrs : List DWord) : Kernel × List Byte → Prop
  | clean (mapped : ∀ addr ∈ addrs, k.present addr = true) :
      Fetched k addrs (k.loaded addrs, addrs.map k.byteAt)
  | fault {result : Kernel × List Byte} (addr : DWord) (among : addr ∈ addrs)
      (missing : k.present addr = false) (longer : k.tableEvents < result.1.tableEvents) :
      Fetched k addrs result

theorem Fetched.events {result : Kernel × List Byte} (fetched : Fetched k addrs result) :
    k.tableEvents ≤ result.1.tableEvents := by
  cases fetched with
  | clean mapped => exact Nat.le_refl _
  | fault addr among missing longer => exact Nat.le_of_lt longer

/-- Two blocks, one after the other. -/
theorem Fetched.append {first second : Kernel × List Byte} (fetched : Fetched k addrs first)
    (then' : Fetched first.1 more second) :
    Fetched k (addrs ++ more) (second.1, first.2 ++ second.2) := by
  cases fetched with
  | clean mapped =>
      cases then' with
      | clean mapped' =>
          have both : ∀ addr ∈ addrs ++ more, k.present addr = true := by
            intro addr among
            rcases List.mem_append.mp among with early | late
            · exact mapped addr early
            · exact mapped' addr late
          have whole := Fetched.clean both
          rw [loaded_append, List.map_append] at whole
          exact whole
      | fault addr among missing longer =>
          exact .fault addr (List.mem_append_right _ among) missing longer
  | fault addr among missing longer =>
      exact .fault addr (List.mem_append_left _ among) missing
        (Nat.lt_of_lt_of_le longer then'.events)

theorem kernelLoad_fetched (addr : DWord) :
    Fetched k [addr] (k.kernelLoad addr, [(k.kernelLoad addr).byteAt addr]) := by
  cases mapped : k.present addr with
  | true =>
      have clean : k.kernelLoad addr = k.loaded [addr] := by
        unfold kernelLoad withFault
        dsimp only
        exact if_pos mapped
      rw [clean]
      exact .clean fun other among => by rw [List.mem_singleton.mp among, mapped]
  | false =>
      have fault := (@events_withFault { k with loads := (k.current, addr) :: k.loads } addr
        fun m => (m.mapped (addr.toNat / pageSize)).present).2 mapped
      exact .fault addr (List.mem_singleton_self addr) mapped fault

theorem kernelLoads_fetched (size : Nat) : ∀ (k : Kernel) (start : DWord),
    Fetched k (blockAddrs start size) (kernelLoads size k start) := by
  induction size with
  | zero => exact fun k start => .clean nofun
  | succ size ih =>
      intro k start
      rw [blockAddrs_succ]
      exact (kernelLoad_fetched start).append (ih (k.kernelLoad start) (start + 1))

/-- The chunks of the copy loop. -/
theorem copyFromUser_fetched (size : Nat) : ∀ (k : Kernel) (start : DWord),
    Fetched k (blockAddrs start size) (copyFromUser size k start) := by
  induction size using Nat.strongRecOn with
  | ind size ih =>
      intro k start
      match size with
      | 0 | 1 | 2 | 3 | 4 => exact kernelLoads_fetched _ k start
      | size + 5 =>
          have word := kernelLoads_fetched 4 k start
          have rest := ih (size + 1) (by omega) (kernelLoads 4 k start).1 (start + 4)
          have both := word.append rest
          have place : start + 4 = start + BitVec.ofNat 32 4 := rfl
          rw [place, ← blockAddrs_append, Nat.add_comm 4 (size + 1)] at both
          exact both

/-! ### The loop of `sys_write` -/

/-- What the loop comes to: the bytes are printed, or there is a fault in the history. -/
inductive Written (k : Kernel) (addrs : List DWord) : Kernel → Prop
  | clean (mapped : ∀ addr ∈ addrs, k.present addr = true) : Written k addrs (k.printed addrs)
  | fault {result : Kernel} (addr : DWord) (among : addr ∈ addrs)
      (missing : k.present addr = false) (longer : k.tableEvents < result.tableEvents) :
      Written k addrs result

/-- `sys_write_console` after a copy. -/
def printChunk (chunk : Kernel × List Byte) : Kernel :=
  if chunk.1.stuck then chunk.1 else { chunk.1 with console := chunk.1.console ++ chunk.2 }

theorem Fetched.printed (running : k.stuck = false) {result : Kernel × List Byte}
    (fetched : Fetched k addrs result) : Written k addrs (printChunk result) := by
  cases fetched with
  | clean mapped =>
      have free : (k.loaded addrs).stuck = false := running
      rw [printChunk, if_neg (by rw [free]; decide)]
      exact .clean mapped
  | fault addr among missing longer =>
      apply Written.fault addr among missing
      rw [printChunk]
      split
      · exact longer
      · exact longer

theorem events_printChunk {result : Kernel × List Byte} :
    (printChunk result).tableEvents = result.1.tableEvents := by
  rw [printChunk]
  split
  · rfl
  · rfl

/-- The loop, chunk by chunk. -/
theorem writeLoop_succ (fuel size offset : Nat) (buffer : DWord) (k : Kernel) :
    writeLoop (fuel + 1) k buffer size offset = if offset < size then
      writeLoop fuel (printChunk (copyFromUser (min size chunkSize) k
        (buffer + BitVec.ofNat 32 offset))) buffer size (offset + min size chunkSize) else k := rfl

theorem events_writeLoop (fuel : Nat) : ∀ (k : Kernel) (buffer : DWord) (size offset : Nat),
    k.tableEvents ≤ (writeLoop fuel k buffer size offset).tableEvents := by
  induction fuel with
  | zero => exact fun _ _ _ _ => Nat.le_refl _
  | succ fuel ih =>
      intro k buffer size offset
      rw [writeLoop_succ]
      split
      · have copied := (copyFromUser_fetched (min size chunkSize) k
          (buffer + BitVec.ofNat 32 offset)).events
        rw [← events_printChunk] at copied
        exact Nat.le_trans copied (ih ..)
      · exact Nat.le_refl _

/-- A chunk, and what follows when it is printed. -/
theorem Written.append {middle last : Kernel} (running : k.stuck = false)
    (first : Written k addrs middle) (onward : middle.tableEvents ≤ last.tableEvents)
    (second : middle.stuck = false → Written middle more last) :
    Written k (addrs ++ more) last := by
  cases first with
  | clean mapped =>
      cases second running with
      | clean mapped' =>
          rw [← printed_append]
          apply Written.clean
          intro addr among
          rcases List.mem_append.mp among with early | late
          · exact mapped addr early
          · exact mapped' addr late
      | fault addr among missing longer =>
          exact .fault addr (List.mem_append_right _ among) missing longer
  | fault addr among missing longer =>
      exact .fault addr (List.mem_append_left _ among) missing (Nat.lt_of_lt_of_le longer onward)

/-- The loop makes so many rounds that the block is covered, and every round moves as many
bytes as the first. -/
theorem writeLoop_written {size rounds : Nat} {buffer : DWord} : ∀ {k : Kernel} {offset fuel : Nat},
    k.stuck = false → rounds ≤ fuel → size ≤ offset + rounds * min size chunkSize →
    offset + rounds * min size chunkSize < size + min size chunkSize →
    Written k (blockAddrs (buffer + BitVec.ofNat 32 offset) (rounds * min size chunkSize))
      (writeLoop fuel k buffer size offset) := by
  induction rounds with
  | zero =>
      intro k offset fuel running enough covered fits
      have done : writeLoop fuel k buffer size offset = k := by
        cases fuel with
        | zero => rfl
        | succ fuel => rw [writeLoop_succ, if_neg (by omega)]
      rw [done, Nat.zero_mul, blockAddrs_zero]
      have nothing := @Written.clean k [] nofun
      rw [printed_nil] at nothing
      exact nothing
  | succ rounds ih =>
      intro k offset fuel running enough covered fits
      rw [Nat.succ_mul] at covered fits ⊢
      cases fuel with
      | zero => omega
      | succ fuel =>
          have chunk := (copyFromUser_fetched (min size chunkSize) k
            (buffer + BitVec.ofNat 32 offset)).printed running
          rw [writeLoop_succ, if_pos (by omega), Nat.add_comm (rounds * _), blockAddrs_append]
          apply chunk.append running (events_writeLoop ..)
          intro free
          have place : buffer + BitVec.ofNat 32 offset + BitVec.ofNat 32 (min size chunkSize) =
              buffer + BitVec.ofNat 32 (offset + min size chunkSize) := by
            rw [BitVec.ofNat_add, BitVec.add_assoc]
          rw [place]
          exact ih free (by omega) (by omega) (by omega)

/-- How many bytes the loop moves. -/
def movedBytes (size : Nat) : Nat :=
  if size ≤ chunkSize then size else (size + (chunkSize - 1)) / chunkSize * chunkSize

/-- The whole loop. -/
theorem writeLoop_all {size : Nat} {buffer : DWord} (running : k.stuck = false) :
    Written k (blockAddrs buffer (movedBytes size)) (writeLoop size k buffer size 0) := by
  have start : buffer + BitVec.ofNat 32 0 = buffer := BitVec.add_zero buffer
  unfold movedBytes
  split
  · rename_i small
    by_cases empty : size = 0
    · rw [empty, blockAddrs_zero]
      have nothing := @Written.clean k [] nofun
      rw [printed_nil] at nothing
      exact nothing
    · have once := @writeLoop_written size 1 buffer k 0 size running
      rw [Nat.min_eq_left small, start, Nat.one_mul] at once
      exact once (by omega) (by omega) (by omega)
  · rename_i large
    have all := @writeLoop_written size ((size + (chunkSize - 1)) / chunkSize) buffer k 0 size running
    rw [Nat.min_eq_right (by omega), start] at all
    simp only [chunkSize] at all large ⊢
    exact all (by omega) (by omega) (by omega)

end Kernel

end Zeos
