import Zeos.Boot
import Zeos.Write

set_option autoImplicit false

/-! What `sys_write` prints. -/

namespace Zeos

open Kernel

variable {k : Kernel} {buffer : DWord}

/-- `sys_write` on the screen, with arguments it accepts. -/
theorem sysWrite_eq {size : Int} (some : buffer ≠ 0) (positive : 0 ≤ size) :
    k.sysWrite 1 buffer size = (writeLoop size.toNat k buffer size.toNat 0, size) := by
  unfold sysWrite
  rw [if_neg (by decide), if_neg some, if_neg (by omega)]

/-- A loop that prints a block has moved as many bytes as the block has, without a fault. -/
theorem Kernel.Written.size {total size : Nat}
    (written : Written k (blockAddrs buffer total) (k.printed (blockAddrs buffer size))) :
    total = size ∧ ∀ addr ∈ blockAddrs buffer total, k.present addr = true := by
  have shape : ∀ result, Written k (blockAddrs buffer total) result →
      result = k.printed (blockAddrs buffer size) →
      total = size ∧ ∀ addr ∈ blockAddrs buffer total, k.present addr = true := by
    intro result written same
    cases written with
    | clean mapped =>
        have lengths := congrArg (fun k => k.loads.length) same
        simp only [printed, loaded, List.length_append, List.length_reverse, List.length_map,
          blockAddrs_length] at lengths
        exact ⟨by omega, mapped⟩
    | fault addr among missing longer =>
        rw [same] at longer
        exact absurd longer (Nat.lt_irrefl _)
  exact shape _ written rfl

theorem movedBytes_exact (size : Nat) :
    movedBytes size = size ↔ size ≤ chunkSize ∨ chunkSize ∣ size := by
  unfold movedBytes
  split
  · rename_i small
    exact iff_of_true rfl (Or.inl small)
  · rename_i large
    simp only [chunkSize] at large ⊢
    omega

/-- `sys_write` prints the bytes of the block once each and in order, loads no other byte,
changes nothing else and returns the size, exactly for blocks of mapped pages whose last
chunk is full or the only one. -/
theorem write_prints_once {size : Int} (running : k.stuck = false) (some : buffer ≠ 0)
    (positive : 0 ≤ size) :
    k.sysWrite 1 buffer size = (k.printed (blockAddrs buffer size.toNat), size) ↔
      (size.toNat ≤ chunkSize ∨ chunkSize ∣ size.toNat) ∧
      ∀ i < size.toNat, k.present (buffer + BitVec.ofNat 32 i) = true := by
  have written := @writeLoop_all k size.toNat buffer running
  have listed : ∀ i < size.toNat,
      buffer + BitVec.ofNat 32 i ∈ blockAddrs buffer size.toNat := by
    intro i below
    exact List.mem_map.mpr ⟨i, List.mem_range.mpr below, rfl⟩
  rw [sysWrite_eq some positive, Prod.mk.injEq, and_iff_left rfl]
  constructor
  · intro prints
    rw [prints] at written
    obtain ⟨exact', mapped⟩ := written.size
    refine ⟨(movedBytes_exact _).mp exact', fun i below => mapped _ ?_⟩
    rw [exact']
    exact listed i below
  · intro both
    obtain ⟨sizes, mapped⟩ := both
    rw [(movedBytes_exact _).mpr sizes] at written
    generalize writeLoop size.toNat k buffer size.toNat 0 = result at written ⊢
    cases written with
    | clean _ => rfl
    | fault addr among missing longer =>
        obtain ⟨i, below, rfl⟩ := List.mem_map.mp among
        rw [mapped i (List.mem_range.mp below)] at missing
        cases missing

/-- Ten bytes of the data pages. -/
theorem write_prints_once_ten :
    (Kernel.boot Image.empty).sysWrite 1 0x108000 10 =
      ((Kernel.boot Image.empty).printed (blockAddrs 0x108000 10), 10) ↔
    ((10 : Int).toNat ≤ chunkSize ∨ chunkSize ∣ (10 : Int).toNat) ∧
      ∀ i < (10 : Int).toNat,
        (Kernel.boot Image.empty).present (0x108000 + BitVec.ofNat 32 i) = true :=
  write_prints_once (by decide +kernel) (by decide) (by decide)

/-- Of a block of 257 bytes, 512 are loaded and printed. -/
theorem write_prints_once_counterexample :
    (∀ i < 512, (Kernel.boot Image.empty).present (0x108000 + BitVec.ofNat 32 i) = true) ∧
    (Kernel.boot Image.empty).sysWrite 1 0x108000 257 ≠
      ((Kernel.boot Image.empty).printed (blockAddrs 0x108000 257), 257) := by
  constructor
  · decide +kernel
  · intro prints
    have written := @writeLoop_all (Kernel.boot Image.empty) 257 0x108000 (by decide +kernel)
    rw [sysWrite_eq (by decide) (by decide), Prod.mk.injEq] at prints
    have loop : writeLoop 257 (Kernel.boot Image.empty) 0x108000 257 0 = _ := prints.1
    rw [loop] at written
    exact absurd written.size.1 (by decide)

end Zeos
