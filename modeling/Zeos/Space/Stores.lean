import Zeos.Space.Calls

set_option autoImplicit false

/-! Stores of a block by ring 0: all its bytes are stored, or the machine is stuck. -/

namespace Zeos

namespace Mm

variable {m : Mm} {addr other : Nat} {value : Byte}

theorem peek_poke : (m.poke addr value).peek addr = value := by
  have same : (m.poke addr value).mapped (addr / pageSize) = m.mapped (addr / pageSize) := rfl
  rw [Mm.peek, same]
  show Function.update m.ram _ (Function.update _ _ _) _ _ = value
  rw [Function.update_self, Function.update_self]

/-- A store leaves every byte with another offset in its page. -/
theorem peek_poke_other (apart : other % pageSize ≠ addr % pageSize) :
    (m.poke addr value).peek other = m.peek other := by
  show Function.update m.ram _ (Function.update _ _ _) _ _ = _
  rw [Function.update_apply]
  split
  · rename_i same
    rw [Function.update_of_ne apart, ← same]
    rfl
  · rfl

end Mm

namespace Kernel

variable {k : Kernel} {home : DirId} {addr : DWord} {value : Byte}

/-! ### A machine that is stuck -/

theorem stuck_mm {m : Mm} : Kernel.stuck { k with mm := m } = k.stuck := rfl

theorem stuck_pfRsi (stuck : k.stuck = true) : (k.pfRsi addr).stuck = true := by
  unfold pfRsi
  split
  · rfl
  · dsimp only
    generalize k.getPT k.current = dir
    generalize addr.toNat >>> 12 = page
    generalize k.mm.getFrame dir page = frame
    split
    · exact stuck
    · split
      · split
        · rfl
        · exact stuck_mm.trans stuck
      · rfl

theorem stuck_withFault {allowed : Mm → Bool} (stuck : k.stuck = true) :
    (k.withFault addr allowed).stuck = true := by
  have handled := @stuck_pfRsi { k with mm := k.mm.fault (addr.toNat / pageSize) } addr stuck
  unfold withFault
  split
  · exact stuck
  · dsimp only
    split
    · exact handled
    · rfl

theorem stuck_kernelStore (stuck : k.stuck = true) : (k.kernelStore addr value).stuck = true := by
  have faulted := @stuck_withFault { k with stores := (k.current, addr) :: k.stores } addr
    (fun m => m.kernelWritable (addr.toNat / pageSize)) stuck
  unfold kernelStore storeWith
  dsimp only
  rw [if_pos faulted]
  exact faulted

theorem stuck_kernelStores (values : List Byte) : ∀ (k : Kernel) (addr : DWord),
    k.stuck = true → (k.kernelStores addr values).stuck = true := by
  induction values with
  | nil => exact fun _ _ stuck => stuck
  | cons value rest ih => exact fun k addr stuck => ih _ _ (stuck_kernelStore stuck)

/-! ### Blocks -/

/-- After one store that is allowed. -/
def stored (k : Kernel) (addr : DWord) (value : Byte) : Kernel :=
  { k with mm := k.mm.poke addr.toNat value, stores := (k.current, addr) :: k.stores }

theorem kernelStore_eq (running : k.stuck = false)
    (allowed : k.mm.kernelWritable (addr.toNat / pageSize) = true) :
    k.kernelStore addr value = k.stored addr value := by
  unfold kernelStore storeWith withFault
  dsimp only
  rw [if_pos allowed, if_neg (by rw [running]; decide)]
  rfl

/-- Nothing but memory and the history of stores differs. -/
structure StoresOnly (k k' : Kernel) : Prop where
  shape : ∃ ram stores, k' = { k with mm := { k.mm with ram := ram }, stores := stores }

theorem next_byte (addr : DWord) (i : Nat) :
    addr + 1 + BitVec.ofNat 32 i = addr + BitVec.ofNat 32 (i + 1) := by
  rw [BitVec.add_assoc, Nat.add_comm i 1, BitVec.ofNat_add]
  rfl

/-- The offset of an address that is less than a page away. -/
theorem offset_apart {i : Nat} (first : 0 < i) (near : i < pageSize) :
    (addr + BitVec.ofNat 32 i).toNat % pageSize ≠ addr.toNat % pageSize := by
  have bound := addr.isLt
  simp only [pageSize] at near ⊢
  rw [BitVec.toNat_add, BitVec.toNat_ofNat]
  omega

/-- A block of at most a page, where every store is allowed. -/
theorem kernelStores_all (values : List Byte) : ∀ (k : Kernel) (addr : DWord),
    values.length ≤ pageSize → k.stuck = false →
    (∀ i < values.length, k.mm.kernelWritable ((addr + BitVec.ofNat 32 i).toNat / pageSize) = true) →
    StoresOnly k (k.kernelStores addr values) ∧
      (∀ i < values.length,
        values[i]? = some ((k.kernelStores addr values).mm.peek (addr + BitVec.ofNat 32 i).toNat)) ∧
      ∀ other, (∀ i < values.length,
        other % pageSize ≠ (addr + BitVec.ofNat 32 i).toNat % pageSize) →
        (k.kernelStores addr values).mm.peek other = k.mm.peek other := by
  induction values with
  | nil => exact fun k addr _ _ _ => ⟨⟨k.mm.ram, k.stores, rfl⟩, nofun, fun _ _ => rfl⟩
  | cons value rest ih =>
      intro k addr fits running allowed
      have step := next_byte addr
      have here : addr + BitVec.ofNat 32 0 = addr := BitVec.add_zero addr
      have first := allowed 0 (Nat.zero_lt_succ _)
      rw [here] at first
      rw [kernelStores, kernelStore_eq running first]
      rw [List.length_cons] at fits allowed ⊢
      obtain ⟨⟨ram, stores, shape⟩, bytes, others⟩ := ih (k.stored addr value) (addr + 1) (by omega)
        running (fun i below => by
          rw [step]
          exact allowed (i + 1) (by omega))
      refine ⟨⟨ram, stores, shape⟩, ?_, ?_⟩
      · intro i below
        cases i with
        | zero =>
            rw [here, others]
            · exact congrArg some Mm.peek_poke.symm
            · intro j later
              rw [step]
              exact (offset_apart (Nat.zero_lt_succ j) (by omega)).symm
        | succ i =>
            rw [← step]
            exact bytes i (by omega)
      · intro other apart
        rw [others]
        · apply Mm.peek_poke_other
          have away := apart 0 (by omega)
          rw [here] at away
          exact away
        · intro i below
          rw [step]
          exact apart (i + 1) (by omega)

/-- A store to a page that is not there. -/
theorem kernelStore_missing (laid : k.space.Laid) (owner : k.space.dir k.current = some home)
    (missing : (k.mm.mapped (addr.toNat / pageSize)).present = false) :
    (k.kernelStore addr value).stuck = true := by
  have attempted : (Kernel.space { k with stores := (k.current, addr) :: k.stores }).Laid :=
    laid.minor (.attempt addr)
  have quiet := withFault_quiet attempted owner addr
    (fun m => m.kernelWritable (addr.toNat / pageSize))
    fun both => (kernelWritable_eq laid).trans both.1
  rcases quiet with ⟨fine, _⟩ | ⟨stuck, _⟩
  · have present := (kernelWritable_eq laid).symm.trans fine
    rw [missing] at present
    cases present
  · unfold kernelStore storeWith
    dsimp only
    rw [if_pos stuck]
    exact stuck

/-- A block with a byte on a page that is not there. -/
theorem kernelStores_missing (values : List Byte) : ∀ (k : Kernel) (addr : DWord),
    k.space.Laid → k.space.dir k.current = some home →
    (∃ i < values.length,
      (k.mm.mapped ((addr + BitVec.ofNat 32 i).toNat / pageSize)).present = false) →
    (k.kernelStores addr values).stuck = true := by
  induction values with
  | nil =>
      intro k addr laid owner gap
      obtain ⟨i, below, _⟩ := gap
      exact absurd below (Nat.not_lt_zero i)
  | cons value rest ih =>
      intro k addr laid owner gap
      have here : addr + BitVec.ofNat 32 0 = addr := BitVec.add_zero addr
      have step := next_byte addr
      rw [kernelStores]
      cases stuck : k.stuck with
      | true => exact stuck_kernelStores rest _ _ (stuck_kernelStore stuck)
      | false =>
          cases present : (k.mm.mapped (addr.toNat / pageSize)).present with
          | false => exact stuck_kernelStores rest _ _ (kernelStore_missing laid owner present)
          | true =>
              rw [kernelStore_eq stuck ((kernelWritable_eq laid).trans present)]
              apply ih
              · exact laid.minor (.store addr value present)
              · exact owner
              · obtain ⟨i, below, missing⟩ := gap
                cases i with
                | zero =>
                    rw [here, present] at missing
                    cases missing
                | succ i =>
                    rw [List.length_cons] at below
                    refine ⟨i, by omega, ?_⟩
                    rw [step]
                    exact missing

end Kernel

end Zeos
