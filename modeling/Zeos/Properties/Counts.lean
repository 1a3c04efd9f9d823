import Zeos.Space.Exact

set_option autoImplicit false

/-! The counts of shared frames. -/

namespace Zeos

/-- The page is in the data region, or one of the top heap pages of the task. -/
def Kernel.OwnPage (k : Kernel) (task : TaskId) (page : Nat) : Prop :=
  (pagLogInitData ≤ page ∧ page < pagLogInitData + numPagData) ∨
    ∃ i < (getHeapPageSize (k.tasks task).heapTop).toNat, page = pagLogInitHeap - i

instance {k : Kernel} {task : TaskId} {page : Nat} : Decidable (k.OwnPage task page) :=
  inferInstanceAs (Decidable (_ ∨ _))

/-- The live tasks that map the frame at a page of their own, with that page. -/
def Kernel.refs (k : Kernel) (frame : Nat) : Set (TaskId × Nat) :=
  { ref | ∃ d, (k.tasks ref.1).dirPagesBaseAddr = some d ∧ k.OwnPage ref.1 ref.2 ∧
    (k.mm.getEntry d ref.2).present = true ∧ k.mm.getFrame d ref.2 = frame }

def Kernel.writable (k : Kernel) (ref : TaskId × Nat) : Bool :=
  (k.mm.getEntry (k.getPT ref.1) ref.2).rw

/-- The count of a frame in use says how many references it has. -/
structure Kernel.CountsRefs (k : Kernel) (frame : Nat) : Prop where
  free : k.mm.physMem frame = FREE_FRAME ↔ k.refs frame = ∅
  single : k.mm.physMem frame ≠ FREE_FRAME → k.mm.cowCountMem frame = 0 →
    ∃ ref, k.refs frame = {ref} ∧ k.writable ref = true
  shared : k.mm.physMem frame ≠ FREE_FRAME → k.mm.cowCountMem frame ≠ 0 →
    (k.refs frame).ncard = (k.mm.cowCountMem frame).toNat ∧
      ∀ ref ∈ k.refs frame, k.writable ref = false
  bounded : k.mm.physMem frame ≠ FREE_FRAME → (k.mm.cowCountMem frame).toNat ≤ nrTasks

/-- Address spaces are shared by `sys_fork` only, and user programs write to pages that are
writable or their own. -/
def forksOnly (k : Kernel) : Option Action → Prop
  | some (.call (.clone _ _ _)) => False
  | some (.store addr _) => k.mm.userWritable (addr.toNat / pageSize) = true ∨
      k.OwnPage k.current (addr.toNat / pageSize)
  | _ => True

instance {k : Kernel} {label : Option Action} : Decidable (forksOnly k label) := by
  unfold forksOnly
  split <;> infer_instance

variable {k : Kernel} {frame page : Nat} {task : TaskId} {d : DirId}

theorem ownPage_iff : k.OwnPage task page ↔ k.space.OwnPage task page :=
  Mm.mem_ownPages.symm

namespace Space

/-- The references, as pages of the table. -/
theorem mem_refs (separate : k.space.Separate) {ref : TaskId × Nat} :
    ref ∈ k.refs frame ↔ ∃ d, k.space.dir ref.1 = some d ∧
      (k.mm.table k.space.Owned).Maps d ref.2 frame := by
  apply exists_congr
  intro d
  apply and_congr_right
  intro home
  rw [ownPage_iff, Mm.table_maps, separate.owned_iff home]

/-- Every sharer of a frame is one reference. -/
theorem ncard_refs (counted : k.space.Counted) :
    (k.refs frame).ncard = ((k.mm.table k.space.Owned).sharers frame).ncard := by
  have image : (fun ref : TaskId × Nat => k.getPT ref.1) '' k.refs frame =
      (k.mm.table k.space.Owned).sharers frame := by
    ext d
    constructor
    · intro member
      obtain ⟨ref, inside, same⟩ := member
      obtain ⟨d', home, maps⟩ := (mem_refs counted.separate).mp inside
      have table : k.getPT ref.1 = d' := congrArg (Option.getD · 0) home
      have here : d = d' := same.symm.trans table
      rw [here]
      exact ⟨ref.2, maps⟩
    · intro member
      obtain ⟨p, maps⟩ := member
      obtain ⟨t, home, _⟩ := (Mm.table_maps.mp maps).1
      exact ⟨(t, p), (mem_refs counted.separate).mpr ⟨d, home, maps⟩,
        congrArg (Option.getD · 0) home⟩
  rw [← image, Set.InjOn.ncard_image]
  intro ref inside ref' inside' same
  obtain ⟨d, home, maps⟩ := (mem_refs counted.separate).mp inside
  obtain ⟨d', home', maps'⟩ := (mem_refs counted.separate).mp inside'
  have table : k.getPT ref.1 = d := congrArg (Option.getD · 0) home
  have table' : k.getPT ref'.1 = d' := congrArg (Option.getD · 0) home'
  have equal : d = d' := by
    rw [← table, ← table']
    exact same
  rw [equal] at home
  exact Prod.ext (counted.separate ref.1 ref'.1 d' home home') (counted.exact.page maps maps')

/-- A reference may write exactly while the frame is not counted. -/
theorem writable_iff (counted : k.space.Counted) {ref : TaskId × Nat} (inside : ref ∈ k.refs frame) :
    k.writable ref = true ↔ k.mm.cowCountMem frame = 0 := by
  obtain ⟨d, home, maps⟩ := (mem_refs counted.separate).mp inside
  obtain ⟨here, present, same⟩ := Mm.table_maps.mp maps
  have table : k.getPT ref.1 = d := congrArg (Option.getD · 0) home
  have slot := Mm.slot_of here present
  rw [same] at slot
  rw [Kernel.writable, table]
  apply (counted.exact.right slot).trans
  show (k.mm.cowCountMem frame).toNat = 0 ↔ _
  rw [BitVec.toNat_eq]
  rfl

end Space

theorem forksOnly_alone {label : Option Action} (allowed : forksOnly k label) :
    Space.NoClone label := by
  intro function stack exitFunc same
  rw [same] at allowed
  exact allowed

theorem forksOnly_ownFault {label : Option Action} (allowed : forksOnly k label) :
    k.space.OwnFault label := by
  intro addr value same denied _ home owner _
  rw [same] at allowed
  rcases allowed with writable | own
  · exact absurd (writable.symm.trans denied) (by decide)
  · exact ownPage_iff.mp own

/-- While address spaces are shared by `sys_fork` only, the counts of all frames that hold
no code are exact. -/
theorem counts_exact (reached : Reachable forksOnly k) (rest : k.atRest)
    (user : numPagKernel ≤ frame) (notCode : ∀ i < numPagCode, frame ≠ codeFrame i) :
    k.CountsRefs frame := by
  have counted := reachable_exact (fun _ _ => forksOnly_alone)
    (fun _ _ allowed _ _ => forksOnly_ownFault allowed) reached rest.2
  have inUse : k.mm.physMem frame ≠ FREE_FRAME → (k.mm.table k.space.Owned).used frame :=
    fun notFree => ⟨user, notCode, (counted.marked frame).resolve_left notFree⟩
  have size : k.mm.physMem frame ≠ FREE_FRAME →
      (k.refs frame).ncard = max 1 (k.mm.cowCountMem frame).toNat :=
    fun notFree => (Space.ncard_refs counted).trans (counted.exact.size (inUse notFree))
  constructor
  · constructor
    · intro free
      by_contra some
      obtain ⟨ref, member⟩ := Set.nonempty_iff_ne_empty.mpr some
      obtain ⟨d, _, maps⟩ := (Space.mem_refs counted.separate).mp member
      exact absurd ((counted.exact.used maps).2.2.symm.trans free) (by decide)
    · intro none
      by_contra notFree
      have many := size notFree
      rw [none, Set.ncard_empty] at many
      omega
  · intro notFree zero
    have one := size notFree
    rw [zero] at one
    obtain ⟨ref, only⟩ := Set.ncard_eq_one.mp one
    refine ⟨ref, only, (Space.writable_iff counted ?_).mpr zero⟩
    rw [only]
    rfl
  · intro notFree some
    have positive : (k.mm.cowCountMem frame).toNat ≠ 0 :=
      fun zero => some (BitVec.eq_of_toNat_eq zero)
    refine ⟨?_, ?_⟩
    · rw [size notFree]
      omega
    · intro ref member
      rw [← Bool.not_eq_true, Space.writable_iff counted member]
      exact some
  · intro notFree
    have most := counted.exact.count_le (inUse notFree)
    rw [Nat.card_eq_fintype_card, Fintype.card_fin] at most
    exact most

/-- A child is forked, and the parent writes to its first data page. -/
theorem counts_exact_fork :
    (Kernel.after (fun k label => decide (forksOnly k label))
      [some (.call .fork), some (.store 0x108000 1)]).CountsRefs 272 := by
  apply counts_exact
  · apply (reached_after (by decide +kernel)).mono
    intro k label allowed
    exact of_decide_eq_true allowed
  · exact ⟨by decide +kernel, by decide +kernel⟩
  · decide
  · decide

end Zeos
