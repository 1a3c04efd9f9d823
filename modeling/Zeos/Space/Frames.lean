import Zeos.Space.Table

set_option autoImplicit false

/-! What each change of the tables is for the frames of the tracked pages, whatever
pages are tracked. -/

namespace Zeos

open Sharing (Op Ops)

namespace Space

variable {s s' : Space} {tracked : DirId → Nat → Prop} {home dir : DirId} {child : TaskId}
  {page frame : Nat}

/-- Only data and heap pages are tracked. -/
def Within (tracked : DirId → Nat → Prop) : Prop :=
  ∀ d p, tracked d p → pagLogInitData ≤ p ∧ p ≤ pagLogInitHeap

theorem table_minor (minor : Minor s s') : s'.mm.table tracked = s.mm.table tracked := by
  cases minor with
  | turn next =>
      unfold turn
      dsimp only
      split
      · exact Mm.table_frame (Mm.getEntry_setCr3 ..) rfl rfl
      · rfl
  | store _ _ _ => exact Mm.table_frame rfl rfl rfl
  | attempt _ => rfl
  | miss _ => exact Mm.table_frame rfl rfl rfl
  | write _ _ _ => exact Mm.table_frame rfl rfl rfl

theorem table_minors (minors : Minors s s') : s'.mm.table tracked = s.mm.table tracked := by
  induction minors with
  | refl => rfl
  | tail _ minor ih => exact (table_minor minor).trans ih

theorem ops_fork (laid : s.Laid) (busy : s.current ≠ s.idle) (owner : s.dir s.current = some home)
    (apart : home ≠ dir) (within : Within tracked) (here : ∀ p, s.OwnPage s.current p → tracked home p)
    (vacant : ∀ p, s.OwnPage s.current p → ¬ tracked dir p) :
    Ops Mm.bound (s.mm.table tracked) ((s.fork home child dir).mm.table fun d q =>
      tracked d q ∨ d = dir ∧ s.OwnPage s.current q) := by
  have room := (laid.top s.current (housed owner)).2
  have code := @Mm.copyCodePages_spec s.mm home dir apart
  have low : ∀ p, s.OwnPage s.current p → pagLogInitData ≤ p :=
    fun p own => (Mm.ownPages_low room own).1
  have entry : ∀ d p, pagLogInitData ≤ p →
      (Kernel.copyCodePages s.mm home dir).getEntry d p = s.mm.getEntry d p := by
    intro d p high
    rw [code.entry, if_neg (by omega)]
  have same : (Kernel.copyCodePages s.mm home dir).table tracked = s.mm.table tracked := by
    apply Mm.table_ext _ code.phys code.cow
    intro d p
    by_cases high : tracked d p
    · exact Mm.slot_congr Iff.rfl (entry d p (within d p high).1)
    · rw [Mm.slot_vacant fun both => high both.1, Mm.slot_vacant fun both => high both.1]
  have shared := @Mm.ops_shareAll (Kernel.copyCodePages s.mm home dir) tracked home dir apart
    (Mm.ownPages s.runningPages) (Mm.ownPages_nodup room) here (by
      intro p own
      rw [entry home p (low p own)]
      exact laid.own s.current home p owner busy own) vacant
  rw [same, ← Mm.sharePages_eq] at shared
  unfold fork
  dsimp only
  generalize Kernel.sharePages _ home dir s.runningPages = m at shared ⊢
  rw [Mm.table_frame (Mm.getEntry_setCr3 ..) rfl rfl]
  exact shared

theorem exitPages_fst {count : Nat} : (Mm.exitPages count).map Prod.fst = Mm.ownPages count := by
  rw [Mm.exitPages, Mm.ownPages, List.map_append, List.map_map, List.map_map]
  rfl

theorem ops_release (laid : s.Laid) (busy : s.current ≠ s.idle)
    (owner : s.dir s.current = some home) (within : Within tracked)
    (here : ∀ p, s.OwnPage s.current p → tracked home p) :
    Ops Mm.bound (s.mm.table tracked) ((s.release home).mm.table fun d q =>
      tracked d q ∧ ¬ (d = home ∧ s.OwnPage s.current q)) := by
  have room := (laid.top s.current (housed owner)).2
  obtain ⟨_, data, heap, _⟩ := Mm.regions
  have dropped := @Mm.ops_dropAll s.mm tracked home laid.tidy (Mm.exitPages s.runningPages)
    (Mm.exitPages_orderly room) (by rw [exitPages_fst]; exact Mm.ownPages_nodup room) (by
      intro pair inside
      obtain ⟨first, second⟩ := exitPages_own inside
      have low := (Mm.ownPages_low room first).1
      refine ⟨low, ?_⟩
      rcases second with same | high
      · rw [same]
        exact low
      · omega)
    (fun pair inside => here pair.1 (exitPages_own inside).1)
    (fun pair inside => laid.own s.current home pair.1 owner busy (exitPages_own inside).1) (by
      intro pair inside
      apply (exitPages_own inside).2.imp_right
      intro high counts
      have := (within home pair.2 counts).2
      omega)
  rw [exitPages_fst] at dropped
  unfold release
  dsimp only
  rw [Mm.freeUserPages_eq]
  exact dropped

theorem ops_grow (laid : s.Laid) {top : DWord} {m : Mm} {frames : List Nat}
    (room : heapPages top ≤ Mm.maxHeapPages)
    (vacant : ∀ i, s.runningPages ≤ i → i < heapPages top →
      (s.mm.getEntry home (pagLogInitHeap - i)).present = false)
    (done : Kernel.reserveFrames (heapPages top - s.runningPages) s.mm [] = (m, some frames)) :
    Ops Mm.bound (s.mm.table tracked) ((s.grow home top m frames).mm.table
      (Mm.Lowered tracked home (pagLogInitHeap - s.runningPages)
        (heapPages top - s.runningPages))) := by
  obtain ⟨_, _, heap, most⟩ := Mm.regions
  apply Mm.ops_grow laid.tidy done (by omega)
  intro i below
  have place : pagLogInitHeap - s.runningPages - i = pagLogInitHeap - (s.runningPages + i) := by
    omega
  rw [place]
  exact vacant _ (by omega) (by omega)

theorem mem_lowerPages {base count p : Nat} :
    p ∈ (Mm.lowerPages base count).map Prod.fst ↔ ∃ i < count, p = base - i := by
  rw [Mm.lowerPages, List.map_map, List.mem_map]
  constructor
  · intro member
    obtain ⟨i, below, same⟩ := member
    exact ⟨i, List.mem_range.mp below, same.symm⟩
  · intro member
    obtain ⟨i, below, same⟩ := member
    exact ⟨i, List.mem_range.mpr below, same.symm⟩

theorem ops_shrink (laid : s.Laid) (busy : s.current ≠ s.idle)
    (owner : s.dir s.current = some home) {top : DWord}
    (here : ∀ p, s.OwnPage s.current p → tracked home p) :
    Ops Mm.bound (s.mm.table tracked) ((s.shrink home top).mm.table fun d q =>
      tracked d q ∧ ¬ (d = home ∧ ∃ i < s.runningPages - heapPages top,
        q = pagLogInitHeap - heapPages top - i)) := by
  have room := (laid.top s.current (housed owner)).2
  obtain ⟨_, data, heap, most⟩ := Mm.regions
  have pages : ∀ pair ∈ Mm.lowerPages (pagLogInitHeap - heapPages top)
      (s.runningPages - heapPages top), pair.2 = pair.1 ∧ s.OwnPage s.current pair.1 := by
    intro pair member
    obtain ⟨i, below, rfl⟩ := List.mem_map.mp member
    rw [List.mem_range] at below
    refine ⟨rfl, Mm.mem_ownPages.mpr (Or.inr ⟨heapPages top + i, ?_, ?_⟩)⟩
    · change _ < s.runningPages
      omega
    · simp only
      omega
  have distinct : ((Mm.lowerPages (pagLogInitHeap - heapPages top)
      (s.runningPages - heapPages top)).map Prod.fst).Nodup := by
    rw [Mm.lowerPages, List.map_map]
    apply List.Nodup.map_on _ List.nodup_range
    intro i below j below' same
    rw [List.mem_range] at below below'
    simp only [Function.comp_apply] at same
    change s.runningPages ≤ Mm.maxHeapPages at room
    omega
  have orderly : Mm.Orderly (Mm.lowerPages (pagLogInitHeap - heapPages top)
      (s.runningPages - heapPages top)) := by
    change s.runningPages ≤ Mm.maxHeapPages at room
    exact Mm.lowerPages_orderly (by omega)
  have dropped := @Mm.ops_dropAll s.mm tracked home laid.tidy _ orderly distinct (by
      intro pair member
      obtain ⟨same, own⟩ := pages pair member
      have low := (Mm.ownPages_low room own).1
      rw [same]
      exact ⟨low, low⟩)
    (fun pair member => here pair.1 (pages pair member).2)
    (fun pair member => laid.own s.current home pair.1 owner busy (pages pair member).2)
    (fun pair member => Or.inl (pages pair member).1)
  unfold shrink
  rw [Mm.unmap_eq]
  unfold withHeap
  dsimp only
  generalize Mm.dropAll home _ s.mm = m at dropped ⊢
  rw [Mm.table_frame (Mm.getEntry_setCr3 ..) rfl rfl]
  apply Mm.retrack dropped
  intro d q
  rw [mem_lowerPages]

theorem op_own (here : tracked home page) (present : (s.mm.getEntry home page).present = true)
    (single : s.mm.cowCountMem (s.frame home page) = 1) :
    Op Mm.bound (s.mm.table tracked) ((s.own home page).mm.table tracked) :=
  Mm.op_own here present single

/-- `pf_rsi` on a shared frame, entry by entry. -/
theorem parted (laid : s.Laid) (owner : s.dir s.current = some home) (reach : s.Reach page)
    (frame : Nat) : Mm.Parted s.mm (s.split home page frame).mm home page frame := by
  have copied := split_copied laid owner reach frame
  obtain ⟨_, high⟩ := laid.reach_bounds owner reach
  constructor
  · intro d q
    unfold split
    dsimp only
    rw [Mm.setSsPag, Mm.getEntry_setEntry, copied.entry]
    rfl
  · intro f
    unfold split
    dsimp only
    rw [Mm.setSsPag, Mm.physMem_setEntry, copied.phys, Mm.physMem_take]
    rfl
  · intro f
    unfold split
    dsimp only
    rw [Mm.setSsPag, Mm.cowCountMem_setEntry, copied.cow, Mm.cowCountMem_take]
    apply if_congr Iff.rfl rfl
    unfold released
    rw [Mm.cowCountMem_setCow]
    have frame : s.frame home page = s.mm.getFrame home page := rfl
    rw [frame]
    by_cases same : f = s.mm.getFrame home page
    · rw [if_pos same, if_pos same, same]
    · rw [if_neg same, if_neg same]
      rfl

theorem op_split (laid : s.Laid) (owner : s.dir s.current = some home) (reach : s.Reach page)
    (many : 2 ≤ s.mm.cowCountMem (s.frame home page))
    (got : (s.released home page).allocFrame = ((s.released home page).take frame, some frame))
    (within : Within tracked) (here : tracked home page)
    (present : (s.mm.getEntry home page).present = true) :
    Op Mm.bound (s.mm.table tracked) ((s.split home page frame).mm.table tracked) := by
  have free : frame ∈ s.mm.freeFrames := (allocFrame_free got).1
  exact Mm.op_split (parted laid owner reach frame) here present many free
    (laid.tidy.userFrame free) fun d q counts => (within d q counts).2

end Space

end Zeos
