import Zeos.Space.Leaks

set_option autoImplicit false

/-! While no two tasks share an address space, the count of every frame in use is the
number of tasks that map it at a page of their own. -/

namespace Zeos

open Sharing (Exact Ops)

namespace Mm

variable {m m' : Mm} {frame f p n n' : Nat}

/-- Every frame is marked as free or as used. -/
def Marked (m : Mm) : Prop := ∀ f, m.physMem f = FREE_FRAME ∨ m.physMem f = USED_FRAME

theorem Marked.congr (marked : m.Marked) (phys : m'.physMem = m.physMem) : m'.Marked := by
  intro f
  rw [phys]
  exact marked f

theorem Marked.freeFrame (marked : m.Marked) : (m.freeFrame frame).Marked := by
  intro f
  rw [physMem_freeFrame]
  split
  · exact Or.inl rfl
  · exact marked f

theorem Marked.dropAll (marked : m.Marked) (home : DirId) (pairs : List (Nat × Nat)) :
    (dropAll home pairs m).Marked := by
  apply Loop.foldl_invariant pairs _ m (fun _ m' => m'.Marked) marked
  intro done pair rest m' _ marked'
  exact marked'.freeFrame.congr (physMem_setEntry ..)

theorem Marked.reserved (marked : m.Marked) {frames : List Nat} (reserved : Reserved m m' frames) :
    m'.Marked := by
  intro f
  rw [reserved.phys]
  split
  · exact Or.inr rfl
  · exact marked f

/-- What a heap of `n'` pages has more than one of `n`. -/
theorem mem_ownPages_grow (more : n ≤ n') (room : n' ≤ maxHeapPages) :
    p ∈ ownPages n' ↔ p ∈ ownPages n ∨
      p ≤ pagLogInitHeap - n ∧ pagLogInitHeap - n < p + (n' - n) := by
  obtain ⟨_, _, heap, most⟩ := regions
  rw [mem_ownPages, mem_ownPages, or_assoc]
  apply or_congr Iff.rfl
  constructor
  · intro member
    obtain ⟨i, below, same⟩ := member
    by_cases old : i < n
    · exact Or.inl ⟨i, old, same⟩
    · right
      omega
  · intro either
    rcases either with old | new
    · obtain ⟨i, below, same⟩ := old
      exact ⟨i, by omega, same⟩
    · exact ⟨pagLogInitHeap - p, by omega, by omega⟩

/-- What a heap of `n` pages keeps when it shrinks to `n'`. -/
theorem mem_ownPages_shrink (less : n' ≤ n) (room : n ≤ maxHeapPages) :
    p ∈ ownPages n' ↔ p ∈ ownPages n ∧ ¬ ∃ i < n - n', p = pagLogInitHeap - n' - i := by
  obtain ⟨_, data, heap, most⟩ := regions
  rw [mem_ownPages, mem_ownPages]
  simp only [numPagData]
  constructor
  · intro either
    constructor
    · rcases either with inData | inHeap
      · exact Or.inl inData
      · obtain ⟨i, below, same⟩ := inHeap
        exact Or.inr ⟨i, by omega, same⟩
    · intro gone
      obtain ⟨j, above, place⟩ := gone
      rcases either with inData | inHeap
      · omega
      · obtain ⟨i, below, same⟩ := inHeap
        omega
  · intro both
    obtain ⟨either, stays⟩ := both
    rcases either with inData | inHeap
    · exact Or.inl inData
    · obtain ⟨i, below, same⟩ := inHeap
      right
      by_cases kept : i < n'
      · exact ⟨i, kept, same⟩
      · exact absurd ⟨i - n', by omega, by omega⟩ stays

end Mm

namespace Space

variable {s s' : Space} {t : TaskId} {d home dir : DirId} {child : TaskId} {page p f : Nat}
  {label : Option Action}

/-- A page that a task may use, in the address space of the task. -/
def Owned (s : Space) (d : DirId) (p : Nat) : Prop := ∃ t, s.dir t = some d ∧ s.OwnPage t p

/-- No two tasks share an address space. -/
def Separate (s : Space) : Prop := ∀ t t' d, s.dir t = some d → s.dir t' = some d → t = t'

theorem Separate.owned_iff (separate : s.Separate) (home : s.dir t = some d) :
    s.Owned d p ↔ s.OwnPage t p := by
  constructor
  · intro owned
    obtain ⟨t', here, own⟩ := owned
    rw [separate t t' d home here]
    exact own
  · exact fun own => ⟨t, home, own⟩

theorem owned_congr (dir : s'.dir = s.dir) (heapTop : s'.heapTop = s.heapTop) :
    s'.Owned = s.Owned := by
  unfold Owned OwnPage pages
  rw [dir, heapTop]

theorem Laid.owned_within (laid : s.Laid) : Within s.Owned := by
  intro d p owned
  obtain ⟨t, here, own⟩ := owned
  exact laid.low here own

/-- The pages of the address spaces, with exact counts for their frames. -/
structure Counted (s : Space) : Prop where
  separate : s.Separate
  exact : Exact (s.mm.table s.Owned)
  marked : s.mm.Marked

/-! ### The pages that are used after each change -/

theorem owned_fork (free : s.dir child = none) : (s.fork home child dir).Owned d p ↔
    s.Owned d p ∨ d = dir ∧ s.OwnPage s.current p := by
  have place : ∀ t, (s.fork home child dir).dir t = if t = child then some dir else s.dir t :=
    fun t => Function.update_apply ..
  have pages : ∀ t, (s.fork home child dir).pages t =
      if t = child then s.pages s.current else s.pages t := fun t => pages_update
  constructor
  · intro owned
    obtain ⟨t, here, own⟩ := owned
    rw [place] at here
    rw [OwnPage, pages] at own
    by_cases new : t = child
    · rw [if_pos new] at here own
      exact Or.inr ⟨(Option.some.inj here).symm, own⟩
    · rw [if_neg new] at here own
      exact Or.inl ⟨t, here, own⟩
  · intro either
    rcases either with old | new
    · obtain ⟨t, here, own⟩ := old
      have notNew : t ≠ child := by
        intro same
        rw [same, free] at here
        cases here
      refine ⟨t, ?_, ?_⟩
      · rw [place, if_neg notNew]
        exact here
      · rw [OwnPage, pages, if_neg notNew]
        exact own
    · obtain ⟨rfl, own⟩ := new
      refine ⟨child, ?_, ?_⟩
      · rw [place, if_pos rfl]
      · rw [OwnPage, pages, if_pos rfl]
        exact own

theorem owned_release (separate : s.Separate) (owner : s.dir s.current = some home) :
    (s.release home).Owned d p ↔ s.Owned d p ∧ ¬ (d = home ∧ s.OwnPage s.current p) := by
  have place : ∀ t, (s.release home).dir t = if t = s.current then none else s.dir t :=
    fun t => Function.update_apply ..
  constructor
  · intro owned
    obtain ⟨t, here, own⟩ := owned
    rw [place] at here
    by_cases gone : t = s.current
    · rw [if_pos gone] at here
      cases here
    · rw [if_neg gone] at here
      refine ⟨⟨t, here, own⟩, ?_⟩
      intro both
      rw [both.1] at here
      exact gone (separate t s.current home here owner)
  · intro both
    obtain ⟨⟨t, here, own⟩, stays⟩ := both
    refine ⟨t, ?_, own⟩
    rw [place, if_neg]
    · exact here
    · intro gone
      rw [gone] at here own
      rw [owner] at here
      exact stays ⟨(Option.some.inj here).symm, own⟩

theorem owned_withHeap (separate : s.Separate) (owner : s.dir s.current = some home) {m : Mm}
    {top : DWord} : (s.withHeap m top).Owned d p ↔
      if d = home then p ∈ Mm.ownPages (heapPages top) else s.Owned d p := by
  have pages : ∀ t, (s.withHeap m top).pages t =
      if t = s.current then heapPages top else s.pages t := fun t => pages_update
  by_cases mine : d = home
  · rw [if_pos mine, mine]
    constructor
    · intro owned
      obtain ⟨t, here, own⟩ := owned
      rw [OwnPage, pages, if_pos (separate t s.current home here owner)] at own
      exact own
    · intro own
      refine ⟨s.current, owner, ?_⟩
      rw [OwnPage, pages, if_pos rfl]
      exact own
  · rw [if_neg mine]
    have other : ∀ t, s.dir t = some d → t ≠ s.current := by
      intro t here same
      rw [same, owner] at here
      exact mine (Option.some.inj here).symm
    constructor
    · intro owned
      obtain ⟨t, here, own⟩ := owned
      rw [OwnPage, pages, if_neg (other t here)] at own
      exact ⟨t, here, own⟩
    · intro owned
      obtain ⟨t, here, own⟩ := owned
      refine ⟨t, here, ?_⟩
      rw [OwnPage, pages, if_neg (other t here)]
      exact own

/-! ### Every change keeps the counts exact -/

/-- A write fault repairs a page that the running task may use. -/
def OwnFault (s : Space) (label : Option Action) : Prop :=
  ∀ addr value, label = some (.store addr value) →
    s.mm.userWritable (addr.toNat / pageSize) = false → s.Reach (addr.toNat / pageSize) →
    ∀ home, s.dir s.current = some home →
      s.mm.cowCountMem (s.frame home (addr.toNat / pageSize)) ≠ 0 →
      s.OwnPage s.current (addr.toNat / pageSize)

/-- No call of `sys_clone`. -/
def NoClone (label : Option Action) : Prop :=
  ∀ function stack exitFunc, label ≠ some (.call (.clone function stack exitFunc))

theorem cards : Nat.card DirId + 1 < Mm.bound := by
  rw [Nat.card_eq_fintype_card, Fintype.card_fin]
  decide

/-- The counts of a table that the kernel reaches by operations on frames. -/
theorem Counted.of_ops {tracked : DirId → Nat → Prop} (exact : Exact (s.mm.table s.Owned))
    (ops : Ops Mm.bound (s.mm.table s.Owned) (s'.mm.table tracked))
    (same : ∀ d p, tracked d p ↔ s'.Owned d p) : Exact (s'.mm.table s'.Owned) :=
  exact.ops cards (Mm.retrack ops same)

theorem Counted.minor (counted : s.Counted) (minor : Minor s s') : s'.Counted := by
  have table := @table_minor s s' s.Owned minor
  have phys := (frames_minors (.single minor)).1
  have dir : s'.dir = s.dir := by
    cases minor <;> rfl
  have heapTop : s'.heapTop = s.heapTop := by
    cases minor <;> rfl
  constructor
  · rw [Separate, dir]
    exact counted.separate
  · rw [owned_congr dir heapTop, table]
    exact counted.exact
  · exact counted.marked.congr phys

theorem Counted.fork (counted : s.Counted) (laid : s.Laid) (busy : s.current ≠ s.idle)
    (owner : s.dir s.current = some home) (free : s.dir child = none)
    (spare : ∀ t, s.dir t ≠ some dir) : (s.fork home child dir).Counted := by
  have apart : home ≠ dir := by
    rintro rfl
    exact spare s.current owner
  have place : ∀ t, (s.fork home child dir).dir t = if t = child then some dir else s.dir t :=
    fun t => Function.update_apply ..
  constructor
  · intro t t' d here here'
    rw [place] at here here'
    by_cases new : t = child
    · by_cases new' : t' = child
      · rw [new, new']
      · rw [if_pos new] at here
        rw [if_neg new', ← here] at here'
        exact absurd here' (spare t')
    · by_cases new' : t' = child
      · rw [if_pos new'] at here'
        rw [if_neg new, ← here'] at here
        exact absurd here (spare t)
      · rw [if_neg new] at here
        rw [if_neg new'] at here'
        exact counted.separate t t' d here here'
  · have ops := @ops_fork s s.Owned home dir child laid busy owner apart laid.owned_within
      (fun p own => ⟨s.current, owner, own⟩) (fun p _ owned => by
        obtain ⟨t, here, _⟩ := owned
        exact spare t here)
    exact Counted.of_ops counted.exact ops fun d p => (owned_fork free).symm
  · have room : s.runningPages ≤ Mm.maxHeapPages := (laid.top s.current (housed owner)).2
    have shared := Mm.shareAll apart (Mm.ownPages_nodup room) (Kernel.copyCodePages s.mm home dir)
    apply counted.marked.congr
    unfold Space.fork
    dsimp only
    rw [Mm.physMem_setCr3, Mm.sharePages_eq, shared.phys]
    exact (Mm.copyCodePages_spec apart).phys

theorem Counted.release (counted : s.Counted) (laid : s.Laid) (busy : s.current ≠ s.idle)
    (owner : s.dir s.current = some home) : (s.release home).Counted := by
  have place : ∀ t, (s.release home).dir t = if t = s.current then none else s.dir t :=
    fun t => Function.update_apply ..
  constructor
  · intro t t' d here here'
    rw [place] at here here'
    split at here
    · cases here
    · split at here'
      · cases here'
      · exact counted.separate t t' d here here'
  · have ops := ops_release laid busy owner laid.owned_within fun p own => ⟨s.current, owner, own⟩
    exact Counted.of_ops counted.exact ops fun d p => (owned_release counted.separate owner).symm
  · unfold Space.release
    dsimp only
    rw [Mm.freeUserPages_eq]
    exact counted.marked.dropAll _ _

theorem Counted.refused (counted : s.Counted) {count : Nat} {m : Mm}
    (refused : Kernel.reserveFrames count s.mm [] = (m, none)) :
    Counted { s with mm := m } := by
  obtain ⟨entries, phys, cow⟩ := Mm.refused_spec refused
  refine ⟨counted.separate, ?_, counted.marked.congr phys⟩
  apply counted.exact.congr
  · funext d p
    exact Mm.slot_congr Iff.rfl (by rw [entries])
  · intro f
    exact Mm.used_congr (by rw [phys])
  · intro f used
    have mark : s.mm.physMem f = USED_FRAME := used.2.2
    exact congrArg BitVec.toNat (cow f (by rw [mark]; decide))

theorem Counted.grow (counted : s.Counted) (laid : s.Laid) (busy : s.current ≠ s.idle)
    (owner : s.dir s.current = some home) {top : DWord} {m : Mm} {frames : List Nat}
    (grows : s.runningPages < heapPages top)
    (vacant : ∀ i, s.runningPages ≤ i → i < heapPages top →
      (s.mm.getEntry home (pagLogInitHeap - i)).present = false)
    (done : Kernel.reserveFrames (heapPages top - s.runningPages) s.mm [] = (m, some frames)) :
    (s.grow home top m frames).Counted := by
  have room := grow_room laid busy owner vacant
  obtain ⟨_, _, heap, most⟩ := Mm.regions
  refine ⟨counted.separate, ?_, ?_⟩
  · apply Counted.of_ops counted.exact (ops_grow laid room vacant done)
    intro d p
    unfold Space.grow
    rw [owned_withHeap counted.separate owner, Mm.Lowered]
    split
    · rename_i here
      rw [here, counted.separate.owned_iff owner, and_iff_right rfl]
      exact (Mm.mem_ownPages_grow grows.le room).symm
    · rename_i elsewhere
      exact or_iff_left fun both => elsewhere both.1
  · have mapped := Mm.mapPages home (pagLogInitHeap - s.runningPages)
      (heapPages top - s.runningPages) (frames.getD · 0) (by omega) m
    exact (counted.marked.reserved (Mm.reserved_of_some done).2.2).congr mapped.phys

theorem Counted.shrink (counted : s.Counted) (laid : s.Laid) (busy : s.current ≠ s.idle)
    (owner : s.dir s.current = some home) {top : DWord} (shrinks : heapPages top ≤ s.runningPages) :
    (s.shrink home top).Counted := by
  have room := (laid.top s.current (housed owner)).2
  refine ⟨counted.separate, ?_, ?_⟩
  · have ops := @ops_shrink s s.Owned home laid busy owner top fun p own => ⟨s.current, owner, own⟩
    apply Counted.of_ops counted.exact ops
    intro d p
    unfold Space.shrink
    rw [owned_withHeap counted.separate owner]
    split
    · rename_i here
      rw [here, counted.separate.owned_iff owner, and_iff_right rfl]
      exact (Mm.mem_ownPages_shrink shrinks room).symm
    · rename_i elsewhere
      exact and_iff_left fun both => elsewhere both.1
  · unfold Space.shrink
    rw [Mm.unmap_eq]
    exact (counted.marked.dropAll _ _).congr (Mm.physMem_setCr3 ..)

theorem heapTop_split {frame : Nat} : (s.split home page frame).heapTop = s.heapTop := by
  unfold split
  generalize Mm.setSsPag _ home _ frame = m
  rfl

theorem dir_own : (s.own home page).dir = s.dir := by
  unfold own
  generalize Mm.setSsPag _ home _ _ = m
  rfl

theorem heapTop_own : (s.own home page).heapTop = s.heapTop := by
  unfold own
  generalize Mm.setSsPag _ home _ _ = m
  rfl

theorem Counted.own (counted : s.Counted) (laid : s.Laid) (busy : s.current ≠ s.idle)
    (owner : s.dir s.current = some home) (own : s.OwnPage s.current page)
    (single : s.mm.cowCountMem (s.frame home page) = 1) : (s.own home page).Counted := by
  have present := laid.own s.current home _ owner busy own
  have op := @op_own s s.Owned home page ⟨s.current, owner, own⟩ present single
  constructor
  · rw [Separate, dir_own]
    exact counted.separate
  · rw [owned_congr dir_own heapTop_own]
    exact counted.exact.op cards op
  · apply counted.marked.congr
    unfold Space.own
    dsimp only
    rw [Mm.setSsPag, Mm.physMem_setEntry, Mm.physMem_setCow, Mm.physMem_fault]

theorem Counted.split (counted : s.Counted) (laid : s.Laid) (busy : s.current ≠ s.idle)
    (owner : s.dir s.current = some home) (reach : s.Reach page) {frame : Nat}
    (many : 2 ≤ s.mm.cowCountMem (s.frame home page))
    (got : (s.released home page).allocFrame = ((s.released home page).take frame, some frame))
    (own : s.OwnPage s.current page) : (s.split home page frame).Counted := by
  have present := laid.own s.current home _ owner busy own
  have op := op_split laid owner reach many got laid.owned_within ⟨s.current, owner, own⟩ present
  constructor
  · rw [Separate, dir_split]
    exact counted.separate
  · rw [owned_congr dir_split heapTop_split]
    exact counted.exact.op cards op
  · intro f
    rw [(parted laid owner reach frame).phys]
    split
    · exact Or.inr rfl
    · exact counted.marked f

theorem Counted.major (counted : s.Counted) (laid : s.Laid) (alone : NoClone label)
    (mine : s.OwnFault label) (major : Major label s s') : s'.Counted := by
  cases major with
  | fork home child dir busy owner free spare => exact counted.fork laid busy owner free spare
  | join function stack exitFunc child home busy owner free =>
      exact absurd rfl (alone function stack exitFunc)
  | leave home other busy owner different here =>
      exact absurd (counted.separate other s.current home here owner) different
  | release home busy owner last => exact counted.release laid busy owner
  | refused increment count m refused => exact counted.refused refused
  | grow increment home top m frames busy owner inside grows vacant done =>
      exact counted.grow laid busy owner grows vacant done
  | shrink increment home top busy owner inside shrinks =>
      exact counted.shrink laid busy owner shrinks
  | own addr value home busy owner reach denied single =>
      have page := mine addr value rfl denied reach home owner (by rw [single]; decide)
      exact counted.own laid busy owner page single
  | split addr value home frame busy owner reach denied many got =>
      have page := mine addr value rfl denied reach home owner (some_of_many many)
      exact counted.split laid busy owner reach many got page

theorem Counted.step (counted : s.Counted) (laid : s.Laid) (alone : NoClone label)
    (mine : s.OwnFault label) (step : Step label s s') : s'.Counted := by
  have minors : ∀ {s₁ s₂ : Space}, Minors s₁ s₂ → s₁.Counted → s₂.Counted := by
    intro s₁ s₂ minors
    induction minors with
    | refl => exact id
    | tail _ minor ih => exact fun before => (ih before).minor minor
  cases step with
  | minor moved => exact minors moved counted
  | major major moved => exact minors moved (counted.major laid alone mine major)

/-! ### Runs -/

/-- The references of the first process. -/
theorem Initial.maps_iff (init : s.Initial) : (s.mm.table s.Owned).Maps d p f ↔
    d = 8 ∧ ∃ i < numPagData, p = pagLogInitData + i ∧ f = codeFrame (numPagCode + i) := by
  rw [Mm.table_maps]
  constructor
  · intro all
    obtain ⟨⟨t, here, own⟩, present, same⟩ := all
    have none : s.pages t = 0 := init.pages (housed here)
    rw [OwnPage, none, mem_ownPages_zero] at own
    rcases init.dir_eq here with idle | first
    · have empty := init.fresh.others d p
      rw [empty] at present
      · cases present
      · obtain ⟨_, _, _, _⟩ := Mm.regions
        omega
      · intro both
        rw [idle.2] at both
        exact absurd both.1 (by decide)
    · have place : pagLogInitData + (p - pagLogInitData) = p := Nat.add_sub_cancel' own.1
      have entry := init.fresh.data (p - pagLogInitData) (by omega)
      rw [place, ← first.2] at entry
      refine ⟨first.2, p - pagLogInitData, by omega, place.symm, ?_⟩
      rw [← same, Mm.getFrame, entry]
  · intro all
    obtain ⟨rfl, i, below, rfl, rfl⟩ := all
    have entry := init.fresh.data i below
    refine ⟨⟨1, init.firstDir, ?_⟩, ?_, ?_⟩
    · have none : s.pages 1 = 0 := init.pages (housed init.firstDir)
      rw [OwnPage, none, mem_ownPages_zero]
      omega
    · rw [entry]
    · rw [Mm.getFrame, entry]

theorem Initial.counted (init : s.Initial) : s.Counted := by
  have zero : ∀ f, (s.mm.table s.Owned).count f = 0 :=
    fun f => congrArg BitVec.toNat (init.fresh.cow f)
  have taken : ∀ f, s.mm.physMem f = USED_FRAME ↔
      f < numPagKernel ∨ ∃ i < numPagCode + numPagData, f = codeFrame i := by
    intro f
    rw [init.fresh.phys]
    split
    · rename_i used
      exact iff_of_true rfl used
    · rename_i free
      exact iff_of_false (by decide) free
  constructor
  · intro t t' d here here'
    rcases init.dir_eq here with idle | first
    · rcases init.dir_eq here' with idle' | first'
      · rw [idle.1, idle'.1]
      · exact absurd (idle.2.symm.trans first'.2) (by decide)
    · rcases init.dir_eq here' with idle' | first'
      · exact absurd (first.2.symm.trans idle'.2) (by decide)
      · rw [first.1, first'.1]
  · constructor
    · intro d d' p p' f maps maps'
      obtain ⟨_, i, _, place, frame⟩ := init.maps_iff.mp maps
      obtain ⟨_, j, _, place', frame'⟩ := init.maps_iff.mp maps'
      simp only [codeFrame] at frame frame'
      omega
    · intro d p f maps
      obtain ⟨_, i, below, _, frame⟩ := init.maps_iff.mp maps
      refine ⟨?_, ?_, (taken f).mpr (Or.inr ⟨numPagCode + i, by omega, frame⟩)⟩
      · rw [frame]
        exact Nat.le_add_right ..
      · intro j code same
        simp only [codeFrame] at frame same
        omega
    · intro f used
      obtain ⟨low, notCode, marked⟩ := used
      obtain ⟨i, below, place⟩ := ((taken f).mp marked).resolve_left (by omega)
      have data : ¬ i < numPagCode := fun code => notCode i code place
      have single : (s.mm.table s.Owned).sharers f = {8} := by
        ext d
        rw [Set.mem_singleton_iff]
        constructor
        · intro shares
          obtain ⟨p, maps⟩ := shares
          exact (init.maps_iff.mp maps).1
        · intro here
          refine ⟨pagLogInitData + (i - numPagCode), init.maps_iff.mpr ?_⟩
          refine ⟨here, i - numPagCode, by omega, rfl, ?_⟩
          rw [place, Nat.add_sub_cancel' (Nat.le_of_not_lt data)]
      rw [single, Set.ncard_singleton, zero]
      rfl
    · intro d p f w slot
      apply iff_of_true _ (zero f)
      have maps : (s.mm.table s.Owned).Maps d p f := ⟨w, slot⟩
      obtain ⟨rfl, i, below, rfl, rfl⟩ := init.maps_iff.mp maps
      have entry := init.fresh.data i below
      have here := Mm.table_maps.mp maps
      rw [Mm.slot_of here.1 here.2.1] at slot
      have same := (Prod.mk.inj (Option.some.inj slot)).2
      rw [entry] at same
      exact same.symm
  · intro f
    rw [init.fresh.phys]
    split
    · exact Or.inr rfl
    · exact Or.inl rfl

end Space

/-- The invariant of a run in which every write fault is the running task's own, and no
task shares an address space. -/
theorem reachable_exact {admits : Kernel → Option Action → Prop}
    (alone : ∀ k label, admits k label → Space.NoClone label)
    (mine : ∀ k label, admits k label → k.space.Laid → k.space.Counted → k.space.OwnFault label)
    {k : Kernel} (reached : Reachable admits k) (running : k.stuck = false) :
    k.space.Counted := by
  have both : (∃ r, Refines k r ∧ Roster.Sound r) ∧
      (k.stuck = true ∨ k.space.Laid ∧ k.space.Counted) := by
    apply reached.invariant fun k => (∃ r, Refines k r ∧ Roster.Sound r) ∧
      (k.stuck = true ∨ k.space.Laid ∧ k.space.Counted)
    · intro k booted
      obtain ⟨image, rfl⟩ := booted
      exact ⟨⟨Roster.boot, boot_refines image, Roster.boot_sound⟩,
        Or.inr ⟨(boot_space image).laid, (boot_space image).counted⟩⟩
    · intro k label k' before allowed stepped
      obtain ⟨⟨r, ref, sound⟩, state⟩ := before
      obtain ⟨r', step, after, _⟩ := ref.step sound stepped
      refine ⟨⟨r', after, sound.step step⟩, ?_⟩
      obtain ⟨laid, counted⟩ := state.resolve_left (stuck_step stepped)
      rcases ref.step_space sound laid stepped with moved | last
      · right
        exact ⟨laid.step moved,
          counted.step laid (alone k label allowed) (mine k label allowed laid counted) moved⟩
      · exact Or.inl last.1
  exact (both.2.resolve_left (by simp [running])).2

end Zeos
