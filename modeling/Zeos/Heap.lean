import Mathlib.Data.List.GetD
import Zeos.Memory
import Zeos.Sys

set_option autoImplicit false

/-! The pages of a heap, and the loops of `sys_sbrk` over them. -/

namespace Zeos

/-! ### Pages of a heap -/

/-- The number of pages of a heap, which are the last ones up to `PAG_LOG_INIT_HEAP`. -/
abbrev heapPages (heapTop : DWord) : Nat := (getHeapPageSize heapTop).toNat

/-- The bytes of the heap above its top, in whole pages. -/
theorem heapPages_eq {heapTop : DWord} (inside : heapTop.toNat ≤ heapStart) :
    heapPages heapTop = (heapStart - heapTop.toNat + (pageSize - 1)) / pageSize := by
  have signed : heapTop.toInt = heapTop.toNat := by
    rw [BitVec.toInt_eq_toNat_cond, if_pos]
    simp only [heapStart] at inside
    omega
  simp only [heapPages, getHeapPageSize, signed, heapStart, pageSize] at inside ⊢
  rw [Int.tdiv_eq_ediv_of_nonneg (by omega)]
  omega

/-- The number of heap pages, as the source computes it. -/
theorem getHeapPageSize_eq {heapTop : DWord} (inside : heapTop.toNat ≤ heapStart) :
    getHeapPageSize heapTop = heapPages heapTop := by
  have signed : heapTop.toInt = heapTop.toNat := by
    rw [BitVec.toInt_eq_toNat_cond, if_pos]
    simp only [heapStart] at inside
    omega
  have positive : 0 ≤ getHeapPageSize heapTop := by
    rw [getHeapPageSize, signed]
    apply Int.tdiv_nonneg
    · simp only [pageSize]
      omega
    · simp only [pageSize]
      omega
  rw [heapPages, Int.toNat_of_nonneg positive]

/-- The heap has at most 512 pages. -/
theorem heapPages_le {heapTop : DWord} (inside : heapTop.toNat ≤ heapStart) :
    heapPages heapTop ≤ pagLogInitHeap + 1 := by
  rw [heapPages_eq inside]
  simp only [heapStart, pageSize, pagLogInitHeap] at inside ⊢
  omega

namespace Mm

variable {m : Mm} {dir dir' : DirId} {page frame : Nat}

/-! ### The loops of `sys_sbrk` -/

/-- Fresh frames that are given back are free again. -/
theorem foldl_freeFrame (taken : List Nat) : ∀ m : Mm, taken.Nodup →
    (∀ frame ∈ taken, m.cowCountMem frame = 0) →
    (taken.foldl (fun m frame => m.freeFrame frame) m).getEntry = m.getEntry ∧
    (∀ frame, (taken.foldl (fun m frame => m.freeFrame frame) m).physMem frame =
      if frame ∈ taken then FREE_FRAME else m.physMem frame) ∧
    ∀ frame, frame ∉ taken →
      (taken.foldl (fun m frame => m.freeFrame frame) m).cowCountMem frame =
        m.cowCountMem frame := by
  induction taken with
  | nil => exact fun m _ _ => ⟨rfl, fun _ => by simp, fun _ _ => rfl⟩
  | cons first rest ih =>
      intro m distinct fresh
      obtain ⟨out, distinct⟩ := List.nodup_cons.mp distinct
      have others : ∀ frame, frame ≠ first →
          (m.freeFrame first).cowCountMem frame = m.cowCountMem frame := by
        intro frame different
        rw [cowCountMem_freeFrame, if_neg fun both => different both.1]
      have last : ((m.freeFrame first).cowCountMem first).toInt ≤ 0 := by
        rw [cowCountMem_freeFrame, fresh first (by simp)]
        split <;> decide
      obtain ⟨entries, phys, cow⟩ := ih (m.freeFrame first) distinct (by
        intro frame member
        rw [others frame (fun same => out (same ▸ member))]
        exact fresh frame (List.mem_cons_of_mem _ member))
      rw [List.foldl_cons]
      refine ⟨entries.trans getEntry_freeFrame, fun frame => ?_, fun frame absent => ?_⟩
      · rw [phys, physMem_freeFrame]
        by_cases inside : frame ∈ rest
        · rw [if_pos inside, if_pos (List.mem_cons_of_mem _ inside)]
        · rw [if_neg inside]
          by_cases same : frame = first
          · rw [if_pos ⟨same, last⟩, if_pos (by simp [same])]
          · rw [if_neg fun both => same both.1, if_neg (by simp [same, inside])]
      · rw [List.mem_cons, not_or] at absent
        rw [cow frame absent.2, others frame absent.1]

/-- What the loop that reserves frames does when there are enough. -/
structure Reserved (m m' : Mm) (frames : List Nat) : Prop where
  entries : m'.getEntry = m.getEntry
  phys : ∀ frame, m'.physMem frame = if frame ∈ frames then USED_FRAME else m.physMem frame
  cow : ∀ frame, m'.cowCountMem frame = if frame ∈ frames then 0 else m.cowCountMem frame

/-- With enough free frames the first ones are taken. -/
theorem reserveFrames_enough (count : Nat) : ∀ (m : Mm) (taken : List Nat),
    count ≤ m.freeFrames.length → ∃ m', Kernel.reserveFrames count m taken =
        (m', some (taken ++ m.freeFrames.take count)) ∧
      Reserved m m' (m.freeFrames.take count) := by
  induction count with
  | zero =>
      intro m taken _
      refine ⟨m, by simp [Kernel.reserveFrames], rfl, ?_, ?_⟩
      · simp
      · simp
  | succ count ih =>
      intro m taken enough
      unfold Kernel.reserveFrames
      rw [allocFrame_eq]
      cases free : m.freeFrames with
      | nil => simp [free] at enough
      | cons frame rest =>
          have left := freeFrames_take free
          rw [free, List.length_cons] at enough
          obtain ⟨m', done, entries, phys, cow⟩ :=
            ih (m.take frame) (taken ++ [frame]) (by rw [left]; omega)
          rw [left] at done phys cow
          refine ⟨m', ?_, entries, fun other => ?_, fun other => ?_⟩
          · simpa using done
          · rw [phys, physMem_take, List.take_succ_cons]
            by_cases inside : other ∈ rest.take count
            · simp [inside]
            · by_cases same : other = frame
              · simp [same]
              · simp [inside, same]
          · rw [cow, cowCountMem_take, List.take_succ_cons]
            by_cases inside : other ∈ rest.take count
            · simp [inside]
            · by_cases same : other = frame
              · simp [same]
              · simp [inside, same]

/-- Without, those already taken are given back. -/
theorem reserveFrames_few (count : Nat) : ∀ (m : Mm) (taken : List Nat),
    m.freeFrames.length < count → taken.Nodup →
    (∀ frame ∈ taken, m.physMem frame = USED_FRAME ∧ m.cowCountMem frame = 0) →
    ∃ m', Kernel.reserveFrames count m taken = (m', none) ∧ m'.getEntry = m.getEntry ∧
      (∀ frame, m'.physMem frame = if frame ∈ taken then FREE_FRAME else m.physMem frame) ∧
      ∀ frame, frame ∉ taken → m.physMem frame ≠ FREE_FRAME →
        m'.cowCountMem frame = m.cowCountMem frame := by
  induction count with
  | zero => exact fun _ _ few => absurd few (Nat.not_lt_zero _)
  | succ count ih =>
      intro m taken few distinct fresh
      unfold Kernel.reserveFrames
      rw [allocFrame_eq]
      cases free : m.freeFrames with
      | nil =>
          obtain ⟨entries, phys, cow⟩ :=
            foldl_freeFrame taken m distinct fun frame member => (fresh frame member).2
          exact ⟨_, rfl, entries, phys, fun frame absent _ => cow frame absent⟩
      | cons frame rest =>
          have left := freeFrames_take free
          have member : frame ∈ m.freeFrames := by simp [free]
          have unused : m.physMem frame = FREE_FRAME := (mem_freeFrames.mp member).2
          have out : frame ∉ taken := by
            intro inside
            rw [(fresh frame inside).1] at unused
            cases unused
          rw [free, List.length_cons] at few
          obtain ⟨m', done, entries, phys, cow⟩ := ih (m.take frame) (taken ++ [frame])
            (by rw [left]; omega) (List.nodup_append.mpr ⟨distinct, by simp, by
              intro inside held other single same
              rw [List.mem_singleton] at single
              exact out (single ▸ same ▸ held)⟩) (by
              intro other inside
              rw [physMem_take, cowCountMem_take]
              by_cases same : other = frame
              · simp [same]
              · have held : other ∈ taken := by simpa [same] using inside
                simpa [same] using fresh other held)
          refine ⟨m', done, entries, fun other => ?_, fun other absent used => ?_⟩
          · rw [phys, physMem_take]
            by_cases same : other = frame
            · simp [same, unused]
            · simp [same]
          · have different : other ≠ frame := by
              rintro rfl
              exact used unused
            rw [cow other (by simp [absent, different]) (by rw [physMem_take, if_neg different]; exact used),
              cowCountMem_take, if_neg different]

/-- The loop that maps `frames` below page `base`. -/
structure Mapped (m m' : Mm) (dir : DirId) (base count : Nat) (frames : Nat → Nat) : Prop where
  entry : ∀ d page, m'.getEntry d page =
    if d = dir ∧ page ≤ base ∧ base < page + count then ⟨true, true, true, frames (base - page)⟩
    else m.getEntry d page
  phys : m'.physMem = m.physMem
  cow : m'.cowCountMem = m.cowCountMem

theorem Mapped.next {m₁ : Mm} {dir : DirId} {base i : Nat} {frames : Nat → Nat}
    (mapped : Mapped m m₁ dir base i frames) (inside : i < base + 1) :
    Mapped m (m₁.setSsPag dir (base - i) (frames i)) dir base (i + 1) frames := by
  refine ⟨fun d page => ?_, mapped.phys, mapped.cow⟩
  rw [setSsPag, getEntry_setEntry, mapped.entry]
  by_cases same : d = dir ∧ page = base - i
  · have back : base - page = i := by omega
    rw [if_pos same, if_pos ⟨same.1, by omega, by omega⟩, back]
  · rw [if_neg same]
    apply if_congr _ rfl rfl
    constructor
    · intro within
      exact ⟨within.1, within.2.1, by omega⟩
    · intro within
      refine ⟨within.1, within.2.1, ?_⟩
      by_contra beyond
      exact same ⟨within.1, by omega⟩

theorem Mapped.refl {dir : DirId} {base : Nat} {frames : Nat → Nat} :
    Mapped m m dir base 0 frames := by
  refine ⟨fun d page => ?_, rfl, rfl⟩
  rw [if_neg (by omega)]

theorem mapPages (dir : DirId) (base count : Nat) (frames : Nat → Nat)
    (inside : count ≤ base + 1) (m : Mm) :
    Mapped m (Loop.upTo count (fun i m => m.setSsPag dir (base - i) (frames i)) m) dir base count
      frames := by
  apply Loop.upTo_invariant count _ m (fun i m' => Mapped m m' dir base i frames)
  · exact Mapped.refl
  · intro i m' below mapped
    exact mapped.next (by omega)

/-- The loop that unmaps the pages below `base`, and releases a reference to each of
their frames. -/
structure Unmapped (m m' : Mm) (dir : DirId) (base count : Nat) : Prop where
  entry : ∀ d page, m'.getEntry d page =
    if d = dir ∧ page ≤ base ∧ base < page + count then noEntry else m.getEntry d page
  cow : ∀ frame, m'.cowCountMem frame =
    if ∃ i < count, (m.getEntry dir (base - i)).pbaseAddr = frame then m.cowCountMem frame - 1
    else m.cowCountMem frame
  phys : ∀ frame, m'.physMem frame =
    if (∃ i < count, (m.getEntry dir (base - i)).pbaseAddr = frame) ∧
      (m.cowCountMem frame - 1).toInt ≤ 0 then FREE_FRAME
    else m.physMem frame

theorem unmapPages (dir : DirId) (base count : Nat) (inside : count ≤ base + 1) (m : Mm)
    (user : ∀ i < count, numPagKernel < (m.getEntry dir (base - i)).pbaseAddr ∧
      (m.getEntry dir (base - i)).pbaseAddr < totalPages)
    (distinct : ∀ i < count, ∀ j < count,
      (m.getEntry dir (base - i)).pbaseAddr = (m.getEntry dir (base - j)).pbaseAddr → i = j) :
    Unmapped m (Loop.upTo count (fun i m =>
      (m.freeFrame (m.getFrame dir (base - i))).delSsPag dir (base - i)) m) dir base count := by
  apply Loop.upTo_invariant count _ m (fun i m' => Unmapped m m' dir base i)
  · refine ⟨fun d page => ?_, fun frame => ?_, fun frame => ?_⟩
    · rw [if_neg (by omega)]
    · rw [if_neg (by simp)]
    · rw [if_neg (by simp)]
  · intro i m' below done
    have own : m'.getFrame dir (base - i) = (m.getEntry dir (base - i)).pbaseAddr := by
      rw [getFrame, done.entry, if_neg (by omega)]
    have fresh : ¬ ∃ j < i, (m.getEntry dir (base - j)).pbaseAddr =
        (m.getEntry dir (base - i)).pbaseAddr := by
      intro earlier
      obtain ⟨j, before, same⟩ := earlier
      have := distinct j (by omega) i below same
      omega
    obtain ⟨above, under⟩ := user i below
    have cow := done.cow (m.getEntry dir (base - i)).pbaseAddr
    rw [if_neg fresh] at cow
    have shared : ∀ frame, (∃ j < i + 1, (m.getEntry dir (base - j)).pbaseAddr = frame) ↔
        (∃ j < i, (m.getEntry dir (base - j)).pbaseAddr = frame) ∨
          (m.getEntry dir (base - i)).pbaseAddr = frame := by
      intro frame
      simp only [Nat.lt_succ_iff_lt_or_eq, or_and_right, exists_or, exists_eq_left]
    refine ⟨fun d page => ?_, fun frame => ?_, fun frame => ?_⟩
    · rw [delSsPag, getEntry_setEntry, getEntry_freeFrame, done.entry]
      by_cases same : d = dir ∧ page = base - i
      · rw [if_pos same, if_pos ⟨same.1, by omega, by omega⟩]
      · rw [if_neg same]
        apply if_congr _ rfl rfl
        constructor
        · intro within
          exact ⟨within.1, within.2.1, by omega⟩
        · intro within
          refine ⟨within.1, within.2.1, ?_⟩
          by_contra beyond
          exact same ⟨within.1, by omega⟩
    · rw [own, delSsPag, cowCountMem_setEntry, cowCountMem_freeFrame]
      by_cases same : frame = (m.getEntry dir (base - i)).pbaseAddr
      · rw [if_pos ⟨same, above, under⟩, if_pos ((shared frame).mpr (Or.inr same.symm)), cow, same]
      · rw [if_neg fun both => same both.1, done.cow]
        apply if_congr _ rfl rfl
        rw [shared]
        exact ⟨Or.inl, fun either => either.resolve_right (Ne.symm same)⟩
    · have left : (m'.freeFrame (m.getEntry dir (base - i)).pbaseAddr).cowCountMem
          (m.getEntry dir (base - i)).pbaseAddr =
          m.cowCountMem (m.getEntry dir (base - i)).pbaseAddr - 1 := by
        rw [cowCountMem_freeFrame, if_pos ⟨rfl, above, under⟩, cow]
      rw [own, delSsPag, physMem_setEntry, physMem_freeFrame, left, done.phys]
      by_cases same : frame = (m.getEntry dir (base - i)).pbaseAddr
      · have before : ¬ ((∃ j < i, (m.getEntry dir (base - j)).pbaseAddr = frame) ∧
            (m.cowCountMem frame - 1).toInt ≤ 0) := fun both => fresh (same ▸ both.1)
        rw [if_neg before, ← same]
        apply if_congr _ rfl rfl
        constructor
        · intro both
          exact ⟨(shared frame).mpr (Or.inr same.symm), both.2⟩
        · intro both
          exact ⟨rfl, both.2⟩
      · rw [if_neg fun both => same both.1]
        apply if_congr _ rfl rfl
        rw [shared]
        constructor
        · intro both
          exact ⟨Or.inl both.1, both.2⟩
        · intro both
          exact ⟨both.1.resolve_right (Ne.symm same), both.2⟩

end Mm

/-! ### The call -/

variable {k : Kernel} {increment : DWord}

/-- The top after a call that succeeds: `min(HEAP_START, heap_top - increment)`. -/
def Kernel.sbrkTop (k : Kernel) (increment : DWord) : DWord :=
  BitVec.ofInt 32 (min heapStart (k.currentTask.heapTop.toNat - increment.toInt))

/-- The test for an overflow. -/
theorem sbrk_overflow (top : k.currentTask.heapTop.toNat ≤ heapStart) :
    (k.currentTask.heapTop - increment).toNat > heapStart ∧ ¬ increment.toInt < 0 ↔
      (k.currentTask.heapTop.toNat : Int) < increment.toInt := by
  generalize k.currentTask.heapTop = heapTop at top
  have bound := heapTop.isLt
  have bound' := increment.isLt
  simp only [heapStart, BitVec.toNat_sub, BitVec.toInt_eq_toNat_cond] at top ⊢
  split <;> omega

/-- The top the call computes. -/
theorem sbrk_newTop (top : k.currentTask.heapTop.toNat ≤ heapStart)
    (fits : ¬ (k.currentTask.heapTop.toNat : Int) < increment.toInt) :
    (if (k.currentTask.heapTop - increment).toNat > heapStart then BitVec.ofNat 32 heapStart
      else k.currentTask.heapTop - increment) = k.sbrkTop increment ∧
    ((k.sbrkTop increment).toNat : Int) =
      min (heapStart : Int) (k.currentTask.heapTop.toNat - increment.toInt) := by
  unfold Kernel.sbrkTop
  generalize k.currentTask.heapTop = heapTop at top fits ⊢
  have bound := heapTop.isLt
  have bound' := increment.isLt
  have value : ((BitVec.ofInt 32 (min heapStart (heapTop.toNat - increment.toInt))).toNat : Int) =
      min (heapStart : Int) (heapTop.toNat - increment.toInt) := by
    rw [BitVec.toNat_ofInt]
    simp only [heapStart, BitVec.toInt_eq_toNat_cond] at top fits ⊢
    omega
  refine ⟨BitVec.eq_of_toNat_eq ?_, value⟩
  apply Int.ofNat_inj.mp
  rw [value]
  simp only [heapStart, BitVec.toInt_eq_toNat_cond] at top fits ⊢
  split
  · rename_i beyond
    rw [BitVec.toNat_sub] at beyond
    rw [BitVec.toNat_ofNat]
    split at fits <;> omega
  · rename_i within
    rw [BitVec.toNat_sub] at within ⊢
    split at fits <;> omega

/-- The running task with a new heap top, in a new memory. -/
def Kernel.withHeap (k : Kernel) (m : Mm) (top : DWord) : Kernel :=
  { k with mm := m }.setTask k.current { k.currentTask with heapTop := top }

theorem withHeap_task {m : Mm} {top : DWord} :
    (k.withHeap m top).currentTask = { k.currentTask with heapTop := top } :=
  Function.update_self ..

theorem withHeap_table {m : Mm} {top : DWord} :
    (k.withHeap m top).getPT (k.withHeap m top).current = k.getPT k.current := by
  change ((k.withHeap m top).currentTask.dirPagesBaseAddr).getD 0 = _
  rw [withHeap_task]
  rfl

/-- The call in one equation, after the test for an overflow. -/
theorem sysSbrk_eq (top : k.currentTask.heapTop.toNat ≤ heapStart) (nonzero : increment ≠ 0)
    (fits : ¬ (k.currentTask.heapTop.toNat : Int) < increment.toInt) :
    k.sysSbrk increment =
      let act := heapPages k.currentTask.heapTop
      let new := heapPages (k.sbrkTop increment)
      if act < new then
        if !Kernel.heapPagesFree k.mm (k.getPT k.current) act (new - act) then (k, -ENOMEM)
        else match Kernel.reserveFrames (new - act) k.mm [] with
          | (m, none) => ({ k with mm := m }, -ENOMEM)
          | (m, some frames) =>
              (k.withHeap (Loop.upTo (new - act) (fun i m =>
                m.setSsPag (k.getPT k.current) (pagLogInitHeap - act - i) (frames.getD i 0)) m)
                (k.sbrkTop increment), (k.sbrkTop increment + 1).toInt)
      else
        (k.withHeap ((Loop.upTo (act - new) (fun i m =>
          (m.freeFrame (m.getFrame (k.getPT k.current) (pagLogInitHeap - new - i))).delSsPag
            (k.getPT k.current) (pagLogInitHeap - new - i)) k.mm).setCr3 (k.getDIR k.current))
          (k.sbrkTop increment), (k.sbrkTop increment).toInt) := by
  unfold Kernel.sysSbrk
  rw [if_neg nonzero]
  dsimp only
  rw [if_neg (mt (sbrk_overflow top).mp fits), (sbrk_newTop top fits).1]
  rfl

end Zeos
