import Mathlib.Data.Set.BooleanAlgebra
import Mathlib.Order.CompletePartialOrder
import Zeos.Heap
import Zeos.Properties.Queues

set_option autoImplicit false

/-! The heap of a process: `sys_sbrk` is all or nothing, and the blocks it returns. -/

namespace Zeos

/-! ### All or nothing -/

variable {k k' : Kernel} {increment : DWord}

/-- The entry of the `i`-th heap page of the running task, from the top of memory down. -/
def Kernel.heapEntry (k : Kernel) (i : Nat) : PageTableEntry :=
  k.mm.getEntry (k.getPT k.current) (pagLogInitHeap - i)

/-- The heap pages of the running task are mapped to frames of their own. -/
structure Kernel.HeapMapped (k : Kernel) : Prop where
  top : k.currentTask.heapTop.toNat ≤ heapStart
  present : ∀ i < heapPages k.currentTask.heapTop, (k.heapEntry i).present = true
  user : ∀ i < heapPages k.currentTask.heapTop,
    numPagKernel < (k.heapEntry i).pbaseAddr ∧ (k.heapEntry i).pbaseAddr < totalPages
  used : ∀ i < heapPages k.currentTask.heapTop,
    k.mm.physMem (k.heapEntry i).pbaseAddr = USED_FRAME
  distinct : ∀ i < heapPages k.currentTask.heapTop, ∀ j < heapPages k.currentTask.heapTop,
    (k.heapEntry i).pbaseAddr = (k.heapEntry j).pbaseAddr → i = j

/-- The heap has not so many bytes, or a page it needs is taken, or there are too
few frames. -/
def Kernel.sbrkRefused (k : Kernel) (increment : DWord) : Prop :=
  (k.currentTask.heapTop.toNat : Int) < increment.toInt ∨
  (∃ i, heapPages k.currentTask.heapTop ≤ i ∧ i < heapPages (k.sbrkTop increment) ∧
    (k.heapEntry i).present = true) ∨
  heapPages k.currentTask.heapTop + k.mm.freeFrames.length < heapPages (k.sbrkTop increment)

/-- No task, table or frame mark has changed, and no count of a used frame. -/
structure Kernel.Untouched (k k' : Kernel) : Prop where
  tasks : k'.tasks = k.tasks
  table : k'.mm.getEntry = k.mm.getEntry
  phys : k'.mm.physMem = k.mm.physMem
  cow : ∀ frame, k.mm.physMem frame ≠ FREE_FRAME → k'.mm.cowCountMem frame = k.mm.cowCountMem frame

/-- The heap of the running task ends at `top` now: it is mapped, its new pages to
frames that were free; the pages it lost have no entry, and each released one
reference to its frame; nothing else has changed. -/
structure Kernel.Resized (k : Kernel) (top : DWord) (k' : Kernel) : Prop where
  heapTop : k'.currentTask.heapTop = top
  mapped : ∀ i < heapPages top, (k'.heapEntry i).present = true
  added : ∀ i, heapPages k.currentTask.heapTop ≤ i → i < heapPages top →
    k.mm.physMem (k'.heapEntry i).pbaseAddr = FREE_FRAME ∧
    k'.mm.physMem (k'.heapEntry i).pbaseAddr = USED_FRAME
  distinct : ∀ i j, heapPages k.currentTask.heapTop ≤ i → i < heapPages top →
    heapPages k.currentTask.heapTop ≤ j → j < heapPages top →
    (k'.heapEntry i).pbaseAddr = (k'.heapEntry j).pbaseAddr → i = j
  removed : ∀ i, heapPages top ≤ i → i < heapPages k.currentTask.heapTop →
    k'.heapEntry i = noEntry ∧
    k'.mm.cowCountMem (k.heapEntry i).pbaseAddr =
      k.mm.cowCountMem (k.heapEntry i).pbaseAddr - 1 ∧
    k'.mm.physMem (k.heapEntry i).pbaseAddr =
      if (k.mm.cowCountMem (k.heapEntry i).pbaseAddr - 1).toInt ≤ 0 then FREE_FRAME
      else USED_FRAME
  entries : ∀ dir page, ¬ (dir = k.getPT k.current ∧ ∃ i, page = pagLogInitHeap - i ∧
      min (heapPages top) (heapPages k.currentTask.heapTop) ≤ i ∧
      i < max (heapPages top) (heapPages k.currentTask.heapTop)) →
    k'.mm.getEntry dir page = k.mm.getEntry dir page
  frames : ∀ frame, k.mm.physMem frame ≠ FREE_FRAME →
    (∀ i, heapPages top ≤ i → i < heapPages k.currentTask.heapTop →
      (k.heapEntry i).pbaseAddr ≠ frame) →
    k'.mm.physMem frame = k.mm.physMem frame ∧ k'.mm.cowCountMem frame = k.mm.cowCountMem frame

theorem heapEntry_withHeap {m : Mm} {top : DWord} {i : Nat} :
    (k.withHeap m top).heapEntry i =
      m.getEntry (k.getPT k.current) (pagLogInitHeap - i) := by
  rw [Kernel.heapEntry, withHeap_table]
  rfl

/-- The `i`-th of the frames taken. -/
theorem taken_frame {m : Mm} {count i : Nat} (enough : count ≤ m.freeFrames.length)
    (below : i < count) : (m.freeFrames.take count).getD i 0 ∈ m.freeFrames.take count := by
  have inside : i < (m.freeFrames.take count).length := by
    rw [List.length_take]
    omega
  rw [List.getD_eq_getElem _ _ inside]
  exact List.getElem_mem inside

theorem taken_distinct {m : Mm} {count i j : Nat} (enough : count ≤ m.freeFrames.length)
    (below : i < count) (below' : j < count)
    (same : (m.freeFrames.take count).getD i 0 = (m.freeFrames.take count).getD j 0) : i = j := by
  have length : (m.freeFrames.take count).length = count := by
    rw [List.length_take]
    omega
  rw [List.getD_eq_getElem _ _ (by omega), List.getD_eq_getElem _ _ (by omega)] at same
  exact (List.Nodup.getElem_inj_iff (Mm.freeFrames_nodup.sublist (List.take_sublist ..))).mp same

/-- The growing branch, when the pages are free and there are enough frames. -/
theorem sbrk_grown (heap : k.HeapMapped) {m : Mm} {top : DWord} (inside : top.toNat ≤ heapStart)
    (grows : heapPages k.currentTask.heapTop < heapPages top)
    (enough : heapPages top - heapPages k.currentTask.heapTop ≤ k.mm.freeFrames.length)
    {frames : List Nat} (taken : frames =
      k.mm.freeFrames.take (heapPages top - heapPages k.currentTask.heapTop))
    (reserved : Mm.Reserved k.mm m frames) :
    k.Resized top (k.withHeap (Loop.upTo (heapPages top - heapPages k.currentTask.heapTop)
      (fun i m => m.setSsPag (k.getPT k.current)
        (pagLogInitHeap - heapPages k.currentTask.heapTop - i) (frames.getD i 0)) m) top) := by
  have most := heapPages_le inside
  have last : pagLogInitHeap = 511 := rfl
  have present := heap.present
  have mapped := Mm.mapPages (k.getPT k.current) (pagLogInitHeap -
    heapPages k.currentTask.heapTop) (heapPages top - heapPages k.currentTask.heapTop)
    (frames.getD · 0) (by omega) m
  generalize Loop.upTo (heapPages top - heapPages k.currentTask.heapTop) _ m = m' at mapped ⊢
  have same : ∀ i, i < heapPages k.currentTask.heapTop →
      (k.withHeap m' top).heapEntry i = k.heapEntry i := by
    intro i low
    rw [heapEntry_withHeap, mapped.entry, if_neg (by omega), reserved.entries]
    rfl
  have own : ∀ i, heapPages k.currentTask.heapTop ≤ i → i < heapPages top →
      (k.withHeap m' top).heapEntry i =
        ⟨true, true, true, frames.getD (i - heapPages k.currentTask.heapTop) 0⟩ := by
    intro i low high
    have place : pagLogInitHeap - heapPages k.currentTask.heapTop - (pagLogInitHeap - i) =
        i - heapPages k.currentTask.heapTop := by omega
    rw [heapEntry_withHeap, mapped.entry, if_pos ⟨rfl, by omega, by omega⟩, place]
  have fresh : ∀ i, heapPages k.currentTask.heapTop ≤ i → i < heapPages top →
      frames.getD (i - heapPages k.currentTask.heapTop) 0 ∈ frames := by
    intro i low high
    rw [taken]
    exact taken_frame enough (by omega)
  have free : ∀ frame ∈ frames, k.mm.physMem frame = FREE_FRAME := by
    intro frame member
    rw [taken] at member
    exact (Mm.mem_freeFrames.mp (List.mem_of_mem_take member)).2
  refine ⟨?_, ?_, ?_, ?_, ?_, ?_, ?_⟩
  · rw [withHeap_task]
  · intro i high
    by_cases low : heapPages k.currentTask.heapTop ≤ i
    · rw [own i low high]
    · rw [same i (by omega)]
      exact heap.present i (by omega)
  · intro i low high
    rw [own i low high]
    refine ⟨free _ (fresh i low high), ?_⟩
    change m'.physMem _ = _
    rw [mapped.phys, reserved.phys, if_pos (fresh i low high)]
  · intro i j low high low' high' equal
    rw [own i low high, own j low' high', taken] at equal
    have := taken_distinct enough (by omega) (by omega) equal
    omega
  · intro i low high
    omega
  · intro dir page outside
    change m'.getEntry dir page = _
    rw [mapped.entry, if_neg, reserved.entries]
    rintro ⟨own, low, high⟩
    exact outside ⟨own, pagLogInitHeap - page, by omega, by omega, by omega⟩
  · intro frame used _
    have out : frame ∉ frames := fun member => used (free frame member)
    change m'.physMem frame = _ ∧ m'.cowCountMem frame = _
    rw [mapped.phys, mapped.cow, reserved.phys, reserved.cow, if_neg out, if_neg out]
    exact ⟨rfl, rfl⟩

/-- The branch that does not grow. -/
theorem sbrk_shrunk (heap : k.HeapMapped) {top : DWord}
    (shrinks : heapPages top ≤ heapPages k.currentTask.heapTop) :
    k.Resized top (k.withHeap ((Loop.upTo (heapPages k.currentTask.heapTop - heapPages top)
      (fun i m => (m.freeFrame (m.getFrame (k.getPT k.current)
        (pagLogInitHeap - heapPages top - i))).delSsPag (k.getPT k.current)
          (pagLogInitHeap - heapPages top - i)) k.mm).setCr3 (k.getDIR k.current)) top) := by
  have most := heapPages_le heap.top
  have last : pagLogInitHeap = 511 := rfl
  have place : ∀ i, pagLogInitHeap - heapPages top - i = pagLogInitHeap - (heapPages top + i) := by
    omega
  have unmapped := Mm.unmapPages (k.getPT k.current) (pagLogInitHeap - heapPages top)
    (heapPages k.currentTask.heapTop - heapPages top) (by omega) k.mm (by
      intro i below
      rw [place]
      exact heap.user (heapPages top + i) (by omega)) (by
      intro i below j below' equal
      rw [place, place] at equal
      have := heap.distinct (heapPages top + i) (by omega) (heapPages top + j) (by omega) equal
      omega)
  generalize Loop.upTo (heapPages k.currentTask.heapTop - heapPages top) _ k.mm = m at unmapped ⊢
  have lost : ∀ frame, (∃ i < heapPages k.currentTask.heapTop - heapPages top,
      (k.mm.getEntry (k.getPT k.current) (pagLogInitHeap - heapPages top - i)).pbaseAddr = frame) ↔
      ∃ i, heapPages top ≤ i ∧ i < heapPages k.currentTask.heapTop ∧
        (k.heapEntry i).pbaseAddr = frame := by
    intro frame
    constructor
    · intro some
      obtain ⟨i, below, equal⟩ := some
      rw [place] at equal
      exact ⟨heapPages top + i, by omega, by omega, equal⟩
    · intro some
      obtain ⟨i, low, high, equal⟩ := some
      refine ⟨i - heapPages top, by omega, ?_⟩
      rw [place, Nat.add_sub_cancel' low]
      exact equal
  refine ⟨?_, ?_, ?_, ?_, ?_, ?_, ?_⟩
  · rw [withHeap_task]
  · intro i high
    rw [heapEntry_withHeap, Mm.getEntry_setCr3, unmapped.entry, if_neg (by omega)]
    exact heap.present i (by omega)
  · intro i low high
    omega
  · intro i j low high
    omega
  · intro i low high
    have frame := (lost (k.heapEntry i).pbaseAddr).mpr ⟨i, low, high, rfl⟩
    refine ⟨?_, ?_, ?_⟩
    · rw [heapEntry_withHeap, Mm.getEntry_setCr3, unmapped.entry,
        if_pos ⟨rfl, by omega, by omega⟩]
    · change m.cowCountMem _ = _
      rw [unmapped.cow, if_pos frame]
    · change m.physMem _ = _
      rw [unmapped.phys, heap.used i high]
      exact if_congr (and_iff_right frame) rfl rfl
  · intro dir page outside
    change m.getEntry dir page = _
    rw [unmapped.entry, if_neg]
    rintro ⟨own, low, high⟩
    exact outside ⟨own, pagLogInitHeap - page, by omega, by omega, by omega⟩
  · intro frame used kept
    have out : ¬ ∃ i < heapPages k.currentTask.heapTop - heapPages top,
        (k.mm.getEntry (k.getPT k.current) (pagLogInitHeap - heapPages top - i)).pbaseAddr =
          frame := by
      rw [lost]
      rintro ⟨i, low, high, equal⟩
      exact kept i low high equal
    change m.physMem frame = _ ∧ m.cowCountMem frame = _
    rw [unmapped.phys, unmapped.cow, if_neg fun both => out both.1, if_neg out]
    exact ⟨rfl, rfl⟩

/-- No address in the heap, and not the one after it, is an error. -/
theorem address_ne_error {top : DWord} (inside : top.toNat ≤ heapStart + 1) :
    top.toInt ≠ -ENOMEM := by
  simp only [heapStart, ENOMEM] at inside ⊢
  rw [BitVec.toInt_eq_toNat_cond, if_pos (by omega)]
  omega

/-- The outcomes of `sys_sbrk`: an error and no effect, or the heap is resized. -/
theorem sysSbrk_cases (heap : k.HeapMapped) (nonzero : increment ≠ 0) :
    (k.sbrkRefused increment ∧ (k.sysSbrk increment).2 = -ENOMEM ∧
      k.Untouched (k.sysSbrk increment).1) ∨
    (¬ k.sbrkRefused increment ∧ (k.sysSbrk increment).2 ≠ -ENOMEM ∧
      k.Resized (k.sbrkTop increment) (k.sysSbrk increment).1) := by
  by_cases overflow : (k.currentTask.heapTop.toNat : Int) < increment.toInt
  · left
    have refused : k.sysSbrk increment = (k, -ENOMEM) := by
      unfold Kernel.sysSbrk
      rw [if_neg nonzero]
      dsimp only
      rw [if_pos ((sbrk_overflow heap.top).mpr overflow)]
    rw [refused]
    exact ⟨Or.inl overflow, rfl, rfl, rfl, rfl, fun _ _ => rfl⟩
  · have newTop := (sbrk_newTop heap.top overflow).2
    have inside : (k.sbrkTop increment).toNat ≤ heapStart := by omega
    rw [sysSbrk_eq heap.top nonzero overflow]
    dsimp only
    split
    · rename_i grows
      split
      · rename_i taken
        left
        simp only [Kernel.heapPagesFree, Bool.not_eq_true', List.all_eq_false, List.mem_range,
          Mm.isSsPagFree, Bool.not_eq_false] at taken
        obtain ⟨i, below, present⟩ := taken
        have most := heapPages_le inside
        have place : pagLogInitHeap - heapPages k.currentTask.heapTop - i =
            pagLogInitHeap - (heapPages k.currentTask.heapTop + i) := by omega
        rw [place] at present
        refine ⟨Or.inr (Or.inl ⟨heapPages k.currentTask.heapTop + i, by omega, by omega, ?_⟩),
          rfl, rfl, rfl, rfl, fun _ _ => rfl⟩
        exact present
      · rename_i vacant
        simp only [Kernel.heapPagesFree, Bool.not_eq_true', Bool.not_eq_false, List.all_eq_true,
          List.mem_range, Mm.isSsPagFree] at vacant
        by_cases enough : heapPages (k.sbrkTop increment) - heapPages k.currentTask.heapTop ≤
            k.mm.freeFrames.length
        · right
          obtain ⟨m, done, reserved⟩ := Mm.reserveFrames_enough _ k.mm [] enough
          rw [done, List.nil_append]
          refine ⟨?_, ?_, sbrk_grown heap inside grows enough rfl reserved⟩
          · rintro (beyond | ⟨i, low, high, present⟩ | few)
            · exact overflow beyond
            · have free := vacant (i - heapPages k.currentTask.heapTop) (by omega)
              have place : pagLogInitHeap - heapPages k.currentTask.heapTop -
                  (i - heapPages k.currentTask.heapTop) = pagLogInitHeap - i := by omega
              rw [place] at free
              change (k.mm.getEntry (k.getPT k.current) (pagLogInitHeap - i)).present = true at present
              rw [present] at free
              cases free
            · omega
          · apply address_ne_error
            simp only [heapStart] at inside ⊢
            rw [BitVec.toNat_add]
            change ((k.sbrkTop increment).toNat + 1) % 2 ^ 32 ≤ _
            omega
        · left
          obtain ⟨m, failed, entries, phys, cow⟩ :=
            Mm.reserveFrames_few _ k.mm [] (Nat.lt_of_not_le enough) List.nodup_nil (by simp)
          rw [failed]
          refine ⟨Or.inr (Or.inr (by omega)), rfl, rfl, entries, ?_, ?_⟩
          · funext frame
            rw [phys, if_neg (by simp)]
          · exact fun frame used => cow frame (by simp) used
    · rename_i shrinks
      right
      refine ⟨?_, address_ne_error (by omega), sbrk_shrunk heap (by omega)⟩
      rintro (beyond | ⟨i, low, high, _⟩ | few)
      · exact overflow beyond
      · omega
      · omega

/-- `sys_sbrk` is all or nothing: it returns `-ENOMEM` exactly when it is refused, and
then changes nothing; otherwise the heap ends at the new top. -/
theorem sbrk_all_or_nothing (k : Kernel) (heap : k.HeapMapped) (increment : DWord)
    (nonzero : increment ≠ 0) :
    ((k.sysSbrk increment).2 = -ENOMEM ↔ k.sbrkRefused increment) ∧
    (k.sbrkRefused increment → k.Untouched (k.sysSbrk increment).1) ∧
    (¬ k.sbrkRefused increment →
      k.Resized (k.sbrkTop increment) (k.sysSbrk increment).1) := by
  rcases sysSbrk_cases heap nonzero with ⟨refused, error, untouched⟩ | ⟨granted, fine, resized⟩
  · exact ⟨iff_of_true error refused, fun _ => untouched, fun allowed => absurd refused allowed⟩
  · exact ⟨iff_of_false fine granted, fun denied => absurd denied granted, fun _ => resized⟩

/-- Two pages are there, and one of them is given back. -/
theorem sbrk_all_or_nothing_shrink :
    let k := Kernel.after everyStep [some (.call (.sbrk 8192))]
    ((k.sysSbrk (-4096)).2 = -ENOMEM ↔ k.sbrkRefused (-4096)) ∧
    (k.sbrkRefused (-4096) → k.Untouched (k.sysSbrk (-4096)).1) ∧
    (¬ k.sbrkRefused (-4096) → k.Resized (k.sbrkTop (-4096)) (k.sysSbrk (-4096)).1) := by
  apply sbrk_all_or_nothing
  · exact ⟨by decide +kernel, by decide +kernel, by decide +kernel, by decide +kernel,
      by decide +kernel⟩
  · decide

/-! ### The blocks it returns -/

/-- A call of `sys_sbrk`, in the state it is made. -/
structure SbrkCall where
  before : Kernel
  increment : DWord

namespace SbrkCall

variable (call : SbrkCall)

def after : Kernel := (call.before.sysSbrk call.increment).1

def result : Int := (call.before.sysSbrk call.increment).2

def oldTop : DWord := call.before.currentTask.heapTop

def newTop : DWord := call.after.currentTask.heapTop

def Succeeds : Prop := call.result ≠ -ENOMEM

/-- The bytes from the result on. -/
def block : Set Int :=
  { place | call.result ≤ place ∧ place < call.result + call.increment.toInt }

/-- The bytes that the heap has got: the top is the first byte it does not own. -/
def newBytes : Set Int := { place | call.newTop.toNat < place ∧ place ≤ call.oldTop.toNat }

/-- The heap gets pages. -/
def NeedsPage : Prop := heapPages call.oldTop < heapPages (call.oldTop - call.increment)

instance : Decidable call.NeedsPage := inferInstanceAs (Decidable (_ < _))

/-- The heap has the bytes in the last page it has got. -/
def StaysInPage : Prop := call.increment.toInt ≤ call.oldTop.toNat ∧ ¬ call.NeedsPage

/-- The block lies in mapped heap pages and is what the heap has got. -/
structure Usable : Prop where
  mapped : ∀ place ∈ call.block, ∃ i < heapPages call.newTop,
    place / pageSize = (pagLogInitHeap : Int) - i ∧ (call.after.heapEntry i).present = true
  exact : call.block = call.newBytes

end SbrkCall

/-- Between its calls, a task keeps the top of its heap, its directory and the pages
of its heap. -/
structure Kernel.KeepsHeap (task : TaskId) (k k' : Kernel) : Prop where
  heapTop : (k'.tasks task).heapTop = (k.tasks task).heapTop
  table : k'.getPT task = k.getPT task
  present : ∀ i < heapPages (k.tasks task).heapTop,
    (k.mm.getEntry (k.getPT task) (pagLogInitHeap - i)).present = true →
    (k'.mm.getEntry (k.getPT task) (pagLogInitHeap - i)).present = true

/-- The calls of a task that had an empty heap, with positive increments; in between
anything may happen that leaves its heap alone. -/
inductive SbrkRun (task : TaskId) : List SbrkCall → Kernel → Prop where
  | start {k : Kernel} : (k.tasks task).heapTop = BitVec.ofNat 32 heapStart → SbrkRun task [] k
  | call {k : Kernel} {calls : List SbrkCall} (increment : DWord) : SbrkRun task calls k →
      k.current = task → 0 < increment.toInt →
      SbrkRun task (calls ++ [⟨k, increment⟩]) (k.sysSbrk increment).1
  | other {k k' : Kernel} {calls : List SbrkCall} : SbrkRun task calls k →
      k.KeepsHeap task k' → SbrkRun task calls k'

/-- Every block is usable, and no two of them overlap. -/
structure BlocksUsable (calls : List SbrkCall) : Prop where
  usable : ∀ call ∈ calls, call.Succeeds → call.Usable
  apart : calls.Pairwise fun call later =>
    call.Succeeds → later.Succeeds → Disjoint call.block later.block

/-- The heap of a task, as far as its own calls rely on it. -/
structure Kernel.OwnHeap (k : Kernel) (task : TaskId) : Prop where
  top : (k.tasks task).heapTop.toNat ≤ heapStart
  present : ∀ i < heapPages (k.tasks task).heapTop,
    (k.mm.getEntry (k.getPT task) (pagLogInitHeap - i)).present = true

/-- A larger part of memory has more pages. -/
theorem heapPages_mono {top top' : DWord} (inside : top'.toNat ≤ heapStart)
    (lower : top.toNat ≤ top'.toNat) : heapPages top' ≤ heapPages top := by
  rw [heapPages_eq inside, heapPages_eq (Nat.le_trans lower inside)]
  exact Nat.div_le_div_right (by omega)

/-- A byte above the top lies in one of the pages of the heap. -/
theorem heapPages_cover {top : DWord} (inside : top.toNat ≤ heapStart) (place : Nat)
    (above : top.toNat < place) (below : place ≤ heapStart) :
    ∃ i < heapPages top, place / pageSize + i = pagLogInitHeap := by
  rw [heapPages_eq inside]
  have last : pagLogInitHeap = 511 := rfl
  refine ⟨pagLogInitHeap - place / pageSize, ?_, ?_⟩
  · simp only [heapStart, pageSize] at inside below ⊢
    omega
  · simp only [heapStart, pageSize] at below ⊢
    omega

/-- What a call with a positive increment does when it succeeds. -/
structure SbrkCall.Granted (call : SbrkCall) : Prop where
  fits : call.increment.toInt ≤ call.oldTop.toNat
  newTop : (call.newTop.toNat : Int) = call.oldTop.toNat - call.increment.toInt
  smaller : call.newTop = call.oldTop - call.increment
  current : call.after.current = call.before.current
  result : call.result = call.newTop.toNat + if call.NeedsPage then 1 else 0
  heap : call.after.OwnHeap call.before.current

/-- The new top, when it is below the old one. -/
theorem sbrkTop_positive (top : k.currentTask.heapTop.toNat ≤ heapStart)
    (positive : 0 < increment.toInt)
    (fits : ¬ (k.currentTask.heapTop.toNat : Int) < increment.toInt) :
    k.sbrkTop increment = k.currentTask.heapTop - increment ∧
    ((k.sbrkTop increment).toNat : Int) = k.currentTask.heapTop.toNat - increment.toInt := by
  obtain ⟨computed, value⟩ := sbrk_newTop top fits
  have lower : ((k.sbrkTop increment).toNat : Int) =
      k.currentTask.heapTop.toNat - increment.toInt := by
    rw [value, min_eq_right]
    simp only [heapStart] at top ⊢
    omega
  refine ⟨?_, lower⟩
  rw [← computed, if_neg]
  generalize k.currentTask.heapTop = heapTop at top fits
  have bound' := increment.isLt
  simp only [heapStart, BitVec.toNat_sub, BitVec.toInt_eq_toNat_cond] at top fits positive ⊢
  split at positive <;> split at fits <;> omega

theorem withHeap_ownHeap {m : Mm} {top : DWord} (inside : top.toNat ≤ heapStart)
    (present : ∀ i < heapPages top,
      (m.getEntry (k.getPT k.current) (pagLogInitHeap - i)).present = true) :
    (k.withHeap m top).OwnHeap k.current := by
  have task : (k.withHeap m top).tasks k.current = { k.currentTask with heapTop := top } :=
    withHeap_task
  have table : (k.withHeap m top).getPT k.current = k.getPT k.current := withHeap_table
  constructor
  · rw [task]
    exact inside
  · rw [task, table]
    exact present

/-- A call with a positive increment fails and leaves the heap alone, or gets all. -/
theorem SbrkCall.outcome (call : SbrkCall) (heap : call.before.OwnHeap call.before.current)
    (positive : 0 < call.increment.toInt) :
    (¬ call.Succeeds ∧ ¬ call.StaysInPage ∧ call.newTop = call.oldTop ∧
        call.after.OwnHeap call.before.current) ∨
      (call.Succeeds ∧ call.Granted) := by
  obtain ⟨k, increment⟩ := call
  have nonzero : increment ≠ 0 := by
    rintro rfl
    cases positive
  have top : k.currentTask.heapTop.toNat ≤ heapStart := heap.top
  change 0 < increment.toInt at positive
  have failed : ∀ m : Mm, k.sysSbrk increment = ({ k with mm := m }, -ENOMEM) →
      m.getEntry = k.mm.getEntry → ¬ SbrkCall.StaysInPage ⟨k, increment⟩ →
      ¬ SbrkCall.Succeeds ⟨k, increment⟩ ∧ ¬ SbrkCall.StaysInPage ⟨k, increment⟩ ∧
        SbrkCall.newTop ⟨k, increment⟩ = SbrkCall.oldTop ⟨k, increment⟩ ∧
        (SbrkCall.after ⟨k, increment⟩).OwnHeap k.current := by
    intro m same entries leaves
    have after : SbrkCall.after ⟨k, increment⟩ = { k with mm := m } := congrArg Prod.fst same
    refine ⟨fun fine => fine (congrArg Prod.snd same), leaves, ?_, ?_⟩
    · rw [SbrkCall.newTop, after]
      rfl
    · rw [after]
      refine ⟨heap.top, fun i below => ?_⟩
      change (m.getEntry _ _).present = true
      rw [entries]
      exact heap.present i below
  by_cases overflow : (k.currentTask.heapTop.toNat : Int) < increment.toInt
  · left
    apply failed k.mm _ rfl
    · intro stays
      exact absurd overflow (not_lt.mpr stays.1)
    · unfold Kernel.sysSbrk
      rw [if_neg nonzero]
      dsimp only
      rw [if_pos ((sbrk_overflow top).mpr overflow)]
  · obtain ⟨smaller, value⟩ := sbrkTop_positive top positive overflow
    have inside : (k.sbrkTop increment).toNat ≤ heapStart := by omega
    have most := heapPages_le inside
    have last : pagLogInitHeap = 511 := rfl
    have granted : ∀ (m : Mm) (result : DWord),
        k.sysSbrk increment = (k.withHeap m (k.sbrkTop increment), result.toInt) →
        (result.toInt = (k.sbrkTop increment).toNat + if SbrkCall.NeedsPage ⟨k, increment⟩
          then 1 else 0) →
        (∀ i < heapPages (k.sbrkTop increment),
          (m.getEntry (k.getPT k.current) (pagLogInitHeap - i)).present = true) →
        SbrkCall.Succeeds ⟨k, increment⟩ ∧ SbrkCall.Granted ⟨k, increment⟩ := by
      intro m result same place present
      have after : SbrkCall.after ⟨k, increment⟩ = k.withHeap m (k.sbrkTop increment) :=
        congrArg Prod.fst same
      have newTop : SbrkCall.newTop ⟨k, increment⟩ = k.sbrkTop increment := by
        rw [SbrkCall.newTop, after, withHeap_task]
      have returned : SbrkCall.result ⟨k, increment⟩ = result.toInt := congrArg Prod.snd same
      refine ⟨?_, ?_, ?_, ?_, ?_, ?_, ?_⟩
      · rw [SbrkCall.Succeeds, returned, place]
        simp only [ENOMEM]
        split <;> omega
      · change increment.toInt ≤ (k.currentTask.heapTop.toNat : Int)
        omega
      · rw [newTop]
        exact value
      · rw [newTop]
        exact smaller
      · rw [after]
        rfl
      · rw [newTop, returned, place]
      · rw [after]
        exact withHeap_ownHeap inside present
    have needs : SbrkCall.NeedsPage ⟨k, increment⟩ ↔
        heapPages k.currentTask.heapTop < heapPages (k.sbrkTop increment) := by
      rw [smaller]
      exact Iff.rfl
    have equation := sysSbrk_eq top nonzero overflow
    dsimp only at equation
    split at equation
    · rename_i grows
      split at equation
      · left
        exact failed k.mm equation rfl fun stays => stays.2 (needs.mpr grows)
      · by_cases enough : heapPages (k.sbrkTop increment) - heapPages k.currentTask.heapTop ≤
            k.mm.freeFrames.length
        · right
          obtain ⟨m, done, reserved⟩ := Mm.reserveFrames_enough _ k.mm [] enough
          rw [done] at equation
          dsimp only at equation
          generalize [] ++ k.mm.freeFrames.take (heapPages (k.sbrkTop increment) -
            heapPages k.currentTask.heapTop) = frames at equation
          apply granted _ _ equation
          · rw [if_pos (needs.mpr grows)]
            simp only [heapStart] at inside
            rw [BitVec.toInt_eq_toNat_cond, BitVec.toNat_add]
            change (if 2 * (((k.sbrkTop increment).toNat + 1) % 2 ^ 32) < 2 ^ 32 then _ else _) = _
            have one : BitVec.toNat (1 : DWord) = 1 := rfl
            rw [if_pos (by omega), one]
            omega
          · intro i below
            have mapped := Mm.mapPages (k.getPT k.current) (pagLogInitHeap -
              heapPages k.currentTask.heapTop)
              (heapPages (k.sbrkTop increment) - heapPages k.currentTask.heapTop)
              (frames.getD · 0) (by omega) m
            rw [mapped.entry]
            split
            · rfl
            · rename_i old
              rw [reserved.entries]
              apply heap.present i
              change i < heapPages k.currentTask.heapTop
              by_contra new
              exact old ⟨rfl, by omega, by omega⟩
        · left
          obtain ⟨m, short, entries, _, _⟩ :=
            Mm.reserveFrames_few _ k.mm [] (Nat.lt_of_not_le enough) List.nodup_nil (by simp)
          rw [short] at equation
          exact failed m equation entries fun stays => stays.2 (needs.mpr grows)
    · rename_i stays
      right
      have lower : (k.sbrkTop increment).toNat ≤ k.currentTask.heapTop.toNat := by omega
      have same : heapPages k.currentTask.heapTop - heapPages (k.sbrkTop increment) = 0 := by
        have := heapPages_mono top lower
        omega
      rw [same, Loop.upTo_zero] at equation
      apply granted _ _ equation
      · rw [if_neg (mt needs.mp stays)]
        simp only [heapStart] at inside
        rw [BitVec.toInt_eq_toNat_cond, if_pos (by omega)]
        rfl
      · intro i below
        exact heap.present i (by
          change i < heapPages k.currentTask.heapTop
          omega)

/-- What a task has been given so far: the blocks lie above its heap, in order. -/
structure Served (task : TaskId) (calls : List SbrkCall) (k : Kernel) : Prop where
  heap : k.OwnHeap task
  granted : ∀ call ∈ calls, call.Succeeds → call.Granted
  refused : ∀ call ∈ calls, ¬ call.Succeeds → ¬ call.StaysInPage
  above : ∀ call ∈ calls, call.Succeeds → (k.tasks task).heapTop.toNat ≤ call.newTop.toNat
  lower : calls.Pairwise fun call later =>
    call.Succeeds → later.Succeeds → later.oldTop.toNat ≤ call.newTop.toNat

/-- A run of calls keeps the blocks in order. -/
theorem SbrkRun.served {task : TaskId} {calls : List SbrkCall} (run : SbrkRun task calls k) :
    Served task calls k := by
  induction run with
  | @start k empty =>
    constructor
    · have none : heapPages (k.tasks task).heapTop = 0 := by rw [empty]; rfl
      constructor
      · rw [empty]
        decide
      · intro i below
        omega
    · intro call member
      cases member
    · intro call member
      cases member
    · intro call member
      cases member
    · exact List.Pairwise.nil
  | @call k calls increment run current positive ih =>
    subst current
    obtain ⟨heap, granted, refused, above, lower⟩ := ih
    -- the call either leaves the top where it is or moves it down
    have outcome := SbrkCall.outcome ⟨k, increment⟩ heap positive
    have same : (k.sysSbrk increment).1.view = k.view := view_sysSbrk
    have task : (SbrkCall.after ⟨k, increment⟩).current = k.current :=
      congrArg View.current same
    have now : ((k.sysSbrk increment).1.tasks k.current).heapTop =
        SbrkCall.newTop ⟨k, increment⟩ := by
      rw [SbrkCall.newTop, Kernel.currentTask, task]
      rfl
    have falls : (SbrkCall.newTop ⟨k, increment⟩).toNat ≤ (k.tasks k.current).heapTop.toNat := by
      rcases outcome with ⟨_, _, same, _⟩ | ⟨_, call⟩
      · rw [same]
        exact Nat.le_refl _
      · have := call.newTop
        change _ = ((k.tasks k.current).heapTop.toNat : Int) - increment.toInt at this
        change 0 < increment.toInt at positive
        omega
    constructor
    · rcases outcome with ⟨_, _, _, heap⟩ | ⟨_, call⟩
      · exact heap
      · exact call.heap
    · intro call member succeeds
      rcases List.mem_append.mp member with old | new
      · exact granted call old succeeds
      · obtain rfl := List.mem_singleton.mp new
        rcases outcome with ⟨fails, _⟩ | ⟨_, call⟩
        · exact absurd succeeds fails
        · exact call
    · intro call member fails
      rcases List.mem_append.mp member with old | new
      · exact refused call old fails
      · obtain rfl := List.mem_singleton.mp new
        rcases outcome with ⟨_, leaves, _⟩ | ⟨succeeds, _⟩
        · exact leaves
        · exact absurd succeeds fails
    · intro call member succeeds
      rw [now]
      rcases List.mem_append.mp member with old | new
      · exact Nat.le_trans falls (above call old succeeds)
      · obtain rfl := List.mem_singleton.mp new
        exact Nat.le_refl _
    · rw [List.pairwise_append]
      refine ⟨lower, List.pairwise_singleton _ _, ?_⟩
      intro call old later new succeeds _
      obtain rfl := List.mem_singleton.mp new
      exact above call old succeeds
  | @other k k' calls run keeps ih =>
    obtain ⟨heap, granted, refused, above, lower⟩ := ih
    refine ⟨⟨?_, ?_⟩, granted, refused, ?_, lower⟩
    · rw [keeps.heapTop]
      exact heap.top
    · rw [keeps.heapTop, keeps.table]
      intro i below
      exact keeps.present i below (heap.present i below)
    · rw [keeps.heapTop]
      exact above

/-- Every call of a run has a positive increment. -/
theorem SbrkRun.positive {task : TaskId} {calls : List SbrkCall} (run : SbrkRun task calls k) :
    ∀ call ∈ calls, 0 < call.increment.toInt := by
  induction run with
  | start => exact fun _ member => absurd member List.not_mem_nil
  | call increment _ _ positive ih =>
      intro call member
      rcases List.mem_append.mp member with old | new
      · exact ih call old
      · obtain rfl := List.mem_singleton.mp new
        exact positive
  | other _ _ ih => exact ih

/-- Every call of a run is made with the heap inside its region. -/
theorem SbrkRun.top {task : TaskId} {calls : List SbrkCall} (run : SbrkRun task calls k) :
    ∀ call ∈ calls, call.oldTop.toNat ≤ heapStart := by
  induction run with
  | start => exact fun _ member => absurd member List.not_mem_nil
  | call increment run current _ ih =>
      intro call member
      rcases List.mem_append.mp member with old | new
      · exact ih call old
      · obtain rfl := List.mem_singleton.mp new
        subst current
        exact run.served.heap.top
  | other _ _ ih => exact ih

/-- The block starts at the first new byte if there is a new page, and one byte too low
if there is none. -/
theorem SbrkCall.Granted.usable_iff {call : SbrkCall} (granted : call.Granted)
    (top : call.oldTop.toNat ≤ heapStart) (positive : 0 < call.increment.toInt) :
    call.Usable ↔ call.NeedsPage := by
  have place := granted.result
  have newTop := granted.newTop
  constructor
  · intro usable
    by_contra stays
    rw [if_neg stays] at place
    have member : (call.oldTop.toNat : Int) ∈ call.newBytes := by
      constructor
      · omega
      · exact le_refl _
    rw [← usable.exact] at member
    have beyond : (call.oldTop.toNat : Int) < call.result + call.increment.toInt := member.2
    omega
  · intro needs
    rw [if_pos needs] at place
    have exact : call.block = call.newBytes := by
      ext place
      show _ ≤ _ ∧ _ < _ ↔ _ < _ ∧ _ ≤ _
      omega
    refine ⟨?_, exact⟩
    intro place member
    rw [exact] at member
    obtain ⟨above, below⟩ := member
    have inside : call.newTop.toNat ≤ heapStart := by omega
    have high := heapPages_le inside
    obtain ⟨i, mapped, page⟩ := heapPages_cover inside place.toNat (by omega) (by omega)
    refine ⟨i, mapped, ?_, ?_⟩
    · simp only [pageSize] at page ⊢
      omega
    · have present := granted.heap.present i (by
        rw [← granted.current]
        exact mapped)
      rw [← granted.current] at present
      exact present

/-- Every block is usable and they are disjoint exactly when each call that the heap has
the bytes for needs a new page. -/
theorem sbrk_blocks {task : TaskId} {calls : List SbrkCall} (run : SbrkRun task calls k) :
    BlocksUsable calls ↔ ∀ call ∈ calls, ¬ call.StaysInPage := by
  have served := run.served
  have positive := run.positive
  constructor
  · intro blocks call member stays
    by_cases succeeds : call.Succeeds
    · have usable := blocks.usable call member succeeds
      exact stays.2 (((served.granted call member succeeds).usable_iff (run.top call member)
        (positive call member)).mp usable)
    · exact served.refused call member succeeds stays
  · intro leaves
    have usable : ∀ call ∈ calls, call.Succeeds → call.Usable := by
      intro call member succeeds
      have granted := served.granted call member succeeds
      apply (granted.usable_iff (run.top call member) (positive call member)).mpr
      by_contra same
      exact leaves call member ⟨granted.fits, same⟩
    refine ⟨usable, ?_⟩
    apply served.lower.imp_of_mem
    intro call later member member' lower succeeds succeeds'
    rw [(usable call member succeeds).exact, (usable later member' succeeds').exact,
      Set.disjoint_left]
    intro place first second
    have below := lower succeeds succeeds'
    have above : (call.newTop.toNat : Int) < place := first.1
    have within : place ≤ (later.oldTop.toNat : Int) := second.2
    omega

/-- Two calls of the first process, each for a page. -/
theorem sbrk_blocks_pages :
    BlocksUsable [⟨Kernel.boot Image.empty, 4096⟩,
      ⟨((Kernel.boot Image.empty).sysSbrk 4096).1, 4096⟩] := by
  refine (sbrk_blocks (@SbrkRun.call 1 _ [⟨Kernel.boot Image.empty, 4096⟩] 4096
    (@SbrkRun.call 1 _ [] 4096 (SbrkRun.start (by decide +kernel)) (by decide +kernel)
      (by decide)) (by decide +kernel) (by decide))).mpr ?_
  intro call member
  rcases List.mem_pair.mp member with rfl | rfl
  · unfold SbrkCall.StaysInPage SbrkCall.NeedsPage
    decide +kernel
  · unfold SbrkCall.StaysInPage SbrkCall.NeedsPage
    decide +kernel

/-- The second byte that the first process asks for is in the page it has: the call
returns the address below the byte that is new. -/
theorem sbrk_twice_overlaps :
    SbrkRun 1 [⟨Kernel.boot Image.empty, 1⟩, ⟨((Kernel.boot Image.empty).sysSbrk 1).1, 1⟩]
      (((Kernel.boot Image.empty).sysSbrk 1).1.sysSbrk 1).1 ∧
    ¬ BlocksUsable [⟨Kernel.boot Image.empty, 1⟩, ⟨((Kernel.boot Image.empty).sysSbrk 1).1, 1⟩] := by
  constructor
  · apply @SbrkRun.call _ _ [⟨Kernel.boot Image.empty, 1⟩]
    · apply @SbrkRun.call _ _ []
      · exact SbrkRun.start (by decide +kernel)
      · decide +kernel
      · decide
    · decide +kernel
    · decide
  · intro blocks
    have usable := blocks.usable ⟨((Kernel.boot Image.empty).sysSbrk 1).1, 1⟩ (by simp) (by
      unfold SbrkCall.Succeeds SbrkCall.result
      decide +kernel)
    have start : (heapStart : Int) - 2 ∈
        SbrkCall.block ⟨((Kernel.boot Image.empty).sysSbrk 1).1, 1⟩ := by
      show _ ≤ _ ∧ _ < _
      unfold SbrkCall.result
      decide +kernel
    rw [usable.exact] at start
    have above : ¬ (((SbrkCall.newTop ⟨((Kernel.boot Image.empty).sysSbrk 1).1, 1⟩).toNat : Int) <
        (heapStart : Int) - 2) := by
      unfold SbrkCall.newTop SbrkCall.after
      decide +kernel
    exact above start.1

end Zeos
