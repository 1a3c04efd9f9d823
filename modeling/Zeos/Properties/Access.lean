import Zeos.Boot
import Zeos.Space.Layout

set_option autoImplicit false

/-! What `access_ok` decides. -/

namespace Zeos

/-- The block from `start` up to `stop` lies in the pages from `first` up to `last`. -/
def InPages (first last start stop : Nat) : Prop :=
  first * pageSize ≤ start ∧ stop ≤ last * pageSize

/-- The first page a task may access in this way: not its code, for writing. -/
def Verify.firstPage : Verify → Nat
  | .write => pagLogInitData
  | .read => pagLogInitCode

/-- The block lies in pages of the task, whose heap has `heap` pages. -/
def InOwnPages (type : Verify) (heap start stop : Nat) : Prop :=
  InPages type.firstPage (pagLogInitData + numPagData) start stop ∨
  InPages (pagLogInitHeap + 1 - heap) (pagLogInitHeap + 1) start stop

/-- The blocks that `access_ok` judges wrongly. -/
inductive Misjudged (type : Verify) (heap start stop : Nat) : Prop
  /-- The end is compared with the page after the data, which passes too. -/
  | pastData (user : pagLogInitCode * pageSize ≤ start)
      (past : (pagLogInitData + numPagData) * pageSize < stop)
      (inside : stop < (pagLogInitData + numPagData + 1) * pageSize)
      (below : start < (pagLogInitHeap + 1 - heap) * pageSize)
  /-- The test for writing falls through to the test for reading. -/
  | code (write : type = .write) (user : pagLogInitCode * pageSize ≤ start)
      (code : start < pagLogInitData * pageSize)
      (inside : stop ≤ (pagLogInitData + numPagData) * pageSize)
      (below : start < (pagLogInitHeap + 1 - heap) * pageSize)
  /-- The page below the heap passes, also when the heap is empty. -/
  | belowHeap (page : start / pageSize + heap = pagLogInitHeap)
      (bounded : stop < 2 ^ 32 ∨ heap = pagLogInitHeap)
      (outside : ¬ InPages type.firstPage (pagLogInitData + numPagData) start stop)
  /-- The end of a block that starts in the heap is not looked at. -/
  | pastHeap (within : pagLogInitHeap + 1 - heap ≤ start / pageSize)
      (inside : start < (pagLogInitHeap + 1) * pageSize)
      (past : (pagLogInitHeap + 1) * pageSize < stop) (bounded : stop < 2 ^ 32)
      (more : heap ≤ pagLogInitHeap)
  /-- The page below a heap of 512 pages is page `-1`, and no page is above it. -/
  | wrapped (all : heap = pagLogInitHeap + 1) (inside : stop ≤ (pagLogInitHeap + 1) * pageSize)
      (outside : start < pagLogInitCode * pageSize ∨
        (pagLogInitData + numPagData + 1) * pageSize ≤ stop)

variable {k : Kernel} {type : Verify} {addr size : DWord}

/-- A test that falls through to a weaker one. -/
theorem falls_through {first strong weak : Prop} [Decidable first] [Decidable strong]
    [Decidable weak] (weaker : strong → weak) :
    (if first ∧ strong then true else decide weak) = true ↔ weak := by
  split
  · rename_i both
    exact iff_of_true rfl (weaker both.2)
  · exact decide_eq_true_iff

/-- The comparisons of `access_ok`, as numbers. -/
theorem accessOk_eq (fits : addr.toNat + size.toNat ≤ 2 ^ 32)
    (inside : k.currentTask.heapTop.toNat ≤ heapStart) :
    k.accessOk type addr size = true ↔
      (addr.toNat + size.toNat < 2 ^ 32 ∨ addr.toNat < pageSize) ∧
      ((pagLogInitCode ≤ addr.toNat / pageSize ∧
        (addr.toNat + size.toNat) / pageSize ≤ pagLogInitData + numPagData ) ∨
      (pagLogInitHeap ≤ addr.toNat / pageSize + heapPages k.currentTask.heapTop ∧
        addr.toNat / pageSize ≤ pagLogInitHeap ∧
        heapPages k.currentTask.heapTop ≤ pagLogInitHeap)) := by
  obtain ⟨code, data, heap, most⟩ := Mm.regions
  have shift : ∀ x : Nat, x >>> 12 = x / pageSize := fun x => Nat.shiftRight_eq_div_pow x 12
  have user : userFirstPage = 256 := rfl
  have bounded := heapPages_le inside
  have low : (BitVec.ofInt 32 ((pagLogInitHeap : Int) - heapPages k.currentTask.heapTop)).toNat =
      if heapPages k.currentTask.heapTop ≤ pagLogInitHeap then
        pagLogInitHeap - heapPages k.currentTask.heapTop else 2 ^ 32 - 1 := by
    rw [BitVec.toNat_ofInt]
    split
    · omega
    · omega
  have last : (addr + size).toNat =
      if addr.toNat + size.toNat < 2 ^ 32 then addr.toNat + size.toNat else 0 := by
    rw [BitVec.toNat_add]
    split
    · omega
    · omega
  have small := addr.isLt
  unfold Kernel.accessOk
  dsimp only
  rw [getHeapPageSize_eq inside, low, shift, shift, last]
  generalize heapPages k.currentTask.heapTop = pages at bounded ⊢
  generalize addr.toNat = start at fits small ⊢
  have order : start ≤ start + size.toNat := Nat.le_add_right ..
  generalize start + size.toNat = stop at fits order ⊢
  simp only [pageSize, numPagCode, numPagData]
  by_cases below : stop < 2 ^ 32
  · rw [if_pos below, if_neg (by omega), falls_through (by omega)]
    split
    · omega
    · omega
  · rw [if_neg below]
    by_cases denied : 0 / 4096 < start / 4096
    · rw [if_pos denied]
      apply iff_of_false nofun
      omega
    · rw [if_neg denied, falls_through (by omega)]
      split
      · omega
      · omega

/-- `accessOk_eq`, on numbers. -/
def Granted (heap start stop : Nat) : Prop :=
  (stop < 2 ^ 32 ∨ start < pageSize) ∧
  ((pagLogInitCode ≤ start / pageSize ∧ stop / pageSize ≤ pagLogInitData + numPagData) ∨
  (pagLogInitHeap ≤ start / pageSize + heap ∧ start / pageSize ≤ pagLogInitHeap ∧
    heap ≤ pagLogInitHeap))

variable {heap start stop : Nat}

/-- Every block of `Misjudged` is judged wrongly. -/
theorem Misjudged.wrong (order : start < stop) (fits : stop ≤ 2 ^ 32)
    (misjudged : Misjudged type heap start stop) :
    ¬ (Granted heap start stop ↔ InOwnPages type heap start stop) := by
  obtain ⟨code, data, last, most⟩ := Mm.regions
  have starts : type.firstPage = 264 ∨ type.firstPage = 256 ∧ type ≠ .write := by
    cases type
    · exact Or.inr ⟨rfl, nofun⟩
    · exact Or.inl rfl
  cases misjudged with
  | pastData user past inside below =>
      simp only [Granted, InOwnPages, InPages, pageSize, numPagData] at *
      omega
  | code write user code inside below =>
      simp only [Granted, InOwnPages, InPages, pageSize, numPagData] at *
      rw [or_iff_left fun read => read.2 write] at starts
      omega
  | belowHeap page bounded outside =>
      simp only [Granted, InOwnPages, InPages, pageSize, numPagData] at *
      omega
  | pastHeap within inside past bounded more =>
      simp only [Granted, InOwnPages, InPages, pageSize, numPagData] at *
      omega
  | wrapped all inside outside =>
      simp only [Granted, InOwnPages, InPages, pageSize, numPagData] at *
      omega

/-- Every block judged wrongly is one of `Misjudged`. -/
theorem granted_iff (order : start < stop) (fits : stop ≤ 2 ^ 32)
    (bounded : heap ≤ pagLogInitHeap + 1) (fine : ¬ Misjudged type heap start stop) :
    Granted heap start stop ↔ InOwnPages type heap start stop := by
  obtain ⟨code, data, last, most⟩ := Mm.regions
  have starts : type.firstPage = 264 ∧ type = .write ∨ type.firstPage = 256 := by
    cases type
    · exact Or.inr rfl
    · exact Or.inl ⟨rfl, rfl⟩
  constructor
  · intro granted
    by_contra outside
    obtain ⟨below, place⟩ := granted
    rw [InOwnPages, not_or] at outside
    obtain ⟨outData, outHeap⟩ := outside
    have apart := outData
    simp only [InPages, pageSize, numPagData] at outData outHeap below place
    rcases place with inData | inHeap
    · by_cases past : (pagLogInitData + 20) * 4096 < stop
      · apply fine (.pastData ?_ past ?_ ?_)
        all_goals simp only [pageSize, numPagData]
        all_goals omega
      · have write : type = .write := by
          rcases starts with both | first
          · exact both.2
          · omega
        have first : type.firstPage = 264 := by rw [write]; rfl
        apply fine (.code write ?_ ?_ ?_ ?_)
        all_goals simp only [pageSize, numPagData]
        all_goals omega
    · by_cases page : start / 4096 + heap = pagLogInitHeap
      · exact fine (.belowHeap page (by omega) apart)
      · apply fine (.pastHeap ?_ ?_ ?_ ?_ ?_)
        all_goals try simp only [pageSize]
        all_goals omega
  · intro own
    by_contra denied
    simp only [Granted, InOwnPages, InPages, pageSize, numPagData] at own denied
    apply fine (.wrapped ?_ ?_ ?_)
    all_goals try simp only [pageSize, numPagData]
    all_goals omega

/-- `access_ok` decides whether the block lies in pages of the task, but for the blocks of
`Misjudged`. -/
theorem access_ok_decides (some : 0 < size.toNat) (fits : addr.toNat + size.toNat ≤ 2 ^ 32)
    (inside : k.currentTask.heapTop.toNat ≤ heapStart) :
    (k.accessOk type addr size = true ↔
      InOwnPages type (heapPages k.currentTask.heapTop) addr.toNat
        (addr.toNat + size.toNat)) ↔
    ¬ Misjudged type (heapPages k.currentTask.heapTop) addr.toNat
      (addr.toNat + size.toNat) := by
  rw [accessOk_eq fits inside]
  have bounded := heapPages_le inside
  generalize heapPages k.currentTask.heapTop = pages at bounded ⊢
  generalize addr.toNat = start at fits ⊢
  have order : start < start + size.toNat := Nat.lt_add_of_pos_right some
  generalize start + size.toNat = stop at fits order ⊢
  constructor
  · intro decides misjudged
    exact misjudged.wrong order fits decides
  · intro fine
    exact granted_iff order fits bounded fine

/-- With an empty heap, `access_ok` lets a task write its code. -/
theorem access_ok_decides_counterexample :
    let k := Kernel.boot Image.empty
    k.accessOk .write 0x100000 1 = true ∧
      ¬ InOwnPages .write (heapPages k.currentTask.heapTop) 0x100000 0x100001 := by
  refine ⟨by decide +kernel, ?_⟩
  have empty : heapPages (Kernel.boot Image.empty).currentTask.heapTop = 0 := by decide +kernel
  show ¬ InOwnPages .write (heapPages (Kernel.boot Image.empty).currentTask.heapTop) _ _
  rw [empty]
  unfold InOwnPages InPages
  decide

theorem access_ok_decides_data :
    let k := Kernel.boot Image.empty
    (k.accessOk .write 0x108000 4 = true ↔
      InOwnPages .write (heapPages k.currentTask.heapTop) 0x108000 0x108004) ↔
    ¬ Misjudged .write (heapPages k.currentTask.heapTop) 0x108000 0x108004 :=
  access_ok_decides (by decide) (by decide) (by decide +kernel)

end Zeos
