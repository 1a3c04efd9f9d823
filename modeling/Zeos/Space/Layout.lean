import Zeos.Space

set_option autoImplicit false

/-! The layout of the page tables, in every run: what the entries of each region may be,
and which pages of a live task are mapped. -/

namespace Zeos

/-! ### Tables -/

/-- The frames of the code pages, which every process uses. -/
def codeFrame (i : Nat) : Nat := numPagKernel + 2 * i

/-- The frames that hold code, and frame 0, which empty entries name. -/
def Fixed (frame : Nat) : Prop := frame = 0 ∨ ∃ i < numPagCode, frame = codeFrame i

/-- The frames that `alloc_frame` hands out once the code is in place. -/
def UserFrame (frame : Nat) : Prop := frame ∈ Mm.scannedFrames ∧ ¬ Fixed frame

/-- An entry of a data or heap page in use. -/
def Plain (entry : PageTableEntry) : Prop :=
  entry.present = true ∧ entry.user = true ∧ UserFrame entry.pbaseAddr

def codeEntry (i : Nat) : PageTableEntry := ⟨true, false, true, codeFrame i⟩

theorem userFrame_iff {frame : Nat} :
    UserFrame frame ↔ codeFrame numPagCode ≤ frame ∧ frame < totalPages ∧ frame % 2 = 0 := by
  rw [UserFrame, Mm.mem_scannedFrames]
  simp only [codeFrame, Fixed, numPagKernel, numPagCode, totalPages]
  constructor
  · intro both
    obtain ⟨⟨low, high, even⟩, free⟩ := both
    refine ⟨?_, high, even⟩
    by_contra code
    apply free
    exact Or.inr ⟨(frame - 256) / 2, by omega, by omega⟩
  · intro bounds
    obtain ⟨low, high, even⟩ := bounds
    refine ⟨⟨by omega, high, even⟩, ?_⟩
    intro fixed
    rcases fixed with zero | code
    · omega
    · obtain ⟨i, below, same⟩ := code
      omega

namespace Mm

variable {m : Mm} {d a b : DirId} {p frame : Nat} {entry : PageTableEntry}

/-- What holds of the tables and the frame marks in every run. -/
structure Tidy (m : Mm) : Prop where
  entry : ∀ d p, pagLogInitData ≤ p → m.getEntry d p = noEntry ∨ Plain (m.getEntry d p)
  code : ∀ d i, i < numPagCode →
    m.getEntry d (pagLogInitCode + i) = noEntry ∨ m.getEntry d (pagLogInitCode + i) = codeEntry i
  kernel : ∀ d p, p < numPagKernel → (m.getEntry d p).user = false
  fixed : ∀ f, Fixed f → m.cowCountMem f = 0 ∧ m.physMem f = USED_FRAME
  unprotected : m.writeProtect = false

/-- Only the table changes, at a data or heap page. -/
theorem Tidy.setEntry (tidy : m.Tidy) (page : pagLogInitData ≤ p)
    (plain : entry = noEntry ∨ Plain entry) : (m.setEntry d p entry).Tidy where
  entry d' p' page' := by
    rw [getEntry_setEntry]
    split
    · exact plain
    · exact tidy.entry d' p' page'
  code d' i below := by
    have out : ¬ (d' = d ∧ pagLogInitCode + i = p) := by
      intro both
      have same := both.2
      simp only [pagLogInitData] at page
      omega
    rw [getEntry_setEntry, if_neg out]
    exact tidy.code d' i below
  kernel d' p' low := by
    have out : ¬ (d' = d ∧ p' = p) := by
      intro both
      have same := both.2
      simp only [pagLogInitData, pagLogInitCode, lUserStart, numPagKernel] at page low
      omega
    rw [getEntry_setEntry, if_neg out]
    exact tidy.kernel d' p' low
  fixed := tidy.fixed
  unprotected := tidy.unprotected

theorem Tidy.setCode (tidy : m.Tidy) {i : Nat} (below : i < numPagCode)
    (code : entry = noEntry ∨ entry = codeEntry i) :
    (m.setEntry d (pagLogInitCode + i) entry).Tidy where
  entry d' p' page := by
    have out : ¬ (d' = d ∧ p' = pagLogInitCode + i) := by
      intro both
      have same := both.2
      simp only [pagLogInitData] at page
      omega
    rw [getEntry_setEntry, if_neg out]
    exact tidy.entry d' p' page
  code d' j below' := by
    rw [getEntry_setEntry]
    split
    · rename_i here
      have same : j = i := by omega
      rw [same]
      exact code
    · exact tidy.code d' j below'
  kernel d' p' low := by
    have out : ¬ (d' = d ∧ p' = pagLogInitCode + i) := by
      intro both
      have same := both.2
      simp only [pagLogInitCode, lUserStart, numPagKernel] at same low
      omega
    rw [getEntry_setEntry, if_neg out]
    exact tidy.kernel d' p' low
  fixed := tidy.fixed
  unprotected := tidy.unprotected

/-- Marks and counts of frames that are not fixed may change. -/
theorem Tidy.frames (tidy : m.Tidy) (m' : Mm) (entries : m'.getEntry = m.getEntry)
    (cr0 : m'.cr0 = m.cr0) (cow : ∀ f, Fixed f → m'.cowCountMem f = m.cowCountMem f)
    (phys : ∀ f, Fixed f → m'.physMem f = m.physMem f) : m'.Tidy where
  entry := by
    rw [entries]
    exact tidy.entry
  code := by
    rw [entries]
    exact tidy.code
  kernel := by
    rw [entries]
    exact tidy.kernel
  fixed f fixed := by
    rw [cow f fixed, phys f fixed]
    exact tidy.fixed f fixed
  unprotected := by
    rw [writeProtect, cr0]
    exact tidy.unprotected

theorem Tidy.setCow (tidy : m.Tidy) (free : ¬ Fixed frame) {count : Byte} :
    (m.setCow frame count).Tidy := by
  apply tidy.frames (m.setCow frame count) rfl rfl
  · intro f fixed
    rw [cowCountMem_setCow, if_neg]
    rintro rfl
    exact free fixed
  · exact fun _ _ => rfl

theorem cr0_freeFrame : (m.freeFrame frame).cr0 = m.cr0 := by
  unfold freeFrame
  dsimp only
  split <;> split <;> rfl

theorem Tidy.freeFrame (tidy : m.Tidy) (free : ¬ Fixed frame) : (m.freeFrame frame).Tidy := by
  apply tidy.frames _ getEntry_freeFrame cr0_freeFrame
  · intro f fixed
    rw [cowCountMem_freeFrame, if_neg]
    rintro ⟨rfl, _⟩
    exact free fixed
  · intro f fixed
    rw [physMem_freeFrame, if_neg]
    rintro ⟨rfl, _⟩
    exact free fixed

/-- A free frame is not fixed. -/
theorem Tidy.userFrame (tidy : m.Tidy) (free : frame ∈ m.freeFrames) : UserFrame frame := by
  obtain ⟨scanned, unused⟩ := mem_freeFrames.mp free
  refine ⟨scanned, fun fixed => ?_⟩
  rw [(tidy.fixed frame fixed).2] at unused
  cases unused

theorem Tidy.take (tidy : m.Tidy) (free : frame ∈ m.freeFrames) : (m.take frame).Tidy := by
  have user := tidy.userFrame free
  apply tidy.frames (m.take frame) rfl rfl
  · intro f fixed
    rw [cowCountMem_take, if_neg]
    rintro rfl
    exact user.2 fixed
  · intro f fixed
    rw [physMem_take, if_neg]
    rintro rfl
    exact user.2 fixed

theorem Tidy.setCr3 (tidy : m.Tidy) {dir : Option DirId} : (m.setCr3 dir).Tidy :=
  tidy.frames _ rfl rfl (fun _ _ => rfl) fun _ _ => rfl

theorem Tidy.fault (tidy : m.Tidy) {page : Nat} : (m.fault page).Tidy :=
  tidy.frames _ rfl rfl (fun _ _ => rfl) fun _ _ => rfl

theorem Tidy.poke (tidy : m.Tidy) {addr : Nat} {value : Byte} : (m.poke addr value).Tidy :=
  tidy.frames _ rfl rfl (fun _ _ => rfl) fun _ _ => rfl

/-- An entry in use names a frame that is not fixed. -/
theorem Tidy.plain (tidy : m.Tidy) (page : pagLogInitData ≤ p)
    (present : (m.getEntry d p).present = true) : Plain (m.getEntry d p) := by
  refine (tidy.entry d p page).resolve_left fun empty => ?_
  rw [empty] at present
  cases present

theorem Tidy.frame_free (tidy : m.Tidy) (page : pagLogInitData ≤ p)
    (present : (m.getEntry d p).present = true) : ¬ Fixed (m.getFrame d p) :=
  (tidy.plain page present).2.2.2

/-- The counts that let `pf_rsi` go on belong to entries in use. -/
theorem Tidy.counted (tidy : m.Tidy) (user : pagLogInitCode ≤ p)
    (some : m.cowCountMem (m.getFrame d p) ≠ 0) :
    pagLogInitData ≤ p ∧ Plain (m.getEntry d p) := by
  have notFixed : ¬ Fixed (m.getFrame d p) := fun fixed => some (tidy.fixed _ fixed).1
  have notEmpty : m.getEntry d p ≠ noEntry := by
    intro empty
    apply notFixed
    rw [getFrame, empty]
    exact Or.inl rfl
  have page : pagLogInitData ≤ p := by
    by_contra below
    simp only [pagLogInitData] at below
    have here : pagLogInitCode + (p - pagLogInitCode) = p := by omega
    have entry := tidy.code d (p - pagLogInitCode) (by omega)
    rw [here] at entry
    rcases entry with empty | code
    · exact notEmpty empty
    · apply notFixed
      rw [getFrame, code]
      exact Or.inr ⟨p - pagLogInitCode, by omega, rfl⟩
  exact ⟨page, (tidy.entry d p page).resolve_left notEmpty⟩

/-! ### Sharing a page -/

theorem getEntry_shareCowPage (apart : a ≠ b) {d : DirId} {q : Nat} :
    (m.shareCowPage a b p).getEntry d q =
      if q = p then
        if d = b then ⟨true, false, true, m.getFrame a p⟩
        else if d = a then { m.getEntry a p with rw := false }
        else m.getEntry d q
      else m.getEntry d q := by
  unfold shareCowPage
  dsimp only
  generalize counted : (if (m.setCow (m.getFrame a p) (m.cowCountMem (m.getFrame a p) + 1)).cowCountMem
    (m.getFrame a p) = 1 then _ else _) = m'
  have entries : m'.getEntry = m.getEntry := by
    rw [← counted]
    split <;> rfl
  simp only [setRoPage, setSsPag, getEntry_setEntry, entries]
  by_cases page : q = p
  · subst page
    by_cases dest : d = b
    · simp [dest, apart.symm]
    · by_cases source : d = a
      · simp [source, apart]
      · simp [dest, source]
  · simp [page]

theorem physMem_shareCowPage : (m.shareCowPage a b p).physMem = m.physMem := by
  unfold shareCowPage
  dsimp only
  simp only [setRoPage, setSsPag, physMem_setEntry]
  split <;> rfl

theorem ram_shareCowPage : (m.shareCowPage a b p).ram = m.ram := by
  unfold shareCowPage
  dsimp only
  simp only [setRoPage, setSsPag, ram_setEntry]
  split <;> rfl

/-- The first share counts both references. -/
theorem cowCountMem_shareCowPage {f : Nat} : (m.shareCowPage a b p).cowCountMem f =
    if f = m.getFrame a p then
      if m.cowCountMem f = 0 then 2 else m.cowCountMem f + 1
    else m.cowCountMem f := by
  unfold shareCowPage
  dsimp only
  simp only [setRoPage, setSsPag, cowCountMem_setEntry]
  by_cases own : f = m.getFrame a p
  · subst own
    by_cases first : m.cowCountMem (m.getFrame a p) = 0
    · rw [if_pos, cowCountMem_setCow, if_pos rfl, cowCountMem_setCow, if_pos rfl, if_pos rfl, first]
      · rfl
      · rw [cowCountMem_setCow, if_pos rfl, first]
        rfl
    · have more : m.cowCountMem (m.getFrame a p) + 1 ≠ 1 := by
        intro one
        apply first
        generalize m.cowCountMem (m.getFrame a p) = count at one ⊢
        bv_omega
      rw [if_neg, cowCountMem_setCow, if_pos rfl, if_pos rfl, if_neg first]
      rw [cowCountMem_setCow, if_pos rfl]
      exact more
  · rw [if_neg own]
    split
    · rw [cowCountMem_setCow, if_neg own, cowCountMem_setCow, if_neg own]
    · rw [cowCountMem_setCow, if_neg own]

theorem cr0_shareCowPage : (m.shareCowPage a b p).cr0 = m.cr0 := by
  unfold shareCowPage
  dsimp only
  simp only [setRoPage, setSsPag, setEntry]
  split <;> rfl

theorem Tidy.shareCowPage (tidy : m.Tidy) (apart : a ≠ b) (page : pagLogInitData ≤ p)
    (present : (m.getEntry a p).present = true) : (m.shareCowPage a b p).Tidy := by
  have plain := tidy.plain page present
  have free := tidy.frame_free page present
  have low : pagLogInitCode ≤ p := by
    simp only [pagLogInitData] at page
    omega
  constructor
  · intro d q page'
    rw [getEntry_shareCowPage apart]
    split
    · split
      · exact Or.inr ⟨rfl, rfl, plain.2.2⟩
      · split
        · exact Or.inr plain
        · exact tidy.entry d q page'
    · exact tidy.entry d q page'
  · intro d i below
    have out : ¬ pagLogInitCode + i = p := by
      simp only [pagLogInitData] at page
      omega
    rw [getEntry_shareCowPage apart, if_neg out]
    exact tidy.code d i below
  · intro d q below
    have out : ¬ q = p := by
      simp only [pagLogInitData, pagLogInitCode, lUserStart, numPagKernel] at page below
      omega
    rw [getEntry_shareCowPage apart, if_neg out]
    exact tidy.kernel d q below
  · intro f fixed
    have other : f ≠ m.getFrame a p := by
      rintro rfl
      exact free fixed
    rw [cowCountMem_shareCowPage, if_neg other, physMem_shareCowPage]
    exact tidy.fixed f fixed
  · rw [writeProtect, cr0_shareCowPage]
    exact tidy.unprotected

/-! ### The loops of `sys_fork` and `sys_exit` -/

/-- The data pages and the first `count` heap pages, in the order of the loops. -/
def ownPages (count : Nat) : List Nat :=
  (List.range numPagData).map (pagLogInitData + ·) ++
    (List.range count).map (pagLogInitHeap - ·)

theorem mem_ownPages {count : Nat} : p ∈ ownPages count ↔
    (pagLogInitData ≤ p ∧ p < pagLogInitData + numPagData) ∨
      ∃ i < count, p = pagLogInitHeap - i := by
  simp only [ownPages, List.mem_append, List.mem_map, List.mem_range]
  apply or_congr
  · constructor
    · intro listed
      obtain ⟨i, below, same⟩ := listed
      omega
    · intro bounds
      exact ⟨p - pagLogInitData, by omega, by omega⟩
  · apply exists_congr
    intro i
    exact and_congr_right fun _ => eq_comm

/-- There is room for so many heap pages above the data pages. -/
abbrev maxHeapPages : Nat := 228

theorem regions : pagLogInitCode = 256 ∧ pagLogInitData = 264 ∧ pagLogInitHeap = 511 ∧
    maxHeapPages = 228 :=
  ⟨rfl, rfl, rfl, rfl⟩

theorem ownPages_low {count : Nat} (room : count ≤ maxHeapPages) (own : p ∈ ownPages count) :
    pagLogInitData ≤ p ∧ p ≤ pagLogInitHeap := by
  obtain ⟨_, data, heap, most⟩ := regions
  rcases mem_ownPages.mp own with inData | inHeap
  · simp only [numPagData] at inData
    omega
  · obtain ⟨i, below, same⟩ := inHeap
    omega

theorem ownPages_nodup {count : Nat} (room : count ≤ maxHeapPages) : (ownPages count).Nodup := by
  rw [ownPages, List.nodup_append]
  refine ⟨?_, ?_, ?_⟩
  · apply List.Nodup.map _ List.nodup_range
    intro i j same
    simp only at same
    omega
  · rw [List.nodup_map_iff_inj_on List.nodup_range]
    intro i below j below' same
    rw [List.mem_range] at below below'
    obtain ⟨_, _, heap, most⟩ := regions
    omega
  · intro q first q' second same
    simp only [List.mem_map, List.mem_range] at first second
    obtain ⟨i, below, rfl⟩ := first
    obtain ⟨j, below', rfl⟩ := second
    obtain ⟨_, data, heap, most⟩ := regions
    simp only [numPagData] at below
    omega

theorem sharePages_eq {count : Nat} : Kernel.sharePages m a b count =
    (ownPages count).foldl (fun m p => m.shareCowPage a b p) m := by
  unfold Kernel.sharePages
  rw [ownPages, List.foldl_append, Loop.upTo_eq_foldl, Loop.upTo_eq_foldl, List.foldl_map,
    List.foldl_map]

/-- What the loop over the code pages does. -/
structure CopiedCode (m m' : Mm) (a b : DirId) : Prop where
  entry : ∀ d p, m'.getEntry d p =
    if d = b ∧ pagLogInitCode ≤ p ∧ p < pagLogInitData then m.getEntry a p else m.getEntry d p
  phys : m'.physMem = m.physMem
  cow : m'.cowCountMem = m.cowCountMem
  ram : m'.ram = m.ram
  cr0 : m'.cr0 = m.cr0

theorem copyCodePages_spec (apart : a ≠ b) : CopiedCode m (Kernel.copyCodePages m a b) a b := by
  have rule := Loop.upTo_invariant numPagCode (fun i m =>
    m.setEntry b (pagLogInitCode + i) (m.getEntry a (pagLogInitCode + i))) m
    (fun i m' => (∀ d p, m'.getEntry d p =
      if d = b ∧ pagLogInitCode ≤ p ∧ p < pagLogInitCode + i then m.getEntry a p
      else m.getEntry d p) ∧ m'.physMem = m.physMem ∧ m'.cowCountMem = m.cowCountMem ∧
      m'.ram = m.ram ∧ m'.cr0 = m.cr0) ?_ ?_
  · obtain ⟨entry, phys, cow, ram, cr0⟩ := rule
    exact ⟨entry, phys, cow, ram, cr0⟩
  · refine ⟨fun d p => ?_, rfl, rfl, rfl, rfl⟩
    rw [if_neg (by omega)]
  · intro i m' below done
    obtain ⟨entry, phys, cow, ram, cr0⟩ := done
    refine ⟨fun d p => ?_, phys, cow, ram, cr0⟩
    have source : ¬ (a = b ∧ pagLogInitCode ≤ pagLogInitCode + i ∧
        pagLogInitCode + i < pagLogInitCode + i) := fun both => apart both.1
    rw [getEntry_setEntry, entry, entry, if_neg source]
    by_cases here : d = b ∧ p = pagLogInitCode + i
    · rw [if_pos here, if_pos ⟨here.1, by omega, by omega⟩, here.2]
    · rw [if_neg here]
      apply if_congr _ rfl rfl
      constructor
      · intro both
        exact ⟨both.1, both.2.1, by omega⟩
      · intro both
        refine ⟨both.1, both.2.1, ?_⟩
        by_contra beyond
        exact here ⟨both.1, by omega⟩

theorem Tidy.copyCodePages (tidy : m.Tidy) : (Kernel.copyCodePages m a b).Tidy := by
  apply Loop.upTo_invariant numPagCode _ m fun _ m' => m'.Tidy
  · exact tidy
  · intro i m' below tidy'
    exact tidy'.setCode below (tidy'.code a i below)

/-- What sharing `pages` does to the table entries. -/
structure Shared (m m' : Mm) (a b : DirId) (pages : List Nat) : Prop where
  entry : ∀ d p, m'.getEntry d p =
    if p ∈ pages then
      if d = b then ⟨true, false, true, m.getFrame a p⟩
      else if d = a then { m.getEntry a p with rw := false }
      else m.getEntry d p
    else m.getEntry d p
  phys : m'.physMem = m.physMem
  ram : m'.ram = m.ram

theorem Shared.next {m' : Mm} {pages : List Nat} (shared : Shared m m' a b pages) (apart : a ≠ b)
    (new : p ∉ pages) : Shared m (m'.shareCowPage a b p) a b (pages ++ [p]) := by
  refine ⟨fun d q => ?_, ?_, ?_⟩
  · have source : m'.getEntry a p = m.getEntry a p := by rw [shared.entry, if_neg new]
    have frame : m'.getFrame a p = m.getFrame a p := congrArg PageTableEntry.pbaseAddr source
    rw [getEntry_shareCowPage apart, source, frame, shared.entry]
    by_cases here : q = p
    · subst here
      rw [if_pos rfl, if_pos (show q ∈ pages ++ [q] by simp), if_neg new]
    · rw [if_neg here]
      apply if_congr _ rfl rfl
      simp [here]
  · rw [physMem_shareCowPage, shared.phys]
  · rw [ram_shareCowPage, shared.ram]

theorem shareAll (apart : a ≠ b) {pages : List Nat} (distinct : pages.Nodup) (m : Mm) :
    Shared m (pages.foldl (fun m p => m.shareCowPage a b p) m) a b pages := by
  apply Loop.foldl_invariant pages _ m fun done m' => Shared m m' a b done
  · refine ⟨fun d p => ?_, rfl, rfl⟩
    rw [if_neg (by simp)]
  · intro done item rest m' whole shared
    apply shared.next apart
    rw [whole] at distinct
    intro inside
    exact (List.nodup_append.mp distinct).2.2 item inside item (by simp) rfl

theorem Tidy.shareAll (tidy : m.Tidy) (apart : a ≠ b) {pages : List Nat}
    (low : ∀ p ∈ pages, pagLogInitData ≤ p)
    (present : ∀ p ∈ pages, (m.getEntry a p).present = true) :
    (pages.foldl (fun m p => m.shareCowPage a b p) m).Tidy := by
  have rule := Loop.foldl_invariant pages (fun m p => m.shareCowPage a b p) m
    (fun _ m' => m'.Tidy ∧ ∀ p ∈ pages, (m'.getEntry a p).present = true) ⟨tidy, present⟩ ?_
  · exact rule.1
  · intro done item rest m' whole holds
    obtain ⟨tidy', present'⟩ := holds
    have member : item ∈ pages := by simp [whole]
    refine ⟨tidy'.shareCowPage apart (low item member) (present' item member), ?_⟩
    intro p inside
    rw [getEntry_shareCowPage apart]
    by_cases here : p = item
    · rw [if_pos here, if_neg apart, if_pos rfl]
      exact present' item member
    · rw [if_neg here]
      exact present' p inside

/-! ### The loops that release frames -/

/-- Release the frame of each first page, and clear the entry of each second one. -/
def dropAll (d : DirId) (pairs : List (Nat × Nat)) (m : Mm) : Mm :=
  pairs.foldl (fun m pair => (m.freeFrame (m.getFrame d pair.1)).setEntry d pair.2 noEntry) m

/-- The pages that `free_user_pages` releases and those it clears. -/
def exitPages (count : Nat) : List (Nat × Nat) :=
  (List.range numPagData).map (fun i => (pagLogInitData + i, pagLogInitData + i)) ++
    (List.range count).map fun i => (pagLogInitHeap - i, pagLogInitHeap + i)

theorem freeUserPages_eq {heapTop : DWord} :
    m.freeUserPages d heapTop = dropAll d (exitPages (heapPages heapTop)) m := by
  unfold freeUserPages
  rw [dropAll, exitPages, List.foldl_append, Loop.upTo_eq_foldl, Loop.upTo_eq_foldl,
    List.foldl_map, List.foldl_map]
  simp only [getFrame]

/-- The pages from `base` down, as `sys_sbrk` gives them back. -/
def lowerPages (base count : Nat) : List (Nat × Nat) :=
  (List.range count).map fun i => (base - i, base - i)

theorem unmap_eq {base count : Nat} : Loop.upTo count (fun i m =>
    (m.freeFrame (m.getFrame d (base - i))).delSsPag d (base - i)) m =
      dropAll d (lowerPages base count) m := by
  rw [dropAll, lowerPages, Loop.upTo_eq_foldl, List.foldl_map]
  rfl

/-- No entry is cleared before its frame is released. -/
def Orderly (pairs : List (Nat × Nat)) : Prop :=
  pairs.Pairwise fun first second => second.1 ≠ first.2

theorem exitPages_orderly {count : Nat} (room : count ≤ maxHeapPages) :
    Orderly (exitPages count) := by
  obtain ⟨_, data, heap, most⟩ := regions
  rw [Orderly, exitPages, List.pairwise_append]
  refine ⟨?_, ?_, ?_⟩
  · rw [List.pairwise_map]
    exact List.nodup_range.imp fun different same => different (by omega)
  · rw [List.pairwise_map]
    apply (List.pairwise_lt_range (n := count)).imp_of_mem
    intro i j first second below same
    rw [List.mem_range] at first second
    simp only at same
    omega
  · intro first inside second inside' same
    simp only [List.mem_map, List.mem_range] at inside inside'
    obtain ⟨i, below, rfl⟩ := inside
    obtain ⟨j, below', rfl⟩ := inside'
    simp only [numPagData] at below same
    omega

theorem lowerPages_orderly {base count : Nat} (room : count ≤ base + 1) :
    Orderly (lowerPages base count) := by
  rw [Orderly, lowerPages, List.pairwise_map]
  apply List.nodup_range.imp_of_mem
  intro i j first second different same
  rw [List.mem_range] at first second
  simp only at same
  omega

/-- What the loop does to the table entries. -/
structure Dropped (m m' : Mm) (d : DirId) (pairs : List (Nat × Nat)) : Prop where
  entry : ∀ d' p, m'.getEntry d' p =
    if d' = d ∧ p ∈ pairs.map Prod.snd then noEntry else m.getEntry d' p
  ram : m'.ram = m.ram
  cr3 : m'.cr3 = m.cr3

theorem cr3_freeFrame : (m.freeFrame frame).cr3 = m.cr3 := by
  unfold freeFrame
  dsimp only
  split <;> split <;> rfl

theorem Dropped.next {m' : Mm} {pairs : List (Nat × Nat)} (dropped : Dropped m m' d pairs)
    (pair : Nat × Nat) : Dropped m
      ((m'.freeFrame (m'.getFrame d pair.1)).setEntry d pair.2 noEntry) d (pairs ++ [pair]) := by
  refine ⟨fun d' p => ?_, ?_, ?_⟩
  · have member : p ∈ (pairs ++ [pair]).map Prod.snd ↔ p ∈ pairs.map Prod.snd ∨ p = pair.2 := by
      rw [List.map_append, List.mem_append]
      simp
    rw [getEntry_setEntry, getEntry_freeFrame, dropped.entry]
    by_cases here : d' = d ∧ p = pair.2
    · rw [if_pos here, if_pos ⟨here.1, member.mpr (Or.inr here.2)⟩]
    · rw [if_neg here]
      apply if_congr _ rfl rfl
      apply and_congr_right
      intro space
      rw [member]
      exact ⟨Or.inl, fun either => either.resolve_right fun same => here ⟨space, same⟩⟩
  · rw [ram_setEntry, ram_freeFrame, dropped.ram]
  · rw [cr3_setEntry, cr3_freeFrame, dropped.cr3]

theorem Dropped.refl : Dropped m m d [] := by
  refine ⟨fun d' p => ?_, rfl, rfl⟩
  rw [if_neg (by simp)]

theorem dropAll_spec (pairs : List (Nat × Nat)) : Dropped m (dropAll d pairs m) d pairs := by
  apply Loop.foldl_invariant pairs _ m fun done m' => Dropped m m' d done
  · exact Dropped.refl
  · intro done pair rest m' _ dropped
    exact dropped.next pair

/-- The entry whose frame is released next is still there. -/
theorem Dropped.source {m' : Mm} {done rest : List (Nat × Nat)} {pair : Nat × Nat}
    (dropped : Dropped m m' d done) (orderly : Orderly (done ++ pair :: rest)) :
    m'.getEntry d pair.1 = m.getEntry d pair.1 := by
  rw [dropped.entry, if_neg]
  intro both
  obtain ⟨earlier, inside, same⟩ := List.mem_map.mp both.2
  exact (List.pairwise_append.mp orderly).2.2 earlier inside pair (by simp) same.symm

theorem Tidy.dropAll (tidy : m.Tidy) {pairs : List (Nat × Nat)} (orderly : Orderly pairs)
    (low : ∀ pair ∈ pairs, pagLogInitData ≤ pair.1 ∧ pagLogInitData ≤ pair.2)
    (present : ∀ pair ∈ pairs, (m.getEntry d pair.1).present = true) :
    (dropAll d pairs m).Tidy := by
  have rule := Loop.foldl_invariant pairs
    (fun m pair => (m.freeFrame (m.getFrame d pair.1)).setEntry d pair.2 noEntry) m
    (fun done m' => m'.Tidy ∧ Dropped m m' d done) ⟨tidy, Dropped.refl⟩ ?_
  · exact rule.1
  · intro done pair rest m' whole holds
    obtain ⟨tidy', dropped⟩ := holds
    have member : pair ∈ pairs := by simp [whole]
    obtain ⟨first, second⟩ := low pair member
    have source := dropped.source (whole ▸ orderly)
    have there := present pair member
    rw [← source] at there
    refine ⟨Tidy.setEntry (tidy'.freeFrame (tidy'.frame_free first there)) second (Or.inl rfl), ?_⟩
    exact dropped.next pair

/-! ### The loops that take frames -/

theorem reserveFrames_frame (count : Nat) : ∀ (m : Mm) (taken : List Nat),
    (Kernel.reserveFrames count m taken).1.ram = m.ram ∧
    (Kernel.reserveFrames count m taken).1.cr0 = m.cr0 ∧
    (Kernel.reserveFrames count m taken).1.cr3 = m.cr3 := by
  have released : ∀ (frames : List Nat) (m : Mm),
      (frames.foldl (fun m frame => m.freeFrame frame) m).ram = m.ram ∧
      (frames.foldl (fun m frame => m.freeFrame frame) m).cr0 = m.cr0 ∧
      (frames.foldl (fun m frame => m.freeFrame frame) m).cr3 = m.cr3 := by
    intro frames
    induction frames with
    | nil => exact fun _ => ⟨rfl, rfl, rfl⟩
    | cons first rest ih =>
        intro m
        obtain ⟨ram, cr0, cr3⟩ := ih (m.freeFrame first)
        exact ⟨ram.trans ram_freeFrame, cr0.trans cr0_freeFrame, cr3.trans cr3_freeFrame⟩
  induction count with
  | zero => exact fun _ _ => ⟨rfl, rfl, rfl⟩
  | succ count ih =>
      intro m taken
      unfold Kernel.reserveFrames
      rw [allocFrame_eq]
      cases m.freeFrames with
      | nil => exact released taken m
      | cons frame rest => exact ih (m.take frame) (taken ++ [frame])

/-- A failed reservation leaves the tables and the marks as they were. -/
theorem refused_spec {count : Nat} {m' : Mm}
    (refused : Kernel.reserveFrames count m [] = (m', none)) : m'.getEntry = m.getEntry ∧
      m'.physMem = m.physMem ∧
      ∀ f, m.physMem f ≠ FREE_FRAME → m'.cowCountMem f = m.cowCountMem f := by
  have few : m.freeFrames.length < count := by
    by_contra enough
    obtain ⟨m'', done, _⟩ := reserveFrames_enough count m [] (Nat.le_of_not_lt enough)
    rw [refused] at done
    cases done
  obtain ⟨m'', same, entries, phys, cow⟩ := reserveFrames_few count m [] few List.nodup_nil (by simp)
  rw [refused] at same
  cases same
  refine ⟨entries, ?_, fun f used => cow f (by simp) used⟩
  funext f
  rw [phys, if_neg (by simp)]

theorem Tidy.refused (tidy : m.Tidy) {count : Nat} {m' : Mm}
    (refused : Kernel.reserveFrames count m [] = (m', none)) : m'.Tidy := by
  obtain ⟨entries, phys, cow⟩ := refused_spec refused
  have frame := (reserveFrames_frame count m []).2.1
  rw [refused] at frame
  apply tidy.frames m' entries frame
  · intro f fixed
    have marked := (tidy.fixed f fixed).2
    exact cow f (by rw [marked]; decide)
  · intro f _
    rw [phys]

/-- A reservation that succeeds takes the first free frames. -/
theorem reserved_of_some {count : Nat} {m' : Mm} {frames : List Nat}
    (done : Kernel.reserveFrames count m [] = (m', some frames)) :
    count ≤ m.freeFrames.length ∧ frames = m.freeFrames.take count ∧ Reserved m m' frames := by
  by_cases enough : count ≤ m.freeFrames.length
  · obtain ⟨m'', same, reserved⟩ := reserveFrames_enough count m [] enough
    rw [done] at same
    cases same
    exact ⟨enough, rfl, reserved⟩
  · obtain ⟨m'', same, _⟩ :=
      reserveFrames_few count m [] (Nat.lt_of_not_le enough) List.nodup_nil (by simp)
    rw [done] at same
    cases same

/-- The `i`-th frame reserved is a free one. -/
theorem reserved_free {count i : Nat} (enough : count ≤ m.freeFrames.length) (below : i < count) :
    (m.freeFrames.take count).getD i 0 ∈ m.freeFrames := by
  have inside : i < (m.freeFrames.take count).length := by
    rw [List.length_take]
    omega
  rw [List.getD_eq_getElem _ _ inside]
  exact List.mem_of_mem_take (List.getElem_mem inside)

theorem Tidy.grown (tidy : m.Tidy) {m' : Mm} {base count : Nat} {frames : List Nat}
    (done : Kernel.reserveFrames count m [] = (m', some frames))
    (low : pagLogInitData + count ≤ base + 1) :
    (Loop.upTo count (fun i m => m.setSsPag d (base - i) (frames.getD i 0)) m').Tidy := by
  obtain ⟨enough, rfl, reserved⟩ := reserved_of_some done
  have cr0 := (reserveFrames_frame count m []).2.1
  rw [done] at cr0
  have taken : m'.Tidy := by
    apply tidy.frames m' reserved.entries cr0
    · intro f fixed
      rw [reserved.cow, if_neg]
      exact fun member => (tidy.userFrame (List.mem_of_mem_take member)).2 fixed
    · intro f fixed
      rw [reserved.phys, if_neg]
      exact fun member => (tidy.userFrame (List.mem_of_mem_take member)).2 fixed
  apply Loop.upTo_invariant count _ m' fun _ m => m.Tidy
  · exact taken
  · intro i m'' below tidy''
    have user := tidy.userFrame (reserved_free enough below)
    exact Tidy.setEntry tidy'' (by omega) (Or.inr ⟨rfl, rfl, user⟩)

/-! ### Copying a frame -/

/-- What `copy_frame` does when the tables of `d` are in use. -/
structure CopiedFrame (m m' : Mm) (d : DirId) (page frame : Nat) : Prop where
  entry : ∀ d' p, m'.getEntry d' p =
    if d' = d ∧ p = pagLogInitHeap + 1 then noEntry else m.getEntry d' p
  copied : ∀ offset < pageSize, m'.ram frame offset = m.ram (m.getFrame d page) offset
  others : ∀ f, f ≠ frame → m'.ram f = m.ram f
  phys : m'.physMem = m.physMem
  cow : m'.cowCountMem = m.cowCountMem
  cr0 : m'.cr0 = m.cr0
  cr3 : m'.cr3 = some d

theorem page_offset {page offset : Nat} (inside : offset < pageSize) :
    (page * pageSize + offset) / pageSize = page ∧ (page * pageSize + offset) % pageSize = offset := by
  simp only [pageSize] at inside ⊢
  omega

/-- The byte at an offset of a page of the directory in use. -/
theorem peek_page (cr3 : m.cr3 = some d) {page offset : Nat} (low : page < totalPages)
    (inside : offset < pageSize) :
    m.peek (page * pageSize + offset) = m.ram (m.getFrame d page) offset := by
  obtain ⟨number, place⟩ := @page_offset page offset inside
  rw [peek, mapped, cr3, number, place]
  dsimp only
  rw [if_pos low]
  rfl

theorem ram_poke_page (cr3 : m.cr3 = some d) {page offset : Nat} (low : page < totalPages)
    (inside : offset < pageSize) {value : Byte} :
    (m.poke (page * pageSize + offset) value).ram = Function.update m.ram (m.getFrame d page)
      (Function.update (m.ram (m.getFrame d page)) offset value) := by
  obtain ⟨number, place⟩ := @page_offset page offset inside
  rw [poke, mapped, cr3, number, place]
  dsimp only
  rw [if_pos low]
  rfl

/-- The first `total` bytes of page `source` have been copied to page `dest`. -/
structure CopiedBytes (m m' : Mm) (f frame total : Nat) : Prop where
  entry : m'.getEntry = m.getEntry
  copied : ∀ offset, m'.ram frame offset =
    if offset < total then m.ram f offset else m.ram frame offset
  others : ∀ g, g ≠ frame → m'.ram g = m.ram g
  phys : m'.physMem = m.physMem
  cow : m'.cowCountMem = m.cowCountMem
  cr0 : m'.cr0 = m.cr0
  cr3 : m'.cr3 = m.cr3

theorem copyData_page (cr3 : m.cr3 = some d) {source dest total : Nat}
    (low : source < totalPages) (low' : dest < totalPages) (inside : total ≤ pageSize) :
    CopiedBytes m (copyData peek poke total (source * pageSize) (dest * pageSize) m)
      (m.getFrame d source) (m.getFrame d dest) total := by
  have rule := copyData_invariant peek poke
    (fun done m' => CopiedBytes m m' (m.getFrame d source) (m.getFrame d dest) done)
    (source * pageSize) (dest * pageSize)
    (fun offset => m.ram (m.getFrame d source) offset) total ?_ ?_ total 0 m (by omega) ?_
  · rw [Nat.add_zero, Nat.add_zero] at rule
    exact rule
  · intro done offset m' copied behind below
    have name : m'.getFrame d source = m.getFrame d source := by
      rw [getFrame, copied.entry]
      rfl
    rw [peek_page (copied.cr3.trans cr3) low (by omega), name]
    by_cases same : m.getFrame d source = m.getFrame d dest
    · rw [same, copied.copied, if_neg (by omega)]
    · rw [copied.others _ same]
  · intro done m' copied below
    have name : m'.getFrame d dest = m.getFrame d dest := by
      rw [getFrame, copied.entry]
      rfl
    have stored := @ram_poke_page m' d (copied.cr3.trans cr3) dest done low' (by omega)
      (m.ram (m.getFrame d source) done)
    rw [name] at stored
    refine ⟨copied.entry, ?_, ?_, copied.phys, copied.cow, copied.cr0, copied.cr3⟩
    · intro offset
      rw [stored, Function.update_self, Function.update_apply, copied.copied]
      by_cases here : offset = done
      · rw [if_pos here, if_pos (by omega), here]
      · rw [if_neg here]
        apply if_congr _ rfl rfl
        omega
    · intro g other
      rw [stored, Function.update_of_ne other, copied.others g other]
  · refine ⟨rfl, fun offset => ?_, fun _ _ => rfl, rfl, rfl, rfl, rfl⟩
    rw [if_neg (Nat.not_lt_zero _)]

theorem copyFrame_spec (cr3 : m.cr3 = some d) {page frame : Nat} (low : page < totalPages)
    (apart : page ≠ pagLogInitHeap + 1) : CopiedFrame m (m.copyFrame d page frame) d page frame := by
  obtain ⟨_, _, heap, _⟩ := regions
  have extra : pagLogInitHeap + 1 < totalPages := by
    simp only [totalPages]
    omega
  have source : (m.setSsPag d (pagLogInitHeap + 1) frame).getFrame d page = m.getFrame d page := by
    rw [getFrame, setSsPag, getEntry_setEntry, if_neg fun both => apart both.2]
    rfl
  have dest : (m.setSsPag d (pagLogInitHeap + 1) frame).getFrame d (pagLogInitHeap + 1) = frame := by
    rw [getFrame, setSsPag, getEntry_setEntry, if_pos ⟨rfl, rfl⟩]
  have copied := @copyData_page (m.setSsPag d (pagLogInitHeap + 1) frame) d cr3 page
    (pagLogInitHeap + 1) pageSize low extra (Nat.le_refl _)
  rw [source, dest] at copied
  have shape : m.copyFrame d page frame =
      ((copyData peek poke pageSize (page * pageSize) ((pagLogInitHeap + 1) * pageSize)
        (m.setSsPag d (pagLogInitHeap + 1) frame)).delSsPag d (pagLogInitHeap + 1)).setCr3
          (some d) := rfl
  rw [shape]
  generalize copyData peek poke pageSize (page * pageSize) ((pagLogInitHeap + 1) * pageSize)
    (m.setSsPag d (pagLogInitHeap + 1) frame) = m' at copied ⊢
  refine ⟨?_, ?_, ?_, ?_, ?_, ?_, cr3_setCr3⟩
  · intro d' p
    rw [getEntry_setCr3, delSsPag, getEntry_setEntry, copied.entry]
    by_cases here : d' = d ∧ p = pagLogInitHeap + 1
    · rw [if_pos here, if_pos here]
    · rw [if_neg here, if_neg here, setSsPag, getEntry_setEntry, if_neg here]
  · intro offset inside
    have same := copied.copied offset
    rw [if_pos inside] at same
    rw [ram_setCr3, delSsPag, ram_setEntry, same, setSsPag, ram_setEntry]
  · intro f other
    rw [ram_setCr3, delSsPag, ram_setEntry, copied.others f other, setSsPag, ram_setEntry]
  · rw [physMem_setCr3, delSsPag, physMem_setEntry, copied.phys, setSsPag, physMem_setEntry]
  · rw [cowCountMem_setCr3, delSsPag, cowCountMem_setEntry, copied.cow, setSsPag,
      cowCountMem_setEntry]
  · rw [cr0_setCr3, delSsPag, cr0_setEntry, copied.cr0, setSsPag, cr0_setEntry]

theorem Tidy.copied (tidy : m.Tidy) {m' : Mm} {page : Nat} (copied : CopiedFrame m m' d page frame) :
    m'.Tidy := by
  obtain ⟨code, data, heap, _⟩ := regions
  constructor
  · intro d' p low
    rw [copied.entry]
    split
    · exact Or.inl rfl
    · exact tidy.entry d' p low
  · intro d' i below
    simp only [numPagCode] at below
    rw [copied.entry, if_neg (by omega)]
    exact tidy.code d' i below
  · intro d' p below
    simp only [numPagKernel] at below
    rw [copied.entry, if_neg (by omega)]
    exact tidy.kernel d' p below
  · intro f fixed
    rw [copied.cow, copied.phys]
    exact tidy.fixed f fixed
  · rw [writeProtect, copied.cr0]
    exact tidy.unprotected

end Mm

end Zeos
