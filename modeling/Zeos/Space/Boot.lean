import Zeos.Space.Steps

set_option autoImplicit false

/-! The address spaces after boot, and their layout in every run. -/

namespace Zeos

variable {k k₁ : Kernel} {task : TaskId}

/-! ### The pages of the first process -/

namespace Mm

variable {m m' : Mm} {d : DirId}

/-- What handing out `count` frames for the pages from `base` on does. -/
structure Handed (m m' : Mm) (d : DirId) (base : Nat) (rw : Bool) (count : Nat) : Prop where
  entry : ∀ d' p, m'.getEntry d' p =
    if d' = d ∧ base ≤ p ∧ p < base + count then
      ⟨true, rw, true, m.freeFrames.getD (p - base) 0⟩
    else m.getEntry d' p
  free : m'.freeFrames = m.freeFrames.drop count
  phys : ∀ f, m'.physMem f = if f ∈ m.freeFrames.take count then USED_FRAME else m.physMem f
  cow : ∀ f, m'.cowCountMem f = if f ∈ m.freeFrames.take count then 0 else m.cowCountMem f
  cr0 : m'.cr0 = m.cr0

/-- One loop of `set_user_pages`. -/
theorem handOut (d : DirId) (base count : Nat) (rw : Bool) (m : Mm)
    (enough : count ≤ m.freeFrames.length) :
    Handed m (Loop.upTo count (fun pag m =>
      (m.allocFrame.1).setEntry d (base + pag)
        ⟨true, rw, true, m.allocFrame.2.getD (2 ^ 20 - 1)⟩) m) d base rw count := by
  apply Loop.upTo_invariant count _ m fun i m' => Handed m m' d base rw i
  · refine ⟨fun d' p => ?_, by simp, fun f => by simp, fun f => by simp, rfl⟩
    rw [if_neg (by omega)]
  · intro i m' below handed
    have inside : i < m.freeFrames.length := by omega
    have left : m'.freeFrames = m.freeFrames[i] :: m.freeFrames.drop (i + 1) := by
      rw [handed.free, List.drop_eq_getElem_cons inside]
    have got : m'.allocFrame = (m'.take m.freeFrames[i], some m.freeFrames[i]) := by
      rw [allocFrame_eq, left]
    have member : ∀ f, f ∈ m.freeFrames.take (i + 1) ↔
        f ∈ m.freeFrames.take i ∨ f = m.freeFrames[i] := by
      intro f
      rw [List.take_succ_eq_append_getElem inside, List.mem_append, List.mem_singleton]
    rw [got]
    refine ⟨fun d' p => ?_, freeFrames_take left, fun f => ?_, fun f => ?_, handed.cr0⟩
    · rw [getEntry_setEntry]
      by_cases here : d' = d ∧ p = base + i
      · rw [if_pos here, if_pos ⟨here.1, by omega, by omega⟩, here.2, Nat.add_sub_cancel_left,
          List.getD_eq_getElem _ _ inside]
        rfl
      · rw [if_neg here, getEntry_take, handed.entry]
        apply if_congr _ rfl rfl
        constructor
        · intro both
          exact ⟨both.1, both.2.1, by omega⟩
        · intro both
          refine ⟨both.1, both.2.1, ?_⟩
          by_contra beyond
          exact here ⟨both.1, by omega⟩
    · rw [physMem_setEntry, physMem_take, handed.phys]
      by_cases new : f = m.freeFrames[i]
      · rw [if_pos new, if_pos ((member f).mpr (Or.inr new))]
      · rw [if_neg new]
        apply if_congr _ rfl rfl
        rw [member]
        exact ⟨Or.inl, fun either => either.resolve_right new⟩
    · rw [cowCountMem_setEntry, cowCountMem_take, handed.cow]
      by_cases new : f = m.freeFrames[i]
      · rw [if_pos new, if_pos ((member f).mpr (Or.inr new))]
      · rw [if_neg new]
        apply if_congr _ rfl rfl
        rw [member]
        exact ⟨Or.inl, fun either => either.resolve_right new⟩

theorem scannedFrames_length : scannedFrames.length = 384 := by
  rw [scannedFrames, List.length_map, List.length_range]
  rfl

theorem scannedFrames_getElem {i : Nat} (inside : i < scannedFrames.length) :
    scannedFrames[i] = numPagKernel + 2 * i := by
  simp [scannedFrames]

/-- The memory of a machine whose only process has just got its pages. -/
structure Fresh (m : Mm) (d : DirId) : Prop where
  code : ∀ i < numPagCode, m.getEntry d (pagLogInitCode + i) = codeEntry i
  data : ∀ i < numPagData, m.getEntry d (pagLogInitData + i) =
    ⟨true, true, true, codeFrame (numPagCode + i)⟩
  others : ∀ d' p, pagLogInitCode ≤ p →
    ¬ (d' = d ∧ p < pagLogInitData + numPagData) → m.getEntry d' p = noEntry
  kernel : ∀ d' p, p < numPagKernel → (m.getEntry d' p).user = false
  phys : ∀ f, m.physMem f = if f < numPagKernel ∨ ∃ i < numPagCode + numPagData, f = codeFrame i
    then USED_FRAME else FREE_FRAME
  cow : ∀ f, m.cowCountMem f = 0
  unprotected : m.writeProtect = false

/-- Memory after `init_mm`, before any process. -/
structure Blank (m : Mm) : Prop where
  user : ∀ d p, pagLogInitCode ≤ p → m.getEntry d p = noEntry
  kernel : ∀ d p, p < numPagKernel → (m.getEntry d p).user = false
  phys : ∀ f, m.physMem f = if f < numPagKernel then USED_FRAME else FREE_FRAME
  cow : ∀ f, m.cowCountMem f = 0
  unprotected : m.writeProtect = false

theorem Blank.free (blank : Blank m) : m.freeFrames = scannedFrames := by
  rw [freeFrames, List.filter_eq_self]
  intro f scanned
  have high := (mem_scannedFrames.mp scanned).1
  rw [blank.phys, if_neg (by omega)]
  rfl

theorem setUserPages_eq (m : Mm) (d : DirId) : m.setUserPages d = Loop.upTo numPagData (fun pag m =>
      (m.allocFrame.1).setEntry d (pagLogInitData + pag)
      ⟨true, true, true, m.allocFrame.2.getD (2 ^ 20 - 1)⟩)
    (Loop.upTo numPagCode (fun pag m => (m.allocFrame.1).setEntry d (pagLogInitCode + pag)
      ⟨true, false, true, m.allocFrame.2.getD (2 ^ 20 - 1)⟩) m) :=
  rfl

/-- `set_user_pages` on blank memory. -/
theorem Blank.setUserPages (blank : Blank m) (d : DirId) : Fresh (m.setUserPages d) d := by
  obtain ⟨codeAt, dataAt, _, _⟩ := regions
  have total := scannedFrames_length
  have first := handOut d pagLogInitCode numPagCode false m (by
    rw [blank.free, total]
    decide)
  rw [setUserPages_eq]
  generalize Loop.upTo numPagCode _ m = m₁ at first ⊢
  have second := handOut d pagLogInitData numPagData true m₁ (by
    rw [first.free, blank.free, List.length_drop, total]
    decide)
  generalize Loop.upTo numPagData _ m₁ = m₂ at second ⊢
  have frames : ∀ i < numPagCode + numPagData, ∃ inside : i < scannedFrames.length,
      scannedFrames[i] = codeFrame i := by
    intro i below
    simp only [numPagCode, numPagData] at below
    exact ⟨by omega, scannedFrames_getElem (by omega)⟩
  have listed : ∀ f, f ∈ scannedFrames.take (numPagCode + numPagData) ↔
      ∃ i < numPagCode + numPagData, f = codeFrame i := by
    intro f
    rw [List.mem_take_iff_getElem]
    constructor
    · intro member
      obtain ⟨i, below, same⟩ := member
      have small : i < numPagCode + numPagData := by omega
      exact ⟨i, small, by rw [← same, (frames i small).2]⟩
    · intro member
      obtain ⟨i, below, same⟩ := member
      obtain ⟨inside, here⟩ := frames i below
      exact ⟨i, by omega, by rw [here, same]⟩
  have both : ∀ f, f ∈ scannedFrames.take (numPagCode + numPagData) ↔
      f ∈ m.freeFrames.take numPagCode ∨ f ∈ m₁.freeFrames.take numPagData := by
    intro f
    rw [first.free, blank.free, List.take_add, List.mem_append]
  constructor
  · intro i below
    rw [second.entry, if_neg (by simp only [numPagCode] at below; omega), first.entry,
      if_pos ⟨rfl, by omega, by omega⟩, blank.free, Nat.add_sub_cancel_left]
    obtain ⟨inside, here⟩ := frames i (by omega)
    rw [List.getD_eq_getElem _ _ inside, here]
    rfl
  · intro i below
    rw [second.entry, if_pos ⟨rfl, by omega, by omega⟩, first.free, blank.free,
      Nat.add_sub_cancel_left]
    obtain ⟨inside, here⟩ := frames (numPagCode + i) (by omega)
    rw [List.getD_eq_getElem _ _ (by rw [List.length_drop]; omega), List.getElem_drop, here]
  · intro d' p high out
    rw [second.entry, if_neg (by intro within; exact out ⟨within.1, within.2.2⟩), first.entry,
      if_neg, blank.user d' p high]
    intro within
    apply out
    refine ⟨within.1, ?_⟩
    have small := within.2.2
    simp only [numPagCode, numPagData] at small ⊢
    omega
  · intro d' p low
    simp only [numPagKernel] at low
    rw [second.entry, if_neg (by omega), first.entry, if_neg (by omega)]
    exact blank.kernel d' p low
  · intro f
    rw [second.phys, first.phys, blank.phys]
    by_cases handed : f ∈ scannedFrames.take (numPagCode + numPagData)
    · rw [if_pos (show f < numPagKernel ∨ _ from Or.inr ((listed f).mp handed))]
      rcases (both f).mp handed with one | two
      · rw [if_pos one]
        split <;> rfl
      · rw [if_pos two]
    · rw [if_neg fun two => handed ((both f).mpr (Or.inr two)),
        if_neg fun one => handed ((both f).mpr (Or.inl one))]
      apply if_congr _ rfl rfl
      constructor
      · exact Or.inl
      · intro either
        exact either.resolve_right fun some => handed ((listed f).mpr some)
  · intro f
    rw [second.cow, first.cow, blank.cow]
    split
    · rfl
    · split <;> rfl
  · rw [writeProtect, second.cr0, first.cr0]
    exact blank.unprotected

/-- Handing out frames leaves the kernel pages and the bytes. -/
theorem handOut_kernel (d : DirId) (base count : Nat) (rw : Bool) (m : Mm)
    (high : numPagKernel ≤ base) :
    let m' := Loop.upTo count (fun pag m => (m.allocFrame.1).setEntry d (base + pag)
      ⟨true, rw, true, m.allocFrame.2.getD (2 ^ 20 - 1)⟩) m
    (∀ d' p, p < numPagKernel → m'.getEntry d' p = m.getEntry d' p) ∧ m'.ram = m.ram := by
  apply Loop.upTo_invariant count _ m fun _ m' =>
    (∀ d' p, p < numPagKernel → m'.getEntry d' p = m.getEntry d' p) ∧ m'.ram = m.ram
  · exact ⟨fun _ _ _ => rfl, rfl⟩
  · intro i m₁ _ kept
    have taken : m₁.allocFrame.1.getEntry = m₁.getEntry ∧ m₁.allocFrame.1.ram = m₁.ram := by
      rw [allocFrame_eq]
      split <;> exact ⟨rfl, rfl⟩
    refine ⟨fun d' p low => ?_, taken.2.trans kept.2⟩
    rw [getEntry_setEntry, if_neg (by omega), taken.1]
    exact kept.1 d' p low

/-- `set_user_pages` leaves the kernel pages and the bytes. -/
theorem setUserPages_kernel (m : Mm) (d : DirId) :
    (∀ d' p, p < numPagKernel → (m.setUserPages d).getEntry d' p = m.getEntry d' p) ∧
      (m.setUserPages d).ram = m.ram := by
  obtain ⟨codeAt, dataAt, _, _⟩ := regions
  have userHigh : numPagKernel ≤ pagLogInitCode ∧ numPagKernel ≤ pagLogInitData := by
    simp only [numPagKernel]
    omega
  rw [setUserPages_eq]
  obtain ⟨code, codeRam⟩ := handOut_kernel d pagLogInitCode numPagCode false m userHigh.1
  generalize Loop.upTo numPagCode _ m = m₁ at code codeRam ⊢
  obtain ⟨data, dataRam⟩ := handOut_kernel d pagLogInitData numPagData true m₁ userHigh.2
  generalize Loop.upTo numPagData _ m₁ = m₂ at data dataRam ⊢
  exact ⟨fun d' p low => (data d' p low).trans (code d' p low), dataRam.trans codeRam⟩

theorem Fresh.setCr3 (fresh : Fresh m d) {dir : Option DirId} : Fresh (m.setCr3 dir) d :=
  ⟨fresh.code, fresh.data, fresh.others, fresh.kernel, fresh.phys, fresh.cow, fresh.unprotected⟩

theorem Fresh.tidy (fresh : Fresh m d) : m.Tidy := by
  obtain ⟨codeAt, dataAt, _, _⟩ := regions
  constructor
  · intro d' p low
    by_cases here : d' = d ∧ p < pagLogInitData + numPagData
    · right
      obtain ⟨rfl, below⟩ := here
      have entry := fresh.data (p - pagLogInitData) (by omega)
      rw [Nat.add_sub_cancel' low] at entry
      rw [entry]
      refine ⟨rfl, rfl, userFrame_iff.mpr ?_⟩
      simp only [numPagData] at below
      simp only [codeFrame, numPagCode, numPagKernel, totalPages]
      omega
    · exact Or.inl (fresh.others d' p (by omega) here)
  · intro d' i below
    by_cases here : d' = d
    · rw [here]
      exact Or.inr (fresh.code i below)
    · exact Or.inl (fresh.others d' _ (by omega) fun both => here both.1)
  · exact fresh.kernel
  · intro f fixed
    refine ⟨fresh.cow f, ?_⟩
    rw [fresh.phys, if_pos]
    rcases fixed with zero | code
    · left
      rw [zero]
      decide
    · obtain ⟨i, below, same⟩ := code
      exact Or.inr ⟨i, by omega, same⟩
  · exact fresh.unprotected

end Mm

/-! ### The stages of boot -/

/-- `init_mm` on the memory, without the directories. -/
theorem mm_initMm (image : Image) :
    ((Kernel.static image).initMm image.guardBefore image.guardAfter).mm =
      ((((Kernel.static image).mm.initTablePages image.guardBefore
        image.guardAfter).initFrames).setCr3 (some 0)).setPeFlag := by
  have loop := Loop.upTo_frame nrTasks (fun i (k : Kernel) =>
    { k.setDirCount (Fin.ofNat nrTasks i) 0 with
      links := listAdd (k.setDirCount (Fin.ofNat nrTasks i) 0).links
        (.dirAnchor (Fin.ofNat nrTasks i)) .freeDirs })
    { { Kernel.static image with
        mm := ((Kernel.static image).mm.initTablePages image.guardBefore
          image.guardAfter).initFrames } with
      links := initListHead (Kernel.static image).links .freeDirs } Kernel.mm fun _ _ _ => rfl
  exact congrArg (fun m : Mm => (m.setCr3 (some 0)).setPeFlag) loop

theorem blank_initMm (image : Image) : Mm.Blank
    ((Kernel.static image).initMm image.guardBefore image.guardAfter).mm := by
  obtain ⟨codeAt, _, _, _⟩ := Mm.regions
  rw [mm_initMm]
  constructor
  · intro d p high
    change (if 1 ≤ p ∧ p < numPagKernel then _ else noEntry) = noEntry
    rw [if_neg]
    intro both
    have low := both.2
    simp only [numPagKernel] at low
    omega
  · intro d p _
    change PageTableEntry.user (if 1 ≤ p ∧ p < numPagKernel then _ else noEntry) = false
    split <;> rfl
  · intro f
    change (if f < numPagKernel then USED_FRAME else if f < totalPages then FREE_FRAME else 0) = _
    split
    · rfl
    · split <;> rfl
  · intro f
    change (if f < numPagKernel then (0 : Byte) else 0) = 0
    split <;> rfl
  · show ((1 : DWord) ||| 0x80000000).getLsbD 16 = false
    decide

theorem Kernel.space_mm (k : Kernel) : k.space.mm = k.mm := rfl

/-- `init_mm` and `init_sched` give no task a directory. -/
theorem space_initSched : k.initSched.space = k.space := by
  unfold Kernel.initSched
  exact Loop.upTo_frame nrTasks (fun i (k : Kernel) =>
    k.updateProcessStateRr (Fin.ofNat nrTasks i) (some .freeQueue)) _ Kernel.space
    fun _ _ _ => space_updateProcessStateRr

theorem space_initDirPages : k.initDirPages.space = k.space :=
  Loop.upTo_frame nrTasks (fun i (k : Kernel) =>
    { k.setDirCount (Fin.ofNat nrTasks i) 0 with
      links := listAdd (k.setDirCount (Fin.ofNat nrTasks i) 0).links
        (.dirAnchor (Fin.ofNat nrTasks i)) .freeDirs })
    { k with links := initListHead k.links .freeDirs } Kernel.space fun _ _ _ => rfl

theorem space_initMm {before after : Nat} : (k.initMm before after).space =
    { k.space with mm := (k.initMm before after).mm } := by
  unfold Kernel.initMm
  dsimp only
  generalize (k.mm.initTablePages before after).initFrames = blank
  have dirs := @space_initDirPages { k with mm := blank }
  generalize Kernel.initDirPages _ = k₁ at dirs ⊢
  generalize (k₁.mm.setCr3 (some 0)).setPeFlag = m
  exact congrArg (fun s : Space => { s with mm := m }) dirs

theorem space_initIdle (got : k.allocateProcess none = (k₁, some task)) :
    k.initIdle.space = { k₁.space with idle := task } := by
  unfold Kernel.initIdle
  rw [got]
  dsimp only
  rw [space_setState]
  exact @space_setTask { k₁ with idleTask := task } task _ rfl rfl

theorem space_initTask1 (got : k.allocateProcess none = (k₁, some task)) :
    k.initTask1.space = { k₁.space with
      mm := (k₁.mm.setUserPages (k₁.getPT task)).setCr3 (k₁.getDIR task)
      current := task } := by
  unfold Kernel.initTask1
  rw [got]
  dsimp only
  generalize k₁.mm.setUserPages (k₁.getPT task) = pages
  have steered : { k₁ with mm := pages }.getDIR task = k₁.getDIR task := rfl
  rw [steered]
  generalize pages.setCr3 (k₁.getDIR task) = m
  have same : (({ k₁ with mm := m }.setState task .run).updateStats task .freeToReady).space =
      { k₁ with mm := m }.space := space_updateStats.trans space_setState
  exact congrArg (fun s : Space => { s with current := task }) same

theorem space_initKeyboard : k.initKeyboard.space = k.space := rfl

/-- Where the tasks are after boot, and the memory of the first process. -/
structure Space.Initial (s : Space) : Prop where
  fresh : Mm.Fresh s.mm 8
  cr3 : s.mm.cr3 = some 8
  tops : ∀ t, s.dir t ≠ none → s.heapTop t = BitVec.ofNat 32 heapStart
  idleDir : s.dir 0 = some 9
  firstDir : s.dir 1 = some 8
  others : ∀ t, t ≠ 0 → t ≠ 1 → s.dir t = none
  current : s.current = 1
  idle : s.idle = 0
  stores : s.stores = []

theorem boot_initial (image : Image) : (Kernel.boot image).space.Initial ∧
    (Kernel.boot image).mm = (((Kernel.static image).initMm image.guardBefore
      image.guardAfter).mm.setUserPages 8).setCr3 (some 8) := by
  rw [← Kernel.space_mm]
  have lives := (boot_refines image).lives
  obtain ⟨firstPick, secondPick⟩ := boot_picks image
  have memory := blank_initMm image
  have start := (@space_initSched ((Kernel.static image).initMm image.guardBefore
    image.guardAfter)).trans space_initMm
  rw [Kernel.boot, space_initKeyboard] at lives ⊢
  generalize ((Kernel.static image).initMm image.guardBefore image.guardAfter).mm = blank
    at memory start
  generalize ((Kernel.static image).initMm image.guardBefore image.guardAfter).initSched = k₁
    at firstPick secondPick start lives ⊢
  obtain ⟨k₂, idleMade⟩ : ∃ k₂, k₁.allocateProcess none = (k₂, some 0) := ⟨_, Prod.ext rfl firstPick⟩
  obtain ⟨d, idleSpace⟩ := space_allocateProcess idleMade
  have idled := space_initIdle idleMade
  generalize k₁.initIdle = k₃ at secondPick lives idled ⊢
  obtain ⟨k₄, firstMade⟩ : ∃ k₄, k₃.allocateProcess none = (k₄, some 1) := ⟨_, Prod.ext rfl secondPick⟩
  obtain ⟨d', firstSpace⟩ := space_allocateProcess firstMade
  have ran := space_initTask1 firstMade
  rw [idled, idleSpace, start] at firstSpace
  have table : k₄.space.dir 1 = some d' := by
    rw [firstSpace]
    rfl
  have placed : d' = 8 := by
    have known := lives 1
    rw [ran] at known
    exact Option.some.inj (table.symm.trans known)
  have directory : k₄.getDIR 1 = some 8 := by
    rw [← placed]
    exact table
  have tables : k₄.getPT 1 = 8 := by
    rw [← placed]
    exact congrArg (Option.getD · 0) table
  have blankMm : k₄.mm = blank := congrArg Space.mm firstSpace
  rw [directory, tables, blankMm] at ran
  rw [ran, firstSpace] at lives ⊢
  have idleDir : some d = some (9 : DirId) := lives 0
  rw [Option.some.inj idleDir, placed]
  refine ⟨?_, rfl⟩
  constructor
  · exact (memory.setUserPages 8).setCr3
  · rfl
  · intro t housed
    show (Function.update (Function.update _ 0 _) 1 _ : TaskId → DWord) t = _
    rw [Function.update_apply, Function.update_apply]
    by_cases first : t = 1
    · rw [if_pos first]
    · by_cases idle : t = 0
      · rw [if_neg first, if_pos idle]
      · have gone : (Function.update (Function.update (fun _ => none) 0 (some (9 : DirId))) 1
            (some (8 : DirId)) : TaskId → Option DirId) t = none := by
          rw [Function.update_of_ne first, Function.update_of_ne idle]
        exact absurd gone housed
  · rfl
  · rfl
  · intro t notIdle notFirst
    show (Function.update (Function.update (fun _ => none) 0 (some (9 : DirId))) 1
      (some (8 : DirId)) : TaskId → Option DirId) t = none
    rw [Function.update_of_ne notFirst, Function.update_of_ne notIdle]
  · rfl
  · rfl
  · rfl

theorem boot_space (image : Image) : (Kernel.boot image).space.Initial := (boot_initial image).1

/-- The kernel pages after boot: each is mapped to itself, but for page 0 and the guards. -/
theorem boot_kernelPage (image : Image) (d : DirId) {p : Nat} (low : 1 ≤ p)
    (high : p < numPagKernel) : (Kernel.boot image).mm.getEntry d p =
      ⟨!(p == image.guardBefore || p == image.guardAfter), true, false, p⟩ := by
  rw [(boot_initial image).2, Mm.getEntry_setCr3, (Mm.setUserPages_kernel _ 8).1 d p high, mm_initMm]
  change (if 1 ≤ p ∧ p < numPagKernel then _ else noEntry) = _
  exact if_pos ⟨low, high⟩

/-- `main` has stored nothing to memory before it moves the user program. -/
theorem boot_ram (image : Image) : (Kernel.boot image).mm.ram = image.ram := by
  rw [(boot_initial image).2, Mm.ram_setCr3, (Mm.setUserPages_kernel _ 8).2, mm_initMm]
  rfl

namespace Space

variable {s : Space} {t : TaskId} {d : DirId}

theorem Initial.dir_eq (init : s.Initial) (home : s.dir t = some d) :
    t = 0 ∧ d = 9 ∨ t = 1 ∧ d = 8 := by
  by_cases idle : t = 0
  · rw [idle, init.idleDir] at home
    exact Or.inl ⟨idle, (Option.some.inj home).symm⟩
  · by_cases first : t = 1
    · rw [first, init.firstDir] at home
      exact Or.inr ⟨first, (Option.some.inj home).symm⟩
    · rw [init.others t idle first] at home
      cases home

theorem Initial.pages (init : s.Initial) (home : s.dir t ≠ none) : s.pages t = 0 := by
  rw [Space.pages, init.tops t home]
  rfl

theorem Initial.laid (init : s.Initial) : s.Laid where
  tidy := init.fresh.tidy
  guided := by
    right
    rw [init.cr3, init.current, init.firstDir]
  idle := by
    refine ⟨9, ?_, ?_, ?_⟩
    · rw [init.idle, init.idleDir]
    · intro t home
      rcases init.dir_eq home with idle | first
      · rw [init.idle, idle.1]
      · exact absurd first.2 (by decide)
    · rw [init.pages]
      rw [init.idle, init.idleDir]
      exact nofun
  top t home := by
    rw [init.pages home, init.tops t home]
    decide
  code t d i home busy below := by
    rcases init.dir_eq home with idle | first
    · exact absurd (idle.1.trans init.idle.symm) busy
    · rw [first.2]
      exact init.fresh.code i below
  own t d p home busy own := by
    rcases init.dir_eq home with idle | first
    · exact absurd (idle.1.trans init.idle.symm) busy
    · have none : s.pages t = 0 := init.pages (housed home)
      rw [OwnPage, none, mem_ownPages_zero] at own
      have entry := init.fresh.data (p - pagLogInitData) (by omega)
      rw [Nat.add_sub_cancel' own.1] at entry
      rw [first.2, entry]
  single t t' d home _ _ := Or.inl (init.pages (housed home))

end Space

/-- A stuck machine takes no step. -/
theorem stuck_step {k k' : Kernel} {label : Option Action} (stepped : k.step label = some k') :
    k.stuck ≠ true := by
  intro stuck
  unfold Kernel.step at stepped
  rw [if_pos stuck] at stepped
  cases stepped

/-- The layout of the address spaces holds in every run, until `pf_rsi` finds no frame. -/
theorem reachable_laid {admits : Kernel → Option Action → Prop} {k : Kernel}
    (reached : Reachable admits k) (running : k.stuck = false) : k.space.Laid := by
  have both : (∃ r, Refines k r ∧ Roster.Sound r) ∧ (k.stuck = true ∨ k.space.Laid) := by
    apply reached.invariant fun k =>
      (∃ r, Refines k r ∧ Roster.Sound r) ∧ (k.stuck = true ∨ k.space.Laid)
    · intro k booted
      obtain ⟨image, rfl⟩ := booted
      exact ⟨⟨Roster.boot, boot_refines image, Roster.boot_sound⟩, Or.inr (boot_space image).laid⟩
    · intro k label k' before _ stepped
      obtain ⟨⟨r, ref, sound⟩, laid⟩ := before
      obtain ⟨r', step, after, _⟩ := ref.step sound stepped
      refine ⟨⟨r', after, sound.step step⟩, ?_⟩
      have laid := laid.resolve_left (stuck_step stepped)
      rcases ref.step_space sound laid stepped with moved | last
      · exact Or.inr (laid.step moved)
      · exact Or.inl last.1
  apply both.2.resolve_left
  rw [running]
  exact nofun

end Zeos
