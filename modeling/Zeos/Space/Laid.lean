import Zeos.Space.Layout

set_option autoImplicit false

/-! What is mapped for the live tasks, in every run: each change of the tables keeps it. -/

namespace Zeos

namespace Space

variable {s s' : Space} {t t' : TaskId} {d home dir : DirId} {p page : Nat}

/-- A page of the data region or of the heap of a task. -/
def OwnPage (s : Space) (task : TaskId) (page : Nat) : Prop := page ∈ Mm.ownPages (s.pages task)

instance (task : TaskId) (page : Nat) : Decidable (s.OwnPage task page) :=
  inferInstanceAs (Decidable (_ ∈ _))

/-- The layout of the address spaces. Two tasks of one directory never both have heap
pages. The idle task has a directory for itself, with no user page. -/
structure Laid (s : Space) : Prop where
  tidy : s.mm.Tidy
  guided : s.dir s.current = none ∨ s.mm.cr3 = s.dir s.current
  idle : ∃ d, s.dir s.idle = some d ∧ (∀ t, s.dir t = some d → t = s.idle) ∧ s.pages s.idle = 0
  top : ∀ t, s.dir t ≠ none → (s.heapTop t).toNat ≤ heapStart ∧ s.pages t ≤ Mm.maxHeapPages
  code : ∀ t d i, s.dir t = some d → t ≠ s.idle → i < numPagCode →
    s.mm.getEntry d (pagLogInitCode + i) = codeEntry i
  own : ∀ t d p, s.dir t = some d → t ≠ s.idle → s.OwnPage t p →
    (s.mm.getEntry d p).present = true
  single : ∀ t t' d, s.dir t = some d → s.dir t' = some d → t ≠ t' → s.pages t = 0 ∨ s.pages t' = 0

theorem housed (home : s.dir t = some d) : s.dir t ≠ none := by
  rw [home]
  exact nofun

theorem Laid.low (laid : s.Laid) (home : s.dir t = some d) (own : s.OwnPage t p) :
    pagLogInitData ≤ p ∧ p ≤ pagLogInitHeap :=
  Mm.ownPages_low (laid.top t (housed home)).2 own

/-- Only the memory changes, and no entry that matters is lost. -/
theorem Laid.withMm (laid : s.Laid) (m : Mm) (tidy : m.Tidy)
    (cr3 : m.cr3 = s.mm.cr3 ∨ m.cr3 = s.dir s.current)
    (code : ∀ d i, i < numPagCode →
      m.getEntry d (pagLogInitCode + i) = s.mm.getEntry d (pagLogInitCode + i))
    (present : ∀ d p, pagLogInitData ≤ p → p ≤ pagLogInitHeap →
      (s.mm.getEntry d p).present = true → (m.getEntry d p).present = true) :
    Laid { s with mm := m } where
  tidy := tidy
  guided := by
    rcases laid.guided with gone | steered
    · exact Or.inl gone
    · rcases cr3 with same | loaded
      · exact Or.inr (same.trans steered)
      · exact Or.inr loaded
  idle := laid.idle
  top := laid.top
  code t d i home busy below := by
    change m.getEntry d (pagLogInitCode + i) = _
    rw [code d i below]
    exact laid.code t d i home busy below
  own t d p home busy own := by
    obtain ⟨low, high⟩ := laid.low home own
    exact present d p low high (laid.own t d p home busy own)
  single := laid.single

/-! ### Small changes -/

theorem Laid.minor (laid : s.Laid) (minor : Minor s s') : s'.Laid := by
  have quiet : ∀ m : Mm, m.Tidy → m.cr3 = s.mm.cr3 → m.getEntry = s.mm.getEntry →
      Laid { s with mm := m } := by
    intro m tidy cr3 entries
    apply laid.withMm m tidy (Or.inl cr3)
    · intro d i _
      rw [entries]
    · intro d p _ _
      rw [entries]
      exact id
  cases minor with
  | turn next =>
      by_cases same : s.dir s.current = s.dir next
      · have still : s.turn next = { s with current := next } := by
          rw [turn, if_neg (not_not_intro same)]
        rw [still]
        refine ⟨laid.tidy, ?_, laid.idle, laid.top, laid.code, laid.own, laid.single⟩
        show s.dir next = none ∨ s.mm.cr3 = s.dir next
        rw [← same]
        exact laid.guided
      · have loaded : s.turn next = { s with mm := s.mm.setCr3 (s.dir next), current := next } := by
          rw [turn, if_pos same]
        rw [loaded]
        exact ⟨laid.tidy.setCr3, Or.inr rfl, laid.idle, laid.top, laid.code, laid.own, laid.single⟩
  | store addr value _ =>
      have kept := quiet (s.mm.poke addr.toNat value) laid.tidy.poke rfl rfl
      exact ⟨kept.tidy, kept.guided, kept.idle, kept.top, kept.code, kept.own, kept.single⟩
  | attempt addr =>
      exact ⟨laid.tidy, laid.guided, laid.idle, laid.top, laid.code, laid.own, laid.single⟩
  | miss page => exact quiet (s.mm.fault page) laid.tidy.fault rfl rfl
  | write addr value _ => exact quiet (s.mm.poke addr.toNat value) laid.tidy.poke rfl rfl

theorem Laid.minors (laid : s.Laid) (minors : Minors s s') : s'.Laid := by
  induction minors with
  | refl => exact laid
  | tail _ minor ih => exact ih.minor minor

/-! ### The pages of a heap -/

theorem mem_ownPages_zero {p : Nat} : p ∈ Mm.ownPages 0 ↔
    pagLogInitData ≤ p ∧ p < pagLogInitData + numPagData := by
  rw [Mm.mem_ownPages]
  constructor
  · intro either
    rcases either with data | heap
    · exact data
    · obtain ⟨i, below, _⟩ := heap
      omega
  · exact Or.inl

/-- A task without heap pages owns its data pages, as every task does. -/
theorem ownPages_of_data {count : Nat} (data : p ∈ Mm.ownPages 0) : p ∈ Mm.ownPages count :=
  Mm.mem_ownPages.mpr (Or.inl (mem_ownPages_zero.mp data))

theorem pages_update {task : TaskId} {top : DWord} {heapTop : TaskId → DWord} :
    heapPages (Function.update heapTop task top t) =
      if t = task then heapPages top else heapPages (heapTop t) := by
  rw [Function.update_apply]
  split <;> rfl

/-! ### A new address space -/

/-- The table entries after a fork. -/
theorem fork_entry (laid : s.Laid) (apart : home ≠ dir) (owner : s.dir s.current = some home)
    (child : TaskId) (d : DirId) (p : Nat) :
    (s.fork home child dir).mm.getEntry d p =
      if s.OwnPage s.current p then
        if d = dir then ⟨true, false, true, s.mm.getFrame home p⟩
        else if d = home then { s.mm.getEntry home p with rw := false }
        else s.mm.getEntry d p
      else if d = dir ∧ pagLogInitCode ≤ p ∧ p < pagLogInitData then s.mm.getEntry home p
      else s.mm.getEntry d p := by
  classical
  have room := (laid.top s.current (housed owner)).2
  have copied := @Mm.copyCodePages_spec s.mm home dir apart
  have shared := Mm.shareAll apart (Mm.ownPages_nodup room) (Kernel.copyCodePages s.mm home dir)
  have shape : (s.fork home child dir).mm.getEntry =
      ((Mm.ownPages (s.pages s.current)).foldl (fun m p => m.shareCowPage home dir p)
        (Kernel.copyCodePages s.mm home dir)).getEntry := by
    rw [← Mm.sharePages_eq]
    rfl
  rw [shape, shared.entry]
  by_cases own : p ∈ Mm.ownPages (s.pages s.current)
  · have data := (Mm.ownPages_low room own).1
    have same : ∀ d', (Kernel.copyCodePages s.mm home dir).getEntry d' p = s.mm.getEntry d' p := by
      intro d'
      rw [copied.entry, if_neg fun both => Nat.not_lt.mpr data both.2.2]
    rw [if_pos own, if_pos (show s.OwnPage s.current p from own), same, same]
    rw [Mm.getFrame, same]
    rfl
  · rw [if_neg own, if_neg (show ¬ s.OwnPage s.current p from own), copied.entry]

theorem Laid.fork (laid : s.Laid) {child : TaskId} (busy : s.current ≠ s.idle)
    (owner : s.dir s.current = some home) (free : s.dir child = none)
    (spare : ∀ t, s.dir t ≠ some dir) : (s.fork home child dir).Laid := by
  have apart : home ≠ dir := by
    rintro rfl
    exact spare _ owner
  have entry := fork_entry laid apart owner child
  obtain ⟨top, room⟩ := laid.top s.current (housed owner)
  have notCurrent : s.current ≠ child := by
    intro same
    rw [same, free] at owner
    cases owner
  have notIdle : child ≠ s.idle := by
    intro same
    obtain ⟨d, place, _⟩ := laid.idle
    rw [← same, free] at place
    cases place
  have pages : ∀ t, (s.fork home child dir).pages t =
      if t = child then s.pages s.current else s.pages t := fun t => pages_update
  have place : ∀ t d, (s.fork home child dir).dir t = some d →
      (t = child ∧ d = dir) ∨ (t ≠ child ∧ s.dir t = some d) := by
    intro t d same
    change Function.update s.dir child (some dir) t = some d at same
    rw [Function.update_apply] at same
    split at same
    · rename_i new
      exact Or.inl ⟨new, (Option.some.inj same).symm⟩
    · rename_i old
      exact Or.inr ⟨old, same⟩
  have low : ∀ {p}, s.OwnPage s.current p → pagLogInitData ≤ p := fun own => (laid.low owner own).1
  constructor
  · apply Mm.Tidy.setCr3
    rw [runningPages, Mm.sharePages_eq]
    have tidy : (Kernel.copyCodePages s.mm home dir).Tidy := laid.tidy.copyCodePages
    apply tidy.shareAll apart
    · exact fun p own => low own
    · intro p own
      rw [(Mm.copyCodePages_spec apart).entry, if_neg fun both => apart both.1]
      exact laid.own s.current home p owner busy own
  · right
    change some home = Function.update s.dir child (some dir) s.current
    rw [Function.update_of_ne notCurrent, owner]
  · obtain ⟨d, idleDir, alone, none⟩ := laid.idle
    refine ⟨d, ?_, ?_, ?_⟩
    · change Function.update s.dir child (some dir) s.idle = some d
      rw [Function.update_of_ne notIdle.symm]
      exact idleDir
    · intro t same
      rcases place t d same with ⟨_, here⟩ | ⟨_, old⟩
      · exact absurd (here ▸ idleDir) (spare _)
      · exact alone t old
    · change (s.fork home child dir).pages s.idle = 0
      rw [pages, if_neg notIdle.symm]
      exact none
  · intro t live
    change (Function.update s.heapTop child (s.heapTop s.current) t).toNat ≤ heapStart ∧
      (s.fork home child dir).pages t ≤ Mm.maxHeapPages
    rw [pages, Function.update_apply]
    obtain ⟨d, same⟩ := Option.ne_none_iff_exists'.mp live
    rcases place t d same with ⟨new, _⟩ | ⟨old, before⟩
    · rw [if_pos new, if_pos new]
      exact ⟨top, room⟩
    · rw [if_neg old, if_neg old]
      exact laid.top t (housed before)
  · intro t d i same notIdle' below
    obtain ⟨code, data, _, _⟩ := Mm.regions
    have out : ¬ s.OwnPage s.current (pagLogInitCode + i) := by
      intro own
      have := low own
      simp only [numPagCode] at below
      omega
    rw [entry, if_neg out]
    rcases place t d same with ⟨_, rfl⟩ | ⟨_, before⟩
    · simp only [numPagCode] at below
      rw [if_pos ⟨rfl, by omega, by omega⟩]
      exact laid.code s.current home i owner busy below
    · have notNew : d ≠ dir := by
        rintro rfl
        exact spare t before
      rw [if_neg fun both => notNew both.1]
      exact laid.code t d i before notIdle' below
  · intro t d p same notIdle' own
    have ownPage : p ∈ Mm.ownPages ((s.fork home child dir).pages t) := own
    rw [pages] at ownPage
    rw [entry]
    rcases place t d same with ⟨new, rfl⟩ | ⟨old, before⟩
    · rw [if_pos new] at ownPage
      rw [if_pos (show s.OwnPage s.current p from ownPage), if_pos rfl]
    · rw [if_neg old] at ownPage
      have present := laid.own t d p before notIdle' ownPage
      have notNew : d ≠ dir := by
        rintro rfl
        exact spare t before
      by_cases shared : s.OwnPage s.current p
      · rw [if_pos shared, if_neg notNew]
        by_cases mine : d = home
        · rw [if_pos mine]
          rw [mine] at present
          exact present
        · rw [if_neg mine]
          exact present
      · rw [if_neg shared, if_neg fun both => notNew both.1]
        exact present
  · intro t t' d same same' different
    rw [pages, pages]
    rcases place t d same with ⟨new, here⟩ | ⟨old, before⟩
    · rcases place t' d same' with ⟨new', _⟩ | ⟨_, before'⟩
      · exact absurd (new.trans new'.symm) different
      · exact absurd (here ▸ before') (spare t')
    · rcases place t' d same' with ⟨_, here⟩ | ⟨old', before'⟩
      · exact absurd (here ▸ before) (spare t)
      · rw [if_neg old, if_neg old']
        exact laid.single t t' d before before' different

theorem Laid.join (laid : s.Laid) {child : TaskId} (busy : s.current ≠ s.idle)
    (owner : s.dir s.current = some home) (free : s.dir child = none) : (s.join child home).Laid := by
  have notCurrent : s.current ≠ child := by
    intro same
    rw [same, free] at owner
    cases owner
  have notIdle : child ≠ s.idle := by
    intro same
    obtain ⟨d, place, _⟩ := laid.idle
    rw [← same, free] at place
    cases place
  have none : heapPages (BitVec.ofNat 32 heapStart) = 0 := by decide
  have pages : ∀ t, (s.join child home).pages t = if t = child then 0 else s.pages t := by
    intro t
    rw [← none]
    exact pages_update
  have place : ∀ t d, (s.join child home).dir t = some d →
      (t = child ∧ d = home) ∨ (t ≠ child ∧ s.dir t = some d) := by
    intro t d same
    change Function.update s.dir child (some home) t = some d at same
    rw [Function.update_apply] at same
    split at same
    · rename_i new
      exact Or.inl ⟨new, (Option.some.inj same).symm⟩
    · rename_i old
      exact Or.inr ⟨old, same⟩
  constructor
  · exact laid.tidy
  · change Function.update s.dir child (some home) s.current = Option.none ∨
      s.mm.cr3 = Function.update s.dir child (some home) s.current
    rw [Function.update_of_ne notCurrent]
    exact laid.guided
  · obtain ⟨d, idleDir, alone, empty⟩ := laid.idle
    refine ⟨d, ?_, ?_, ?_⟩
    · change Function.update s.dir child (some home) s.idle = some d
      rw [Function.update_of_ne notIdle.symm]
      exact idleDir
    · intro t same
      rcases place t d same with ⟨_, here⟩ | ⟨_, old⟩
      · exact absurd (alone s.current (here ▸ owner)) busy
      · exact alone t old
    · change (s.join child home).pages s.idle = 0
      rw [pages, if_neg notIdle.symm]
      exact empty
  · intro t live
    change (Function.update s.heapTop child (BitVec.ofNat 32 heapStart) t).toNat ≤ heapStart ∧
      (s.join child home).pages t ≤ Mm.maxHeapPages
    rw [pages, Function.update_apply]
    obtain ⟨d, same⟩ := Option.ne_none_iff_exists'.mp live
    rcases place t d same with ⟨new, _⟩ | ⟨old, before⟩
    · rw [if_pos new, if_pos new]
      exact ⟨by decide, by decide⟩
    · rw [if_neg old, if_neg old]
      exact laid.top t (housed before)
  · intro t d i same notIdle' below
    rcases place t d same with ⟨_, rfl⟩ | ⟨_, before⟩
    · exact laid.code s.current d i owner busy below
    · exact laid.code t d i before notIdle' below
  · intro t d p same notIdle' own
    have ownPage : p ∈ Mm.ownPages ((s.join child home).pages t) := own
    rw [pages] at ownPage
    rcases place t d same with ⟨new, rfl⟩ | ⟨old, before⟩
    · rw [if_pos new] at ownPage
      exact laid.own s.current d p owner busy (ownPages_of_data ownPage)
    · rw [if_neg old] at ownPage
      exact laid.own t d p before notIdle' ownPage
  · intro t t' d same same' different
    rw [pages, pages]
    rcases place t d same with ⟨new, _⟩ | ⟨old, before⟩
    · exact Or.inl (if_pos new)
    · rcases place t' d same' with ⟨new', _⟩ | ⟨old', before'⟩
      · exact Or.inr (if_pos new')
      · rw [if_neg old, if_neg old']
        exact laid.single t t' d before before' different

/-! ### The end of a task -/

/-- A task that runs no more takes part in nothing. -/
theorem Laid.retire (laid : s.Laid) (busy : s.current ≠ s.idle) (m : Mm) (tidy : m.Tidy)
    (others : ∀ t d p, t ≠ s.current → s.dir t = some d → m.getEntry d p = s.mm.getEntry d p) :
    Laid { s with mm := m, dir := Function.update s.dir s.current none } := by
  have place : ∀ t d, Function.update s.dir s.current none t = some d →
      t ≠ s.current ∧ s.dir t = some d := by
    intro t d same
    rw [Function.update_apply] at same
    split at same
    · cases same
    · rename_i other
      exact ⟨other, same⟩
  constructor
  · exact tidy
  · exact Or.inl (Function.update_self ..)
  · obtain ⟨d, idleDir, alone, empty⟩ := laid.idle
    refine ⟨d, ?_, ?_, empty⟩
    · change Function.update s.dir s.current none s.idle = some d
      rw [Function.update_of_ne busy.symm]
      exact idleDir
    · intro t same
      exact alone t (place t d same).2
  · intro t live
    obtain ⟨d, same⟩ := Option.ne_none_iff_exists'.mp live
    exact laid.top t (housed (place t d same).2)
  · intro t d i same notIdle below
    obtain ⟨other, before⟩ := place t d same
    change m.getEntry d (pagLogInitCode + i) = _
    rw [others t d _ other before]
    exact laid.code t d i before notIdle below
  · intro t d p same notIdle own
    obtain ⟨other, before⟩ := place t d same
    change (m.getEntry d p).present = true
    rw [others t d _ other before]
    exact laid.own t d p before notIdle own
  · intro t t' d same same' different
    exact laid.single t t' d (place t d same).2 (place t' d same').2 different

theorem Laid.leave (laid : s.Laid) (busy : s.current ≠ s.idle) : s.leave.Laid :=
  laid.retire busy s.mm laid.tidy fun _ _ _ _ _ => rfl

/-- The pages that the exit loop releases are the pages of the task, and it clears each of
them or one above the heap. -/
theorem exitPages_own {count : Nat} {pair : Nat × Nat} (inside : pair ∈ Mm.exitPages count) :
    pair.1 ∈ Mm.ownPages count ∧ (pair.2 = pair.1 ∨ pagLogInitHeap < pair.2) := by
  rw [Mm.exitPages, List.mem_append, List.mem_map, List.mem_map] at inside
  rcases inside with data | heap
  · obtain ⟨i, below, rfl⟩ := data
    rw [List.mem_range] at below
    have member : pagLogInitData + i ∈ Mm.ownPages 0 := mem_ownPages_zero.mpr ⟨by omega, by omega⟩
    exact ⟨ownPages_of_data member, Or.inl rfl⟩
  · obtain ⟨i, below, rfl⟩ := heap
    rw [List.mem_range] at below
    refine ⟨Mm.mem_ownPages.mpr (Or.inr ⟨i, below, rfl⟩), ?_⟩
    simp only
    omega

theorem release_tidy (laid : s.Laid) (busy : s.current ≠ s.idle)
    (owner : s.dir s.current = some home) : (s.release home).mm.Tidy := by
  have room := (laid.top s.current (housed owner)).2
  obtain ⟨_, data, heap, _⟩ := Mm.regions
  change (s.mm.freeUserPages home (s.heapTop s.current)).Tidy
  rw [Mm.freeUserPages_eq]
  apply laid.tidy.dropAll (Mm.exitPages_orderly room)
  · intro pair inside
    obtain ⟨first, second⟩ := exitPages_own inside
    have low := (Mm.ownPages_low room first).1
    refine ⟨low, ?_⟩
    rcases second with same | high
    · rw [same]
      exact low
    · omega
  · intro pair inside
    exact laid.own s.current home pair.1 owner busy (exitPages_own inside).1

theorem Laid.release (laid : s.Laid) (busy : s.current ≠ s.idle)
    (owner : s.dir s.current = some home) (last : ∀ t, s.dir t = some home → t = s.current) :
    (s.release home).Laid := by
  apply laid.retire busy _ (release_tidy laid busy owner)
  intro t d p other place
  have apart : d ≠ home := by
    rintro rfl
    exact other (last t place)
  change (s.mm.freeUserPages home (s.heapTop s.current)).getEntry d p = _
  rw [Mm.freeUserPages_eq, (Mm.dropAll_spec _).entry, if_neg fun both => apart both.1]

/-! ### A heap of another size -/

theorem Laid.withHeap (laid : s.Laid) (busy : s.current ≠ s.idle)
    (owner : s.dir s.current = some home) (m : Mm) (top : DWord) (tidy : m.Tidy)
    (cr3 : m.cr3 = s.mm.cr3 ∨ m.cr3 = s.dir s.current) (inside : top.toNat ≤ heapStart)
    (room : heapPages top ≤ Mm.maxHeapPages)
    (code : ∀ d i, i < numPagCode →
      m.getEntry d (pagLogInitCode + i) = s.mm.getEntry d (pagLogInitCode + i))
    (own : ∀ p ∈ Mm.ownPages (heapPages top), (m.getEntry home p).present = true)
    (others : ∀ t d p, t ≠ s.current → s.dir t = some d → s.OwnPage t p →
      (s.mm.getEntry d p).present = true → (m.getEntry d p).present = true)
    (single : ∀ t, t ≠ s.current → s.dir t = some home → heapPages top = 0 ∨ s.pages t = 0) :
    (s.withHeap m top).Laid := by
  have pages : ∀ t, (s.withHeap m top).pages t =
      if t = s.current then heapPages top else s.pages t := fun t => pages_update
  constructor
  · exact tidy
  · rcases laid.guided with gone | steered
    · exact Or.inl gone
    · rcases cr3 with same | loaded
      · exact Or.inr (same.trans steered)
      · exact Or.inr loaded
  · obtain ⟨d, idleDir, alone, empty⟩ := laid.idle
    refine ⟨d, idleDir, alone, ?_⟩
    change (s.withHeap m top).pages s.idle = 0
    rw [pages, if_neg busy.symm]
    exact empty
  · intro t live
    change (Function.update s.heapTop s.current top t).toNat ≤ heapStart ∧
      (s.withHeap m top).pages t ≤ Mm.maxHeapPages
    rw [pages, Function.update_apply]
    by_cases mine : t = s.current
    · rw [if_pos mine, if_pos mine]
      exact ⟨inside, room⟩
    · rw [if_neg mine, if_neg mine]
      exact laid.top t live
  · intro t d i same notIdle below
    change m.getEntry d (pagLogInitCode + i) = _
    rw [code d i below]
    exact laid.code t d i same notIdle below
  · intro t d p same notIdle ownPage
    have page : p ∈ Mm.ownPages ((s.withHeap m top).pages t) := ownPage
    rw [pages] at page
    by_cases mine : t = s.current
    · rw [if_pos mine] at page
      have place : s.dir s.current = some d := mine ▸ same
      rw [owner] at place
      cases place
      exact own p page
    · rw [if_neg mine] at page
      exact others t d p mine same page (laid.own t d p same notIdle page)
  · intro t t' d same same' different
    rw [pages, pages]
    have place : ∀ {t}, t = s.current → s.dir t = some d → d = home := by
      intro t mine here
      rw [mine, owner] at here
      exact (Option.some.inj here).symm
    by_cases mine : t = s.current
    · have other : t' ≠ s.current := fun mine' => different (mine.trans mine'.symm)
      rw [if_pos mine, if_neg other]
      exact single t' other (place mine same ▸ same')
    · by_cases mine' : t' = s.current
      · rw [if_neg mine, if_pos mine']
        exact (single t mine (place mine' same' ▸ same)).symm
      · rw [if_neg mine, if_neg mine']
        exact laid.single t t' d same same' different

/-- The first heap page is among the pages of every task that has one. -/
theorem first_heap_page (some : s.pages t ≠ 0) : s.OwnPage t pagLogInitHeap :=
  Mm.mem_ownPages.mpr (Or.inr ⟨0, by omega, rfl⟩)

/-- Growth stops above the data pages, which are there. -/
theorem grow_room (laid : s.Laid) (busy : s.current ≠ s.idle) (owner : s.dir s.current = some home)
    {top : DWord} (vacant : ∀ i, s.runningPages ≤ i → i < heapPages top →
      (s.mm.getEntry home (pagLogInitHeap - i)).present = false) :
    heapPages top ≤ Mm.maxHeapPages := by
  obtain ⟨_, data, heap, most⟩ := Mm.regions
  have room := (laid.top s.current (housed owner)).2
  by_contra beyond
  have last : pagLogInitHeap - Mm.maxHeapPages ∈ Mm.ownPages 0 := by
    apply mem_ownPages_zero.mpr
    simp only [numPagData]
    omega
  have present := laid.own s.current home _ owner busy (ownPages_of_data last)
  rw [vacant Mm.maxHeapPages room (by omega)] at present
  cases present

theorem Laid.grow (laid : s.Laid) (busy : s.current ≠ s.idle) (owner : s.dir s.current = some home)
    {top : DWord} {m : Mm} {frames : List Nat} (inside : top.toNat ≤ heapStart)
    (grows : s.runningPages < heapPages top)
    (vacant : ∀ i, s.runningPages ≤ i → i < heapPages top →
      (s.mm.getEntry home (pagLogInitHeap - i)).present = false)
    (done : Kernel.reserveFrames (heapPages top - s.runningPages) s.mm [] = (m, some frames)) :
    (s.grow home top m frames).Laid := by
  obtain ⟨code, data, heap, most⟩ := Mm.regions
  have room := grow_room laid busy owner vacant
  have tidy : (Loop.upTo (heapPages top - s.runningPages) (fun i m =>
      m.setSsPag home (pagLogInitHeap - s.runningPages - i) (frames.getD i 0)) m).Tidy :=
    laid.tidy.grown done (by omega)
  have mapped := Mm.mapPages home (pagLogInitHeap - s.runningPages)
    (heapPages top - s.runningPages) (frames.getD · 0) (by omega) m
  have cr3 : (Loop.upTo (heapPages top - s.runningPages) (fun i m =>
      m.setSsPag home (pagLogInitHeap - s.runningPages - i) (frames.getD i 0)) m).cr3 =
      s.mm.cr3 := by
    have kept := (Mm.reserveFrames_frame (heapPages top - s.runningPages) s.mm []).2.2
    rw [done] at kept
    have loop := Loop.upTo_frame (heapPages top - s.runningPages) (fun i m =>
      m.setSsPag home (pagLogInitHeap - s.runningPages - i) (frames.getD i 0)) m Mm.cr3
      fun _ _ _ => rfl
    exact loop.trans kept
  obtain ⟨_, _, reserved⟩ := Mm.reserved_of_some done
  unfold Space.grow
  generalize Loop.upTo (heapPages top - s.runningPages) _ m = m' at tidy mapped cr3 ⊢
  have kept : ∀ d p, (s.mm.getEntry d p).present = true → (m'.getEntry d p).present = true := by
    intro d p present
    rw [mapped.entry, reserved.entries]
    split
    · rfl
    · exact present
  apply laid.withHeap busy owner m' top tidy (Or.inl cr3) inside room
  · intro d i below
    simp only [numPagCode] at below
    rw [mapped.entry, if_neg (by omega), reserved.entries]
  · intro p own
    by_cases new : p ≤ pagLogInitHeap - s.runningPages ∧ pagLogInitHeap < p + heapPages top
    · rw [mapped.entry, if_pos ⟨rfl, new.1, by omega⟩]
    · apply kept
      apply laid.own s.current home p owner busy
      rcases Mm.mem_ownPages.mp own with inData | inHeap
      · exact Mm.mem_ownPages.mpr (Or.inl inData)
      · obtain ⟨i, below, same⟩ := inHeap
        have old : i < s.pages s.current := by
          change i < s.runningPages
          by_contra beyond
          exact new ⟨by omega, by omega⟩
        exact Mm.mem_ownPages.mpr (Or.inr ⟨i, old, same⟩)
  · intro t d p _ _ _ present
    exact kept d p present
  · intro t other here
    right
    by_contra some
    have empty := (laid.single s.current t home owner here (Ne.symm other)).resolve_right some
    have notIdle : t ≠ s.idle := by
      rintro rfl
      obtain ⟨_, _, _, none⟩ := laid.idle
      exact some none
    have present := laid.own t home pagLogInitHeap here notIdle (first_heap_page some)
    have free := vacant 0 (Nat.le_of_eq empty) (by omega)
    rw [Nat.sub_zero, present] at free
    cases free

theorem Laid.shrink (laid : s.Laid) (busy : s.current ≠ s.idle)
    (owner : s.dir s.current = some home) {top : DWord} (inside : top.toNat ≤ heapStart)
    (shrinks : heapPages top ≤ s.runningPages) : (s.shrink home top).Laid := by
  obtain ⟨code, data, heap, most⟩ := Mm.regions
  have room : s.runningPages ≤ Mm.maxHeapPages := (laid.top s.current (housed owner)).2
  have orderly : Mm.Orderly (Mm.lowerPages (pagLogInitHeap - heapPages top)
    (s.runningPages - heapPages top)) := Mm.lowerPages_orderly (by omega)
  have pages : ∀ pair ∈ Mm.lowerPages (pagLogInitHeap - heapPages top)
      (s.runningPages - heapPages top), pair.2 = pair.1 ∧
        ∃ i, heapPages top ≤ i ∧ i < s.runningPages ∧ pair.1 = pagLogInitHeap - i := by
    intro pair member
    obtain ⟨i, below, rfl⟩ := List.mem_map.mp member
    rw [List.mem_range] at below
    exact ⟨rfl, heapPages top + i, by omega, by omega, by simp only; omega⟩
  have dropped := @Mm.dropAll_spec s.mm home (Mm.lowerPages (pagLogInitHeap - heapPages top)
    (s.runningPages - heapPages top))
  have tidy : (Mm.dropAll home (Mm.lowerPages (pagLogInitHeap - heapPages top)
      (s.runningPages - heapPages top)) s.mm).Tidy := by
    apply laid.tidy.dropAll orderly
    · intro pair member
      obtain ⟨same, i, _, below, place⟩ := pages pair member
      omega
    · intro pair member
      obtain ⟨_, i, _, below, place⟩ := pages pair member
      exact laid.own s.current home pair.1 owner busy (Mm.mem_ownPages.mpr (Or.inr ⟨i, below, place⟩))
  unfold Space.shrink
  rw [Mm.unmap_eq]
  generalize Mm.dropAll home _ s.mm = m at dropped tidy ⊢
  -- what is gone is a heap page below the new top
  have kept : ∀ d p, (d = home → ∀ i, heapPages top ≤ i → i < s.runningPages →
      p ≠ pagLogInitHeap - i) → (m.setCr3 (some home)).getEntry d p = s.mm.getEntry d p := by
    intro d p out
    rw [Mm.getEntry_setCr3, dropped.entry, if_neg]
    intro both
    obtain ⟨pair, member, same⟩ := List.mem_map.mp both.2
    obtain ⟨equal, i, low, high, place⟩ := pages pair member
    exact out both.1 i low high (by rw [← same, equal, place])
  apply laid.withHeap busy owner _ top tidy.setCr3 (Or.inr owner.symm) inside (by omega)
  · intro d i below
    apply kept
    intro _ j _ high same
    simp only [numPagCode] at below
    omega
  · intro p own
    rw [kept]
    · apply laid.own s.current home p owner busy
      rcases Mm.mem_ownPages.mp own with inData | inHeap
      · exact Mm.mem_ownPages.mpr (Or.inl inData)
      · obtain ⟨i, below, same⟩ := inHeap
        exact Mm.mem_ownPages.mpr (Or.inr ⟨i, Nat.lt_of_lt_of_le below shrinks, same⟩)
    · intro _ j low high same
      rcases Mm.mem_ownPages.mp own with inData | inHeap
      · simp only [numPagData] at inData
        omega
      · obtain ⟨i, below, place⟩ := inHeap
        omega
  · intro t d p other here own present
    rw [kept]
    · exact present
    · intro same j low high place
      subst same
      have small := (laid.top t (housed here)).2
      rcases laid.single s.current t d owner here (Ne.symm other) with none | none
      · change s.runningPages = 0 at none
        omega
      · change p ∈ Mm.ownPages (s.pages t) at own
        rw [none, mem_ownPages_zero] at own
        simp only [numPagData] at own
        omega
  · intro t other here
    rcases laid.single s.current t home owner here (Ne.symm other) with none | none
    · left
      change s.runningPages = 0 at none
      omega
    · exact Or.inr none

/-! ### Faults -/

/-- The tables of the running task are in use. -/
theorem Laid.steered (laid : s.Laid) (owner : s.dir s.current = some home) :
    s.mm.cr3 = some home := by
  rcases laid.guided with gone | steered
  · rw [owner] at gone
    cases gone
  · rw [steered, owner]

/-- `access_ok` keeps faults above the kernel and below the page of `copy_frame`. -/
theorem Laid.reach_bounds (laid : s.Laid) (owner : s.dir s.current = some home)
    (reach : s.Reach page) : pagLogInitCode ≤ page ∧ page ≤ pagLogInitHeap := by
  obtain ⟨code, data, heap, most⟩ := Mm.regions
  have room : s.runningPages ≤ Mm.maxHeapPages := (laid.top s.current (housed owner)).2
  rcases reach with inData | inHeap
  · simp only [numPagData] at inData
    omega
  · omega

/-- What `pf_rsi` repairs is an entry of a data or heap page. -/
theorem Laid.repaired (laid : s.Laid) (owner : s.dir s.current = some home)
    (reach : s.Reach page) (counted : s.mm.cowCountMem (s.frame home page) ≠ 0) :
    pagLogInitData ≤ page ∧ Plain (s.mm.getEntry home page) :=
  laid.tidy.counted (laid.reach_bounds owner reach).1 counted

/-- A page of the running task gets an entry for a user frame. -/
theorem Laid.setPage (laid : s.Laid) (m : Mm) (low : pagLogInitData ≤ page) {frame : Nat}
    (tidy : m.Tidy) (user : UserFrame frame) (cr3 : m.cr3 = s.mm.cr3 ∨ m.cr3 = s.dir s.current)
    (entries : ∀ d p, p ≤ pagLogInitHeap → m.getEntry d p = s.mm.getEntry d p) :
    Laid { s with mm := m.setSsPag home page frame } := by
  obtain ⟨code, data, heap, most⟩ := Mm.regions
  have plain : Plain ⟨true, true, true, frame⟩ := ⟨rfl, rfl, user⟩
  apply laid.withMm (m.setSsPag home page frame) (Mm.Tidy.setEntry tidy low (Or.inr plain)) cr3
  · intro d i below
    simp only [numPagCode] at below
    rw [Mm.setSsPag, Mm.getEntry_setEntry, if_neg (by omega), entries d _ (by omega)]
  · intro d p _ high present
    rw [Mm.setSsPag, Mm.getEntry_setEntry, entries d p high]
    split
    · rfl
    · exact present

theorem Laid.own' (laid : s.Laid) (owner : s.dir s.current = some home) (reach : s.Reach page)
    (single : s.mm.cowCountMem (s.frame home page) = 1) : (s.own home page).Laid := by
  obtain ⟨low, plain⟩ := laid.repaired owner reach (by rw [single]; decide)
  have user : UserFrame (s.frame home page) := plain.2.2
  exact laid.setPage _ low (laid.tidy.fault.setCow user.2) user (Or.inl rfl) fun _ _ _ => rfl

/-- The frame that `pf_rsi` gets is free. -/
theorem allocFrame_free {m m' : Mm} {frame : Nat} (got : m.allocFrame = (m', some frame)) :
    frame ∈ m.freeFrames ∧ m' = m.take frame := by
  rw [Mm.allocFrame_eq] at got
  cases free : m.freeFrames with
  | nil =>
      rw [free] at got
      cases got
  | cons first rest =>
      rw [free] at got
      cases got
      exact ⟨List.mem_cons_self, rfl⟩

/-- The copy that `pf_rsi` makes of a shared page. -/
theorem split_copied (laid : s.Laid) (owner : s.dir s.current = some home) (reach : s.Reach page)
    (frame : Nat) : Mm.CopiedFrame ((s.released home page).take frame)
      (((s.released home page).take frame).copyFrame home page frame) home page frame := by
  obtain ⟨code, data, heap, most⟩ := Mm.regions
  obtain ⟨_, high⟩ := laid.reach_bounds owner reach
  have steered : ((s.released home page).take frame).cr3 = some home := laid.steered owner
  have inside : page < totalPages := by
    simp only [totalPages]
    omega
  exact Mm.copyFrame_spec steered inside (by omega)

theorem Laid.split' (laid : s.Laid) (owner : s.dir s.current = some home) (reach : s.Reach page)
    {frame : Nat} (many : 2 ≤ s.mm.cowCountMem (s.frame home page))
    (got : (s.released home page).allocFrame = ((s.released home page).take frame, some frame)) :
    (s.split home page frame).Laid := by
  obtain ⟨code, data, heap, most⟩ := Mm.regions
  obtain ⟨low, plain⟩ := laid.repaired owner reach (by
    intro none
    rw [none] at many
    cases many)
  have released : (s.released home page).Tidy := laid.tidy.fault.setCow plain.2.2.2
  have free := (allocFrame_free got).1
  have copied := split_copied laid owner reach frame
  apply laid.setPage _ low ((released.take free).copied copied) (released.userFrame free)
  · right
    rw [copied.cr3, owner]
  · intro d p high
    rw [copied.entry, if_neg (by omega)]
    rfl

/-! ### Steps -/

theorem Laid.major {label : Option Action} (laid : s.Laid) (major : Major label s s') :
    s'.Laid := by
  cases major with
  | fork home child dir busy owner free spare => exact laid.fork busy owner free spare
  | join function stack exitFunc child home busy owner free => exact laid.join busy owner free
  | leave home other busy _ _ _ => exact laid.leave busy
  | release home busy owner last => exact laid.release busy owner last
  | refused increment count m refused =>
      have frame := (Mm.reserveFrames_frame count s.mm []).2.2
      rw [refused] at frame
      have entries := (Mm.refused_spec refused).1
      apply laid.withMm m (laid.tidy.refused refused) (Or.inl frame)
      · intro d i _
        rw [entries]
      · intro d p _ _
        rw [entries]
        exact id
  | grow increment home top m frames busy owner inside grows vacant done =>
      exact laid.grow busy owner inside grows vacant done
  | shrink increment home top busy owner inside shrinks =>
      exact laid.shrink busy owner inside shrinks
  | own addr value home _ owner reach _ single => exact laid.own' owner reach single
  | split addr value home frame _ owner reach _ many got => exact laid.split' owner reach many got

theorem Laid.step {label : Option Action} (laid : s.Laid) (step : Step label s s') : s'.Laid := by
  cases step with
  | minor minors => exact laid.minors minors
  | major major minors => exact (laid.major major).minors minors

end Space

end Zeos
