import Zeos.Space.Exact

set_option autoImplicit false

/-! While no process exits with more than one heap page, a data or heap entry is present
only for a page of a live task: a page directory that is given up is clean. -/

namespace Zeos

namespace Space

variable {s s' : Space} {home dir : DirId} {child : TaskId} {page frame : Nat}
  {label : Option Action}

/-- Only pages that a task may use are mapped, in all page tables. -/
def Clean (s : Space) : Prop :=
  ∀ d p, pagLogInitData ≤ p → (s.mm.getEntry d p).present = true → s.Owned d p

/-- No process exits with more than one heap page. -/
def SmallExit (s : Space) (label : Option Action) : Prop :=
  label = some (.call .exit) → s.runningPages ≤ 1

/-- A fault that `pf_rsi` repairs is at a page of the running task. -/
theorem Clean.ownFault (clean : s.Clean) (laid : s.Laid) (separate : s.Separate) :
    s.OwnFault label := by
  intro addr value _ _ reach home owner counted
  obtain ⟨low, plain⟩ := laid.repaired owner reach counted
  exact (separate.owned_iff owner).mp (clean home _ low plain.1)

theorem Clean.congr (clean : s.Clean) (entries : s'.mm.getEntry = s.mm.getEntry)
    (owned : s'.Owned = s.Owned) : s'.Clean := by
  rw [Clean, entries, owned]
  exact clean

theorem Clean.minor (clean : s.Clean) (minor : Minor s s') : s'.Clean := by
  have dir : s'.dir = s.dir := by
    cases minor <;> rfl
  have heapTop : s'.heapTop = s.heapTop := by
    cases minor <;> rfl
  apply clean.congr _ (owned_congr dir heapTop)
  cases minor with
  | turn next =>
      unfold turn
      dsimp only
      split <;> rfl
  | store _ _ _ => rfl
  | attempt _ => rfl
  | miss _ => rfl
  | write _ _ _ => rfl

theorem Clean.fork (clean : s.Clean) (laid : s.Laid) (owner : s.dir s.current = some home)
    (free : s.dir child = none) (spare : ∀ t, s.dir t ≠ some dir) :
    (s.fork home child dir).Clean := by
  have apart : home ≠ dir := by
    rintro rfl
    exact spare s.current owner
  intro d p low present
  rw [fork_entry laid apart owner] at present
  rw [owned_fork free]
  by_cases own : s.OwnPage s.current p
  · rw [if_pos own] at present
    by_cases new : d = dir
    · exact Or.inr ⟨new, own⟩
    · rw [if_neg new] at present
      left
      by_cases mine : d = home
      · exact ⟨s.current, mine ▸ owner, own⟩
      · rw [if_neg mine] at present
        exact clean d p low present
  · have notCode : ¬ (d = dir ∧ pagLogInitCode ≤ p ∧ p < pagLogInitCode + numPagCode) := by
      intro all
      simp only [pagLogInitData] at low
      omega
    rw [if_neg own, if_neg notCode] at present
    exact Or.inl (clean d p low present)

/-- With at most one heap page, `free_user_pages` clears the entries of all its pages. -/
theorem exitPages_clear {count : Nat} (few : count ≤ 1) (own : page ∈ Mm.ownPages count) :
    page ∈ (Mm.exitPages count).map Prod.snd := by
  rw [Mm.exitPages, List.map_append, List.map_map, List.map_map, List.mem_append]
  rcases Mm.mem_ownPages.mp own with data | heap
  · left
    rw [List.mem_map]
    refine ⟨page - pagLogInitData, List.mem_range.mpr (by omega), ?_⟩
    exact Nat.add_sub_cancel' data.1
  · right
    obtain ⟨i, below, place⟩ := heap
    rw [List.mem_map]
    refine ⟨i, List.mem_range.mpr below, ?_⟩
    have first : i = 0 := by omega
    rw [place, first]
    rfl

theorem Clean.release (clean : s.Clean) (separate : s.Separate)
    (owner : s.dir s.current = some home) (few : s.runningPages ≤ 1) :
    (s.release home).Clean := by
  intro d p low present
  rw [release_entry] at present
  rw [owned_release separate owner]
  split at present
  · cases present
  · rename_i kept
    refine ⟨clean d p low present, ?_⟩
    intro both
    exact kept ⟨both.1, exitPages_clear few both.2⟩

theorem Clean.grow (clean : s.Clean) (laid : s.Laid) (separate : s.Separate)
    (busy : s.current ≠ s.idle) (owner : s.dir s.current = some home) {top : DWord} {m : Mm}
    {frames : List Nat} (grows : s.runningPages < heapPages top)
    (vacant : ∀ i, s.runningPages ≤ i → i < heapPages top →
      (s.mm.getEntry home (pagLogInitHeap - i)).present = false)
    (done : Kernel.reserveFrames (heapPages top - s.runningPages) s.mm [] = (m, some frames)) :
    (s.grow home top m frames).Clean := by
  have room := grow_room laid busy owner vacant
  obtain ⟨_, _, heap, most⟩ := Mm.regions
  have mapped := Mm.mapPages home (pagLogInitHeap - s.runningPages)
    (heapPages top - s.runningPages) (frames.getD · 0) (by omega) m
  have reserved := (Mm.reserved_of_some done).2.2
  intro d p low present
  have entry := mapped.entry d p
  rw [reserved.entries] at entry
  unfold Space.grow at present ⊢
  rw [owned_withHeap separate owner]
  change (Mm.getEntry (Loop.upTo _ _ m) d p).present = true at present
  rw [entry] at present
  split at present
  · rename_i new
    rw [if_pos new.1]
    exact (Mm.mem_ownPages_grow grows.le room).mpr (Or.inr new.2)
  · have before := clean d p low present
    split
    · rename_i here
      rw [here, separate.owned_iff owner] at before
      exact (Mm.mem_ownPages_grow grows.le room).mpr (Or.inl before)
    · exact before

theorem Clean.shrink (clean : s.Clean) (laid : s.Laid) (separate : s.Separate)
    (owner : s.dir s.current = some home) {top : DWord} (shrinks : heapPages top ≤ s.runningPages) :
    (s.shrink home top).Clean := by
  have room := (laid.top s.current (housed owner)).2
  intro d p low present
  have dropped := @Mm.dropAll_spec s.mm home
    (Mm.lowerPages (pagLogInitHeap - heapPages top) (s.runningPages - heapPages top))
  unfold Space.shrink at present ⊢
  rw [owned_withHeap separate owner]
  rw [Mm.unmap_eq] at present
  change (Mm.getEntry (Mm.dropAll _ _ _) d p).present = true at present
  rw [dropped.entry] at present
  split at present
  · cases present
  · rename_i kept
    have before := clean d p low present
    split
    · rename_i here
      rw [here, separate.owned_iff owner] at before
      apply (Mm.mem_ownPages_shrink shrinks room).mpr
      refine ⟨before, ?_⟩
      intro gone
      obtain ⟨i, below, place⟩ := gone
      apply kept
      refine ⟨here, List.mem_map.mpr ⟨(p, p), List.mem_map.mpr ⟨i, List.mem_range.mpr below, ?_⟩, rfl⟩⟩
      rw [place]
    · exact before

theorem Clean.own (clean : s.Clean) (laid : s.Laid) (owner : s.dir s.current = some home)
    (reach : s.Reach page) (single : s.mm.cowCountMem (s.frame home page) = 1) :
    (s.own home page).Clean := by
  obtain ⟨low, plain⟩ := laid.repaired owner reach (by rw [single]; decide)
  intro d p high present
  rw [owned_congr dir_own heapTop_own]
  unfold Space.own at present
  dsimp only at present
  rw [Mm.setSsPag, Mm.getEntry_setEntry, Mm.getEntry_setCow, Mm.getEntry_fault] at present
  by_cases here : d = home ∧ p = page
  · rw [here.1, here.2]
    exact clean home page low plain.1
  · rw [if_neg here] at present
    exact clean d p high present

theorem Clean.split (clean : s.Clean) (laid : s.Laid) (owner : s.dir s.current = some home)
    (reach : s.Reach page) (many : 2 ≤ s.mm.cowCountMem (s.frame home page)) :
    (s.split home page frame).Clean := by
  obtain ⟨low, plain⟩ := laid.repaired owner reach (some_of_many many)
  intro d p high present
  rw [owned_congr dir_split heapTop_split]
  rw [(parted laid owner reach frame).entry] at present
  by_cases here : d = home ∧ p = page
  · rw [here.1, here.2]
    exact clean home page low plain.1
  · rw [if_neg here] at present
    split at present
    · cases present
    · exact clean d p high present

theorem Clean.major (clean : s.Clean) (laid : s.Laid) (separate : s.Separate)
    (alone : NoClone label) (small : s.SmallExit label) (major : Major label s s') :
    s'.Clean := by
  cases major with
  | fork home child dir busy owner free spare => exact clean.fork laid owner free spare
  | join function stack exitFunc child home busy owner free =>
      exact absurd rfl (alone function stack exitFunc)
  | leave home other busy owner different here =>
      exact absurd (separate other s.current home here owner) different
  | release home busy owner last => exact clean.release separate owner (small rfl)
  | refused increment count m refused => exact clean.congr (Mm.refused_spec refused).1 rfl
  | grow increment home top m frames busy owner inside grows vacant done =>
      exact clean.grow laid separate busy owner grows vacant done
  | shrink increment home top busy owner inside shrinks =>
      exact clean.shrink laid separate owner shrinks
  | own addr value home busy owner reach denied single => exact clean.own laid owner reach single
  | split addr value home frame busy owner reach denied many got =>
      exact clean.split laid owner reach many

theorem Clean.step (clean : s.Clean) (laid : s.Laid) (separate : s.Separate)
    (alone : NoClone label) (small : s.SmallExit label) (step : Step label s s') : s'.Clean := by
  have minors : ∀ {s₁ s₂ : Space}, Minors s₁ s₂ → s₁.Clean → s₂.Clean := by
    intro s₁ s₂ minors
    induction minors with
    | refl => exact id
    | tail _ minor ih => exact fun before => (ih before).minor minor
  cases step with
  | minor moved => exact minors moved clean
  | major major moved => exact minors moved (clean.major laid separate alone small major)

theorem Initial.clean (init : s.Initial) : s.Clean := by
  intro d p low present
  by_cases first : d = 8 ∧ p < pagLogInitData + numPagData
  · have none : s.pages 1 = 0 := init.pages (housed init.firstDir)
    refine ⟨1, first.1 ▸ init.firstDir, ?_⟩
    rw [OwnPage, none, mem_ownPages_zero]
    exact ⟨low, first.2⟩
  · rw [init.fresh.others d p (Nat.le_trans (Nat.le_add_right ..) low) first] at present
    cases present

/-- The address spaces of a run without `sys_clone` in which processes exit with at most one
heap page. -/
structure Tended (s : Space) : Prop where
  laid : s.Laid
  counted : s.Counted
  clean : s.Clean

theorem Tended.step (tended : s.Tended) (alone : NoClone label) (small : s.SmallExit label)
    (step : Step label s s') : s'.Tended := by
  obtain ⟨laid, counted, clean⟩ := tended
  have mine := @Clean.ownFault s label clean laid counted.separate
  exact ⟨laid.step step, counted.step laid alone mine step,
    clean.step laid counted.separate alone small step⟩

end Space

end Zeos
