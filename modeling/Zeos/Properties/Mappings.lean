import Zeos.Properties.Counts
import Zeos.Space.Clean

set_option autoImplicit false

/-! What the page table of a live process maps. -/

namespace Zeos

/-- The page tables of the live processes map their own pages, frames in use, and no frame
for two of them to write to. -/
structure Kernel.MapsOwn (k : Kernel) : Prop where
  own : ∀ t d p, (k.tasks t).dirPagesBaseAddr = some d → numPagKernel ≤ p →
    (k.mm.getEntry d p).present = true →
    (pagLogInitCode ≤ p ∧ p < pagLogInitCode + numPagCode) ∨ k.OwnPage t p
  used : ∀ t d p, (k.tasks t).dirPagesBaseAddr = some d → numPagKernel ≤ p →
    (k.mm.getEntry d p).present = true → k.mm.physMem (k.mm.getFrame d p) ≠ FREE_FRAME
  apart : ∀ t t' d d' p p', (k.tasks t).dirPagesBaseAddr = some d →
    (k.tasks t').dirPagesBaseAddr = some d' → d ≠ d' → numPagKernel ≤ p → numPagKernel ≤ p' →
    (k.mm.getEntry d p).present = true → (k.mm.getEntry d p).rw = true →
    (k.mm.getEntry d' p').present = true → (k.mm.getEntry d' p').rw = true →
    k.mm.getFrame d p ≠ k.mm.getFrame d' p'

/-- The actions of a run in which only `sys_fork` makes processes. -/
def noClone (_ : Kernel) : Option Action → Bool
  | some (.call (.clone _ _ _)) => false
  | _ => true

/-- Only `sys_fork` makes processes, and they exit with at most one heap page. -/
def exitsSmall (k : Kernel) : Option Action → Bool
  | some (.call (.clone _ _ _)) => false
  | some (.call .exit) => getHeapPageSize k.currentTask.heapTop ≤ 1
  | _ => true

variable {k : Kernel} {label : Option Action}

theorem exitsSmall_alone (allowed : exitsSmall k label = true) : Space.NoClone label := by
  intro function stack exitFunc same
  rw [same] at allowed
  cases allowed

theorem exitsSmall_small (allowed : exitsSmall k label = true) : k.space.SmallExit label := by
  intro same
  rw [same] at allowed
  exact Int.toNat_le.mpr (of_decide_eq_true allowed)

namespace Space

variable {s : Space} {d d' : DirId} {t : TaskId} {p p' : Nat}

/-- A present user entry is for a code page or for a page that a task may use. -/
theorem Tended.user (tended : s.Tended) (user : numPagKernel ≤ p)
    (present : (s.mm.getEntry d p).present = true) :
    (∃ i < numPagCode, p = pagLogInitCode + i ∧ s.mm.getEntry d p = codeEntry i) ∨
      pagLogInitData ≤ p ∧ s.Owned d p := by
  obtain ⟨code, data, _, _⟩ := Mm.regions
  by_cases low : pagLogInitData ≤ p
  · exact Or.inr ⟨low, tended.clean d p low present⟩
  · left
    simp only [numPagKernel] at user
    have place : pagLogInitCode + (p - pagLogInitCode) = p := by omega
    have below : p - pagLogInitCode < numPagCode := by
      simp only [numPagCode]
      omega
    have entry := tended.laid.tidy.code d (p - pagLogInitCode) below
    rw [place] at entry
    refine ⟨p - pagLogInitCode, below, place.symm, entry.resolve_left ?_⟩
    intro empty
    rw [empty] at present
    cases present

/-- A user entry that may be written is in the table of exact counts. -/
theorem Tended.slot (tended : s.Tended) (user : numPagKernel ≤ p)
    (present : (s.mm.getEntry d p).present = true) (writes : (s.mm.getEntry d p).rw = true) :
    (s.mm.table s.Owned).slot d p = some (s.mm.getFrame d p, true) := by
  rcases tended.user user present with code | data
  · obtain ⟨i, _, _, entry⟩ := code
    rw [entry] at writes
    cases writes
  · rw [Mm.slot_of data.2 present, writes]

theorem Tended.used (tended : s.Tended) (user : numPagKernel ≤ p)
    (present : (s.mm.getEntry d p).present = true) :
    s.mm.physMem (s.mm.getFrame d p) = USED_FRAME := by
  rcases tended.user user present with code | data
  · obtain ⟨i, below, _, entry⟩ := code
    rw [Mm.getFrame, entry]
    exact (tended.laid.tidy.fixed _ (Or.inr ⟨i, below, rfl⟩)).2
  · exact (tended.counted.exact.used (Mm.table_maps.mpr ⟨data.2, present, rfl⟩)).2.2

/-- A frame that a page table may write to is in no other page table. -/
theorem Tended.unshared (tended : s.Tended) (other : d ≠ d') (user : numPagKernel ≤ p)
    (user' : numPagKernel ≤ p') (present : (s.mm.getEntry d p).present = true)
    (writes : (s.mm.getEntry d p).rw = true) (present' : (s.mm.getEntry d' p').present = true) :
    s.mm.getFrame d p ≠ s.mm.getFrame d' p' := by
  intro same
  have slot := tended.slot user present writes
  rcases tended.user user' present' with code | data
  · obtain ⟨i, below, _, entry⟩ := code
    have frame : s.mm.getFrame d' p' = codeFrame i := congrArg PageTableEntry.pbaseAddr entry
    exact (tended.counted.exact.used ⟨true, slot⟩).2.1 i below (same.trans frame)
  · have slot' := Mm.slot_of data.2 present'
    rw [← same] at slot'
    exact other (tended.counted.exact.private slot ⟨_, slot'⟩).1.symm

end Space

/-- The entries and the marks decide. -/
theorem mapsOwn_of {s : Space} (tended : s.Tended) (entries : k.mm.getEntry = s.mm.getEntry)
    (phys : k.mm.physMem = s.mm.physMem) (dir : k.space.dir = s.dir)
    (heapTop : k.space.heapTop = s.heapTop) : k.MapsOwn := by
  have home : ∀ {t d}, (k.tasks t).dirPagesBaseAddr = some d → s.dir t = some d := by
    intro t d here
    rw [← dir]
    exact here
  constructor
  · intro t d p here user present
    rw [entries] at present
    rcases tended.user user present with code | data
    · obtain ⟨i, below, place, _⟩ := code
      left
      omega
    · right
      have own := (tended.counted.separate.owned_iff (home here)).mp data.2
      rw [ownPage_iff, Space.OwnPage, Space.pages, heapTop]
      exact own
  · intro t d p here user present
    rw [entries] at present
    rw [phys, Mm.getFrame, entries]
    rw [show ((s.mm.getEntry d p).pbaseAddr) = s.mm.getFrame d p from rfl, tended.used user present]
    decide
  · intro t t' d d' p p' here here' other user user' present writes present' _
    rw [entries] at present writes present'
    rw [Mm.getFrame, Mm.getFrame, entries]
    exact tended.unshared other user user' present writes present'

theorem mapsOwn (tended : k.space.Tended) : k.MapsOwn := mapsOwn_of tended rfl rfl rfl rfl

/-- While processes exit with at most one heap page, the address spaces stay tended. -/
theorem exits_tended (reached : Reachable (fun k label => exitsSmall k label = true) k) :
    (∃ r, Refines k r ∧ Roster.Sound r) ∧ (k.stuck = true ∨ k.space.Tended) := by
  apply reached.invariant fun k => (∃ r, Refines k r ∧ Roster.Sound r) ∧
    (k.stuck = true ∨ k.space.Tended)
  · intro k booted
    obtain ⟨image, rfl⟩ := booted
    have init := boot_space image
    exact ⟨⟨Roster.boot, boot_refines image, Roster.boot_sound⟩,
      Or.inr ⟨init.laid, init.counted, init.clean⟩⟩
  · intro k label k' before allowed stepped
    obtain ⟨⟨r, ref, sound⟩, state⟩ := before
    obtain ⟨r', step, after, _⟩ := ref.step sound stepped
    refine ⟨⟨r', after, sound.step step⟩, ?_⟩
    have tended := state.resolve_left (stuck_step stepped)
    rcases ref.step_space sound tended.laid stepped with moved | last
    · exact Or.inr (tended.step (exitsSmall_alone allowed) (exitsSmall_small allowed) moved)
    · exact Or.inl last.1

/-- While processes exit with at most one heap page, the page tables of the live processes
map their own pages and nothing else. -/
theorem maps_own (reached : Reachable (fun k label => exitsSmall k label = true) k) :
    k.MapsOwn := by
  cases reached with
  | start booted =>
      obtain ⟨image, rfl⟩ := booted
      have init := boot_space image
      exact mapsOwn ⟨init.laid, init.counted, init.clean⟩
  | next label before allowed stepped =>
      obtain ⟨⟨r, ref, sound⟩, state⟩ := exits_tended before
      have tended := state.resolve_left (stuck_step stepped)
      rcases ref.step_space sound tended.laid stepped with moved | last
      · exact mapsOwn (tended.step (exitsSmall_alone allowed) (exitsSmall_small allowed) moved)
      · obtain ⟨stuck, addr, value, home, _, _, _, _, same⟩ := last
        have entries := congrArg (fun s : Space => s.mm.getEntry) same
        have phys := congrArg (fun s : Space => s.mm.physMem) same
        have dir := congrArg Space.dir same
        have heapTop := congrArg Space.heapTop same
        exact mapsOwn_of tended entries phys dir heapTop

/-- A child is forked, the parent grows its heap by a page and exits, and the child forks
again. -/
theorem maps_own_fork : (Kernel.after exitsSmall [some (.call .fork), some (.call (.sbrk 4095)),
    some (.call .exit), none, some (.call .fork)]).MapsOwn :=
  maps_own (reached_after (by decide +kernel))

/-- A process that exits with two heap pages leaves an entry for the lower one, whose frame
is free; the next process to get its directory can write to it. -/
theorem maps_own_counterexample :
    ¬ ∀ k, Reachable (fun k label => noClone k label = true) k → k.MapsOwn := by
  intro claim
  have reached := @reached_after noClone [some (.call .fork), some (.call (.sbrk 8192)),
    some (.call .exit), none, some (.call .fork)] (by decide +kernel)
  have used := (claim _ reached).used 3 8 510 (by decide +kernel) (by decide) (by decide +kernel)
  exact used (by decide +kernel)

end Zeos
