import Zeos.Eager
import Zeos.Space.Exact

set_option autoImplicit false

/-! The address spaces and the reference machine: no change of the tables changes a byte that
a process sees. -/

namespace Zeos

namespace Space

variable {s s' : Space} {e : Eager} {t child : TaskId} {d home dir : DirId} {page p f : Nat}
  {label : Option Action} {addr : DWord} {value : Byte}

/-- The number of heap pages of a process. The idle task has no user memory. -/
def heap (s : Space) (t : TaskId) : Option Nat :=
  if t = s.idle then none else (s.dir t).map fun _ => s.pages t

/-- The bytes of a page, as its directory has it. -/
def contents (s : Space) (d : DirId) (p : Nat) : Nat → Byte := s.mm.ram (s.mm.getFrame d p)

/-- The processes of the reference machine have the heaps and the bytes of the real ones. -/
structure Mirrors (s : Space) (e : Eager) : Prop where
  heap : e.heap = s.heap
  bytes : ∀ t d p offset, s.dir t = some d → t ≠ s.idle → s.OwnPage t p → offset < pageSize →
    s.contents d p offset = e.bytes t p offset
  idle : ∀ d p, s.dir s.idle = some d → pagLogInitData ≤ p → (s.mm.getEntry d p).present = false

theorem heap_of_process (home : s.dir t = some d) (busy : t ≠ s.idle) :
    s.heap t = some (s.pages t) := by
  rw [heap, if_neg busy, home]
  rfl

theorem Mirrors.owns_iff (mirrors : s.Mirrors e) (home : s.dir t = some d) (busy : t ≠ s.idle) :
    e.Owns t p ↔ s.OwnPage t p := by
  apply Eager.owns_iff
  rw [mirrors.heap]
  exact heap_of_process home busy

/-- Neither the tables nor the memory change. -/
theorem Mirrors.same (mirrors : s.Mirrors e) (entries : s'.mm.getEntry = s.mm.getEntry)
    (ram : s'.mm.ram = s.mm.ram) (places : s'.dir = s.dir) (tops : s'.heapTop = s.heapTop)
    (idle : s'.idle = s.idle) : s'.Mirrors e := by
  have pages : ∀ t, s'.pages t = s.pages t := by
    intro t
    rw [Space.pages, Space.pages, tops]
  constructor
  · rw [mirrors.heap]
    funext t
    rw [Space.heap, Space.heap, places, idle, pages]
  · intro t d p offset here busy own below
    rw [OwnPage, pages] at own
    rw [places] at here
    rw [idle] at busy
    rw [contents, Mm.getFrame, entries, ram]
    exact mirrors.bytes t d p offset here busy own below
  · rw [places, idle, entries]
    exact mirrors.idle

/-! ### What a change of the tables leaves alone -/

theorem ram_released : (s.released home page).ram = s.mm.ram := by
  unfold released
  rw [Mm.ram_setCow, Mm.ram_fault]

theorem ram_split {frame : Nat} : (s.split home page frame).mm.ram =
    (((s.released home page).take frame).copyFrame home page frame).ram := by
  unfold split
  dsimp only
  rw [Mm.setSsPag, Mm.ram_setEntry]

/-- A change of the tables is one of the running task's directory, or of a new one. -/
theorem Major.entries_other (major : Major label s s') (laid : s.Laid) (here : s.dir t = some d)
    (other : s.dir s.current ≠ some d) : s'.mm.getEntry d p = s.mm.getEntry d p := by
  obtain ⟨_, _, heap, most⟩ := Mm.regions
  have apart : ∀ {home}, s.dir s.current = some home → d ≠ home := by
    rintro home owner rfl
    exact other owner
  cases major with
  | fork home child dir busy owner free spare =>
      have new : d ≠ dir := by
        rintro rfl
        exact spare t here
      have old : home ≠ dir := by
        rintro rfl
        exact spare s.current owner
      have copied : ¬ (d = dir ∧ pagLogInitCode ≤ p ∧ p < pagLogInitData) := fun all => new all.1
      rw [fork_entry laid old owner, if_neg new, if_neg (apart owner), if_neg copied]
      exact ite_self _
  | join function stack exitFunc child home busy owner free => rfl
  | leave home other busy owner different same => rfl
  | release home busy owner last =>
      rw [release_entry, if_neg fun both => apart owner both.1]
  | refused increment count m refused =>
      show m.getEntry d p = _
      rw [(Mm.refused_spec refused).1]
  | grow increment home top m frames busy owner inside grows vacant done =>
      have room := grow_room laid busy owner vacant
      have mapped := Mm.mapPages home (pagLogInitHeap - s.runningPages)
        (heapPages top - s.runningPages) (frames.getD · 0) (by omega) m
      have entry := mapped.entry d p
      rw [if_neg fun both => apart owner both.1, (Mm.reserved_of_some done).2.2.entries] at entry
      exact entry
  | shrink increment home top busy owner inside shrinks =>
      unfold Space.shrink
      rw [Mm.unmap_eq]
      show ((Mm.dropAll home _ s.mm).setCr3 (some home)).getEntry d p = _
      rw [Mm.getEntry_setCr3, (Mm.dropAll_spec _).entry, if_neg fun both => apart owner both.1]
  | own addr value home busy owner reach denied single =>
      unfold Space.own
      dsimp only
      rw [Mm.setSsPag, Mm.getEntry_setEntry, if_neg fun both => apart owner both.1]
      rfl
  | split addr value home frame busy owner reach denied many got =>
      rw [(parted laid owner reach frame).entry, if_neg fun both => apart owner both.1,
        if_neg fun both => apart owner both.1]

/-- A change of the tables writes to free frames only. -/
theorem Major.ram_kept (major : Major label s s') (laid : s.Laid)
    (notFree : f ∉ s.mm.freeFrames) : s'.mm.ram f = s.mm.ram f := by
  cases major with
  | fork home child dir busy owner free spare =>
      have old : home ≠ dir := by
        rintro rfl
        exact spare s.current owner
      have room : s.runningPages ≤ Mm.maxHeapPages := (laid.top s.current (housed owner)).2
      have shared := Mm.shareAll old (Mm.ownPages_nodup room) (Kernel.copyCodePages s.mm home dir)
      unfold Space.fork
      dsimp only
      rw [Mm.ram_setCr3, Mm.sharePages_eq, shared.ram, (Mm.copyCodePages_spec old).ram]
  | join function stack exitFunc child home busy owner free => rfl
  | leave home other busy owner different same => rfl
  | release home busy owner last =>
      unfold Space.release
      dsimp only
      rw [Mm.freeUserPages_eq, (Mm.dropAll_spec _).ram]
  | refused increment count m refused =>
      have kept := (Mm.reserveFrames_frame count s.mm []).1
      rw [refused] at kept
      exact congrFun kept f
  | grow increment home top m frames busy owner inside grows vacant done =>
      have kept := (Mm.reserveFrames_frame (heapPages top - s.runningPages) s.mm []).1
      rw [done] at kept
      have mapped : (Loop.upTo (heapPages top - s.runningPages) (fun i m =>
          m.setSsPag home (pagLogInitHeap - s.runningPages - i) (frames.getD i 0)) m).ram = m.ram :=
        Loop.upTo_invariant _ _ m (fun _ m' => m'.ram = m.ram) rfl fun _ _ _ same => same
      exact congrFun (mapped.trans kept) f
  | shrink increment home top busy owner inside shrinks =>
      unfold Space.shrink
      rw [Mm.unmap_eq]
      exact congrFun (Mm.dropAll_spec _).ram f
  | own addr value home busy owner reach denied single =>
      unfold Space.own
      dsimp only
      rw [Mm.setSsPag, Mm.ram_setEntry, Mm.ram_setCow, Mm.ram_fault]
  | split addr value home frame busy owner reach denied many got =>
      have free := (allocFrame_free got).1
      have other : f ≠ frame := by
        rintro rfl
        exact notFree free
      rw [ram_split, (split_copied laid owner reach frame).others f other, Mm.ram_take, ram_released]

theorem Major.ram_used (major : Major label s s') (laid : s.Laid)
    (used : s.mm.physMem f = USED_FRAME) : s'.mm.ram f = s.mm.ram f := by
  apply major.ram_kept laid
  rw [Mm.mem_freeFrames, used]
  exact fun both => absurd both.2 (by decide)

/-! ### The pages that a process keeps -/

/-- The frames after a fork: those of the parent, in both directories. -/
theorem frame_fork (laid : s.Laid) (apart : home ≠ dir) (owner : s.dir s.current = some home)
    (low : pagLogInitData ≤ p) : (s.fork home child dir).mm.getFrame d p =
      if d = dir ∧ s.OwnPage s.current p then s.mm.getFrame home p else s.mm.getFrame d p := by
  have notCode : ¬ (d = dir ∧ pagLogInitCode ≤ p ∧ p < pagLogInitData) :=
    fun all => Nat.not_lt.mpr low all.2.2
  rw [Mm.getFrame, fork_entry laid apart owner, if_neg notCode]
  by_cases own : s.OwnPage s.current p
  · rw [if_pos own]
    by_cases new : d = dir
    · rw [if_pos new, if_pos ⟨new, own⟩]
    · have out : ¬ (d = dir ∧ s.OwnPage s.current p) := fun both => new both.1
      rw [if_neg new, if_neg out]
      split
      · rename_i mine
        rw [mine]
        rfl
      · rfl
  · rw [if_neg own, if_neg fun both => own both.2]
    rfl

theorem frame_grow (laid : s.Laid) (busy : s.current ≠ s.idle)
    (owner : s.dir s.current = some home) {top : DWord} {m : Mm} {frames : List Nat}
    (vacant : ∀ i, s.runningPages ≤ i → i < heapPages top →
      (s.mm.getEntry home (pagLogInitHeap - i)).present = false)
    (done : Kernel.reserveFrames (heapPages top - s.runningPages) s.mm [] = (m, some frames))
    (own : s.OwnPage s.current p) :
    (s.grow home top m frames).mm.getFrame home p = s.mm.getFrame home p := by
  obtain ⟨_, _, heap, most⟩ := Mm.regions
  have room := grow_room laid busy owner vacant
  have high := (laid.low owner own).2
  have mapped := Mm.mapPages home (pagLogInitHeap - s.runningPages)
    (heapPages top - s.runningPages) (frames.getD · 0) (by omega) m
  have entry := mapped.entry home p
  have old : ¬ (home = home ∧ p ≤ pagLogInitHeap - s.runningPages ∧
      pagLogInitHeap - s.runningPages < p + (heapPages top - s.runningPages)) := by
    intro all
    have present := laid.own s.current home p owner busy own
    have free := vacant (pagLogInitHeap - p) (by omega) (by omega)
    rw [Nat.sub_sub_self high, present] at free
    cases free
  rw [if_neg old, (Mm.reserved_of_some done).2.2.entries] at entry
  exact congrArg PageTableEntry.pbaseAddr entry

theorem frame_shrink (laid : s.Laid) (owner : s.dir s.current = some home) {top : DWord}
    (shrinks : heapPages top ≤ s.runningPages) (still : p ∈ Mm.ownPages (heapPages top)) :
    (s.shrink home top).mm.getFrame home p = s.mm.getFrame home p := by
  have room := (laid.top s.current (housed owner)).2
  have kept : p ∉ (Mm.lowerPages (pagLogInitHeap - heapPages top)
      (s.runningPages - heapPages top)).map Prod.snd := by
    intro inside
    obtain ⟨pair, member, same⟩ := List.mem_map.mp inside
    obtain ⟨i, below, rfl⟩ := List.mem_map.mp member
    apply ((Mm.mem_ownPages_shrink shrinks room).mp still).2
    exact ⟨i, List.mem_range.mp below, same.symm⟩
  unfold Space.shrink
  rw [Mm.unmap_eq]
  show (((Mm.dropAll home _ s.mm).setCr3 (some home)).getEntry home p).pbaseAddr = _
  rw [Mm.getEntry_setCr3, (Mm.dropAll_spec _).entry, if_neg fun both => kept both.2]
  rfl

theorem frame_own : (s.own home page).mm.getFrame home p = s.mm.getFrame home p := by
  unfold Space.own
  dsimp only
  rw [Mm.getFrame, Mm.setSsPag, Mm.getEntry_setEntry]
  split
  · rename_i here
    rw [here.2]
    rfl
  · rfl

/-- The page that `pf_rsi` copies has the bytes it had, and so have the other pages. -/
theorem contents_split (laid : s.Laid) (owner : s.dir s.current = some home)
    (reach : s.Reach page) {frame offset : Nat}
    (got : (s.released home page).allocFrame = ((s.released home page).take frame, some frame))
    (own : s.OwnPage s.current p) (used : s.mm.physMem (s.mm.getFrame home p) = USED_FRAME)
    (below : offset < pageSize) :
    (s.split home page frame).contents home p offset = s.contents home p offset := by
  have high := (laid.low owner own).2
  have copied := split_copied laid owner reach frame
  have entry := (parted laid owner reach frame).entry home p
  rw [contents, contents, ram_split]
  by_cases here : p = page
  · rw [if_pos ⟨rfl, here⟩] at entry
    rw [Mm.getFrame, entry, copied.copied offset below, Mm.ram_take, ram_released, here]
    rfl
  · rw [if_neg fun both => here both.2, if_neg (by omega)] at entry
    have other : s.mm.getFrame home p ≠ frame := by
      intro same
      have free : s.mm.physMem frame = FREE_FRAME :=
        (Mm.mem_freeFrames.mp (allocFrame_free got).1).2
      rw [same, free] at used
      cases used
    have frame : (s.split home page frame).mm.getFrame home p = s.mm.getFrame home p :=
      congrArg PageTableEntry.pbaseAddr entry
    rw [frame, copied.others _ other, Mm.ram_take, ram_released]

/-- A change of the tables keeps the bytes of the pages that a process keeps. -/
theorem Major.contents (major : Major label s s') (laid : s.Laid) (counted : s.Counted)
    (alone : NoClone label) (here : s.dir t = some d) (busy : t ≠ s.idle) (own : s.OwnPage t p)
    (there : s'.dir t = some d) (still : s'.OwnPage t p) {offset : Nat}
    (below : offset < pageSize) : s'.contents d p offset = s.contents d p offset := by
  have low := (laid.low here own).1
  have present := laid.own t d p here busy own
  have maps : (s.mm.table s.Owned).Maps d p (s.mm.getFrame d p) :=
    Mm.table_maps.mpr ⟨⟨t, here, own⟩, present, rfl⟩
  have used : s.mm.physMem (s.mm.getFrame d p) = USED_FRAME := (counted.exact.used maps).2.2
  have ram := major.ram_used laid used
  have kept : s'.mm.getFrame d p = s.mm.getFrame d p →
      s'.contents d p offset = s.contents d p offset := by
    intro same
    rw [Space.contents, Space.contents, same, ram]
  by_cases running : t = s.current
  · subst running
    cases major with
    | fork home child dir _ owner free spare =>
        apply kept
        have apart : home ≠ dir := by
          rintro rfl
          exact spare _ owner
        rw [frame_fork laid apart owner low, if_neg]
        intro both
        rw [both.1] at here
        exact spare _ here
    | join function stack exitFunc child home _ owner free =>
        exact absurd rfl (alone function stack exitFunc)
    | leave home other _ owner different same => exact kept rfl
    | release home _ owner last =>
        have gone : (s.release home).dir s.current = none := Function.update_self ..
        rw [gone] at there
        cases there
    | refused increment count m refused =>
        apply kept
        show (m.getEntry d p).pbaseAddr = _
        rw [(Mm.refused_spec refused).1]
        rfl
    | grow increment home top m frames _ owner inside grows vacant done =>
        apply kept
        cases Option.some.inj (here.symm.trans owner)
        exact frame_grow laid busy owner vacant done own
    | shrink increment home top _ owner inside shrinks =>
        apply kept
        cases Option.some.inj (here.symm.trans owner)
        have pages : (s.shrink d top).pages s.current = heapPages top := pages_update.trans (if_pos rfl)
        rw [OwnPage, pages] at still
        exact frame_shrink laid owner shrinks still
    | own addr value home _ owner reach denied single =>
        apply kept
        cases Option.some.inj (here.symm.trans owner)
        exact frame_own
    | split addr value home frame _ owner reach denied many got =>
        cases Option.some.inj (here.symm.trans owner)
        exact contents_split laid owner reach got own used below
  · apply kept
    have other : s.dir s.current ≠ some d :=
      fun same => running (counted.separate t s.current d here same)
    exact congrArg PageTableEntry.pbaseAddr (major.entries_other laid here other)

/-! ### Every change keeps the processes in step -/

theorem Major.idle (major : Major label s s') : s'.idle = s.idle := by
  cases major with
  | own addr value home busy owner reach denied single => rfl
  | split addr value home frame busy owner reach denied many got =>
      unfold Space.split
      generalize Mm.setSsPag _ home _ frame = m
      rfl
  | _ => rfl

/-- The idle task keeps its directory. -/
theorem Major.dir_idle (major : Major label s s') (laid : s.Laid) (busy : s.current ≠ s.idle) :
    s'.dir s.idle = s.dir s.idle := by
  cases major with
  | fork home child dir _ owner free spare =>
      apply Function.update_of_ne
      rintro rfl
      obtain ⟨d, here, _⟩ := laid.idle
      rw [free] at here
      cases here
  | join function stack exitFunc child home _ owner free =>
      apply Function.update_of_ne
      rintro rfl
      obtain ⟨d, here, _⟩ := laid.idle
      rw [free] at here
      cases here
  | leave home other _ owner different same => exact Function.update_of_ne busy.symm ..
  | release home _ owner last => exact Function.update_of_ne busy.symm ..
  | refused increment count m refused => rfl
  | grow increment home top m frames _ owner inside grows vacant done => rfl
  | shrink increment home top _ owner inside shrinks => rfl
  | own addr value home _ owner reach denied single => rw [dir_own]
  | split addr value home frame _ owner reach denied many got => rw [dir_split]

/-- Each page after the change is one that its process had, with the same bytes in the reference
machine, or has the bytes of the reference machine. -/
theorem Mirrors.major {e' : Eager} (mirrors : s.Mirrors e) (major : Major label s s')
    (laid : s.Laid) (counted : s.Counted) (alone : NoClone label) (busy : s.current ≠ s.idle)
    (heap : e'.heap = s'.heap)
    (pages : ∀ t d p, s'.dir t = some d → t ≠ s.idle → s'.OwnPage t p →
      (s.dir t = some d ∧ s.OwnPage t p ∧ e'.bytes t p = e.bytes t p) ∨
        ∀ offset < pageSize, s'.contents d p offset = e'.bytes t p offset) : s'.Mirrors e' := by
  constructor
  · exact heap
  · intro t d p offset there notIdle still below
    rw [major.idle] at notIdle
    rcases pages t d p there notIdle still with kept | new
    · obtain ⟨here, own, same⟩ := kept
      rw [same, major.contents laid counted alone here notIdle own there still below]
      exact mirrors.bytes t d p offset here notIdle own below
    · exact new offset below
  · intro d p there low
    rw [major.idle, major.dir_idle laid busy] at there
    obtain ⟨d', here, single, _⟩ := laid.idle
    have other : s.dir s.current ≠ some d := by
      intro same
      cases Option.some.inj (here.symm.trans there)
      exact busy (single s.current same)
    rw [major.entries_other laid there other]
    exact mirrors.idle d p there low

/-- The child shares the frames that the reference machine copies. -/
theorem Mirrors.fork (mirrors : s.Mirrors e) (laid : s.Laid) (counted : s.Counted)
    (busy : s.current ≠ s.idle) (owner : s.dir s.current = some home) (free : s.dir child = none)
    (spare : ∀ t, s.dir t ≠ some dir) :
    (s.fork home child dir).Mirrors (e.fork s.current child) := by
  have apart : home ≠ dir := by
    rintro rfl
    exact spare s.current owner
  have notIdle : child ≠ s.idle := by
    rintro rfl
    obtain ⟨d, here, _⟩ := laid.idle
    rw [free] at here
    cases here
  have place : ∀ t, (s.fork home child dir).dir t = if t = child then some dir else s.dir t :=
    fun t => Function.update_apply ..
  have pages : ∀ t, (s.fork home child dir).pages t =
      if t = child then s.pages s.current else s.pages t := fun t => pages_update
  have bytes : ∀ t, (e.fork s.current child).bytes t =
      if t = child then e.bytes s.current else e.bytes t := fun t => Function.update_apply ..
  have major : Major (some (.call .fork)) s (s.fork home child dir) :=
    .fork home child dir busy owner free spare
  apply mirrors.major major laid counted nofun busy
  · funext t
    show Function.update e.heap child (e.heap s.current) t = _
    rw [Function.update_apply, mirrors.heap, Space.heap, Space.heap, Space.heap, place, pages,
      if_neg busy, owner]
    by_cases new : t = child
    · rw [if_pos new, if_pos new, if_pos new, if_neg (new ▸ notIdle)]
      rfl
    · rw [if_neg new, if_neg new, if_neg new]
      rfl
  · intro t d p there _ still
    rw [OwnPage, pages] at still
    rw [place] at there
    by_cases new : t = child
    · rw [if_pos new] at still there
      right
      intro offset below
      have low := (laid.low owner still).1
      have maps : (s.mm.table s.Owned).Maps home p (s.mm.getFrame home p) :=
        Mm.table_maps.mpr ⟨⟨s.current, owner, still⟩, laid.own _ _ _ owner busy still, rfl⟩
      have used : s.mm.physMem (s.mm.getFrame home p) = USED_FRAME :=
        (counted.exact.used maps).2.2
      rw [contents, frame_fork laid apart owner low,
        if_pos ⟨(Option.some.inj there).symm, still⟩, major.ram_used laid used, bytes, if_pos new]
      exact mirrors.bytes s.current home p offset owner busy still below
    · rw [if_neg new] at still there
      left
      refine ⟨there, still, ?_⟩
      rw [bytes, if_neg new]

theorem Mirrors.forks (mirrors : s.Mirrors e) (laid : s.Laid) (counted : s.Counted)
    (major : Major (some (.call .fork)) s s') : ∃ child, s.dir child = none ∧
      (∃ d, s'.dir = Function.update s.dir child (some d)) ∧
      s'.Mirrors (e.fork s.current child) := by
  cases major with
  | fork home child dir busy owner free spare =>
      exact ⟨child, free, ⟨dir, rfl⟩, mirrors.fork laid counted busy owner free spare⟩

/-- What is released is the memory of the process that exits. -/
theorem Mirrors.release (mirrors : s.Mirrors e) (laid : s.Laid) (counted : s.Counted)
    (busy : s.current ≠ s.idle) (owner : s.dir s.current = some home)
    (last : ∀ t, s.dir t = some home → t = s.current) :
    (s.release home).Mirrors (e.exit s.current) := by
  have place : ∀ t, (s.release home).dir t = if t = s.current then none else s.dir t :=
    fun t => Function.update_apply ..
  apply mirrors.major (.release home busy owner last) laid counted nofun busy
  · funext t
    show Function.update e.heap s.current none t = _
    rw [Function.update_apply, mirrors.heap, Space.heap, Space.heap, place]
    by_cases gone : t = s.current
    · rw [if_pos gone, if_pos gone]
      exact (ite_self _).symm
    · rw [if_neg gone, if_neg gone]
      rfl
  · intro t d p there _ still
    left
    rw [place] at there
    split at there
    · cases there
    · exact ⟨there, still, rfl⟩

/-- `sys_sbrk` gives the running task another heap, and nothing else. -/
theorem Major.resizes {increment : DWord} (major : Major (some (.call (.sbrk increment))) s s') :
    s'.dir = s.dir ∧ ∀ t, t ≠ s.current → s'.pages t = s.pages t := by
  cases major with
  | refused count m refused => exact ⟨rfl, fun _ _ => rfl⟩
  | grow home top m frames busy owner inside grows vacant done =>
      exact ⟨rfl, fun t other => pages_update.trans (if_neg other)⟩
  | shrink home top busy owner inside shrinks =>
      exact ⟨rfl, fun t other => pages_update.trans (if_neg other)⟩

/-- The pages that `sys_sbrk` adds have what is in their frames. -/
theorem Mirrors.resize {increment : DWord} (mirrors : s.Mirrors e)
    (major : Major (some (.call (.sbrk increment))) s s') (laid : s.Laid) (counted : s.Counted)
    (busy : s.current ≠ s.idle) (owner : s.dir s.current = some home) :
    s'.Mirrors (e.resize s.current (s'.pages s.current) (s'.contents home)) := by
  obtain ⟨places, others⟩ := major.resizes
  apply mirrors.major major laid counted nofun busy
  · funext t
    show Function.update e.heap s.current (some (s'.pages s.current)) t = _
    rw [Function.update_apply, mirrors.heap, Space.heap, Space.heap, major.idle, places]
    by_cases mine : t = s.current
    · rw [if_pos mine, mine, if_neg busy, owner]
      rfl
    · rw [if_neg mine, others t mine]
  · intro t d p there notIdle still
    rw [places] at there
    have bytes : (e.resize s.current (s'.pages s.current) (s'.contents home)).bytes t p =
        if t = s.current then
          if e.Owns s.current p then e.bytes s.current p else s'.contents home p
        else e.bytes t p := by
      show Function.update e.bytes s.current _ t p = _
      rw [Function.update_apply]
      split <;> rfl
    rw [bytes]
    by_cases mine : t = s.current
    · rw [if_pos mine]
      by_cases old : e.Owns s.current p
      · left
        rw [if_pos old, mine]
        exact ⟨mine ▸ there, (mirrors.owns_iff owner busy).mp old, rfl⟩
      · right
        intro offset below
        rw [mine, owner] at there
        rw [if_neg old, Option.some.inj there]
    · left
      rw [if_neg mine]
      rw [OwnPage, others t mine] at still
      exact ⟨there, still, rfl⟩

/-- When `sys_sbrk` changes nothing, no page is new. -/
theorem Mirrors.unsized (mirrors : s.Mirrors e) (busy : s.current ≠ s.idle)
    (owner : s.dir s.current = some home) {fresh : Nat → Nat → Byte} :
    s.Mirrors (e.resize s.current (s.pages s.current) fresh) := by
  constructor
  · show Function.update e.heap s.current (some (s.pages s.current)) = _
    rw [← heap_of_process owner busy, ← mirrors.heap, Function.update_eq_self]
  · intro t d p offset here notIdle own below
    have old := mirrors.bytes t d p offset here notIdle own below
    show _ = Function.update e.bytes s.current _ t p offset
    rw [Function.update_apply]
    split
    · rename_i mine
      rw [mine] at own old
      show _ = (if e.Owns s.current p then e.bytes s.current p else fresh p) offset
      rw [if_pos ((mirrors.owns_iff owner busy).mpr own)]
      exact old
    · exact old
  · exact mirrors.idle

/-- `pf_rsi` leaves the processes where they are. -/
theorem Major.stays (major : Major (some (.store addr value)) s s') :
    s'.dir = s.dir ∧ s'.heapTop = s.heapTop ∧ s'.current = s.current := by
  cases major with
  | own home busy owner reach denied single => exact ⟨dir_own, heapTop_own, rfl⟩
  | split home frame busy owner reach denied many got =>
      refine ⟨dir_split, heapTop_split, ?_⟩
      unfold Space.split
      generalize Mm.setSsPag _ _ _ _ = m
      rfl

/-- `pf_rsi` changes nothing in the reference machine. -/
theorem Mirrors.repair (mirrors : s.Mirrors e) (major : Major (some (.store addr value)) s s')
    (laid : s.Laid) (counted : s.Counted) (busy : s.current ≠ s.idle) : s'.Mirrors e := by
  obtain ⟨places, tops, _⟩ := major.stays
  apply mirrors.major major laid counted nofun busy
  · rw [mirrors.heap]
    funext t
    rw [Space.heap, Space.heap, major.idle, places, Space.pages, Space.pages, tops]
  · intro t d p there _ still
    left
    rw [OwnPage, pages, tops] at still
    rw [places] at there
    exact ⟨there, still, rfl⟩

/-- The running program writes to a frame that it alone has. -/
theorem Mirrors.write (mirrors : s.Mirrors e) (laid : s.Laid) (counted : s.Counted)
    (owner : s.dir s.current = some home) (own : s.OwnPage s.current (addr.toNat / pageSize))
    (writable : s.mm.userWritable (addr.toNat / pageSize) = true) :
    (s.write addr value).Mirrors (e.write s.current addr value) := by
  obtain ⟨low, high⟩ := laid.low owner own
  obtain ⟨_, _, top, _⟩ := Mm.regions
  have inside : addr.toNat / pageSize < totalPages := by
    simp only [totalPages]
    omega
  have entry : s.mm.mapped (addr.toNat / pageSize) =
      s.mm.getEntry home (addr.toNat / pageSize) := by
    rw [Mm.mapped, laid.steered owner]
    exact if_pos inside
  simp only [Mm.userWritable, Bool.and_eq_true, entry] at writable
  obtain ⟨⟨present, _⟩, writes⟩ := writable
  have slot : (s.mm.table s.Owned).slot home (addr.toNat / pageSize) = some (_, _) :=
    Mm.slot_of ⟨s.current, owner, own⟩ present
  rw [writes] at slot
  have poked : ∀ f offset, (s.write addr value).mm.ram f offset =
      if f = s.mm.getFrame home (addr.toNat / pageSize) ∧ offset = addr.toNat % pageSize then value
      else s.mm.ram f offset := by
    intro f offset
    show Function.update s.mm.ram (s.mm.mapped (addr.toNat / pageSize)).pbaseAddr
      (Function.update (s.mm.ram (s.mm.mapped (addr.toNat / pageSize)).pbaseAddr)
        (addr.toNat % pageSize) value) f offset = _
    rw [entry, Function.update_apply]
    split
    · rename_i here
      rw [Function.update_apply, here]
      exact if_congr (and_iff_right rfl).symm rfl rfl
    · rename_i elsewhere
      rw [if_neg fun both => elsewhere both.1]
  constructor
  · exact mirrors.heap
  · intro t d p offset here notIdle mine below
    have old := mirrors.bytes t d p offset here notIdle mine below
    have maps : (s.mm.table s.Owned).Maps d p (s.mm.getFrame d p) :=
      Mm.table_maps.mpr ⟨⟨t, here, mine⟩, laid.own t d p here notIdle mine, rfl⟩
    show (s.write addr value).mm.ram (s.mm.getFrame d p) offset = _
    rw [poked, Eager.bytes_write, ← old]
    apply if_congr _ rfl rfl
    rw [← and_assoc]
    apply and_congr_left
    intro _
    constructor
    · intro same
      rw [same] at maps
      obtain ⟨dirs, pages⟩ := counted.exact.private slot maps
      rw [dirs] at here
      exact ⟨counted.separate t s.current home here owner, pages⟩
    · intro both
      rw [both.1] at here
      have same : home = d := Option.some.inj (owner.symm.trans here)
      rw [both.2, same]
  · exact mirrors.idle

end Space

end Zeos
