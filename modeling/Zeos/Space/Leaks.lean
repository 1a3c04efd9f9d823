import Zeos.Space.Frames

set_option autoImplicit false

/-! No frame is lost as long as the last task of a directory owns all that its page table
still maps. -/

namespace Zeos

open Sharing (Covered)

namespace Space

variable {s s' : Space} {home dir : DirId} {page frame f : Nat} {label : Option Action}

/-- A data or heap page of a live address space. -/
def Live (s : Space) (d : DirId) (p : Nat) : Prop :=
  (∃ t, s.dir t = some d) ∧ pagLogInitData ≤ p ∧ p ≤ pagLogInitHeap

theorem Live.of_dir {d : DirId} {p : Nat} (live : s.Live d p) (same : s'.dir = s.dir) :
    s'.Live d p := by
  rw [Live, same]
  exact live

theorem dir_split : (s.split home page frame).dir = s.dir := by
  unfold split
  generalize Mm.setSsPag _ home page frame = m
  rfl

theorem live_within : Within s.Live := fun _ _ live => live.2

/-- No frame in use has more references than live page tables map it. -/
def Held (s : Space) : Prop := Covered (s.mm.table s.Live)

/-- The page table maps no data or heap page but those of the running task. -/
def Settled (s : Space) (home : DirId) : Prop :=
  ∀ p, pagLogInitData ≤ p → p ≤ pagLogInitHeap → (s.mm.getEntry home p).present = true →
    s.OwnPage s.current p

/-- The last task of a directory exits with a settled page table. -/
def SettledExit (s : Space) (label : Option Action) : Prop :=
  ∀ home, label = some (.call .exit) → s.dir s.current = some home →
    (∀ t, s.dir t = some home → t = s.current) → s.Settled home

theorem held_finite : ∀ f, ((s.mm.table s.Live).places f).Finite :=
  fun _ => Mm.places_finite fun d p live => (live_within d p live).2

theorem Held.minors (held : s.Held) (minors : Minors s s') : s'.Held := by
  have dir : s'.dir = s.dir := by
    induction minors with
    | refl => rfl
    | tail _ minor ih => cases minor <;> exact ih
  have live : s'.Live = s.Live := by
    unfold Live
    rw [dir]
  rw [Held, live, table_minors minors]
  exact held

/-- The table of another space with the pages of live address spaces, from any table that
maps no more. -/
theorem Held.of_table {tracked : DirId → Nat → Prop} (covered : Covered (s.mm.table tracked))
    (maps : ∀ d p, tracked d p → (s.mm.getEntry d p).present = true → s.Live d p) : s.Held := by
  apply covered.mono held_finite
  · intro d p f at'
    obtain ⟨counts, present, same⟩ := Mm.table_maps.mp at'
    exact Mm.table_maps.mpr ⟨maps d p counts present, present, same⟩
  · intro f used
    exact ⟨used, Nat.le_refl _⟩

/-- A task enters a directory, or leaves one that others use. -/
theorem live_update {t : TaskId} {place : Option DirId} {d : DirId}
    (others : ∀ t', s.dir t' = some d → t' = t → ∃ t'', t'' ≠ t ∧ s.dir t'' = some d)
    (live : ∃ t, s.dir t = some d) : ∃ t', Function.update s.dir t place t' = some d := by
  obtain ⟨t', here⟩ := live
  by_cases same : t' = t
  · obtain ⟨other, different, there⟩ := others t' here same
    exact ⟨other, by rw [Function.update_of_ne different]; exact there⟩
  · exact ⟨t', by rw [Function.update_of_ne same]; exact here⟩

theorem some_of_many {count : Byte} (many : 2 ≤ count) : count ≠ 0 := by
  intro none
  rw [none] at many
  cases many

theorem release_entry {d : DirId} {p : Nat} : (s.release home).mm.getEntry d p =
    if d = home ∧ p ∈ (Mm.exitPages s.runningPages).map Prod.snd then noEntry
    else s.mm.getEntry d p := by
  unfold release
  dsimp only
  rw [Mm.freeUserPages_eq]
  exact (Mm.dropAll_spec _).entry d p

theorem Held.major (held : s.Held) (laid : s.Laid) (settled : s.SettledExit label)
    (major : Major label s s') : s'.Held := by
  have own_live : ∀ {home p}, s.dir s.current = some home → s.OwnPage s.current p →
      s.Live home p := fun owner own => ⟨⟨s.current, owner⟩, laid.low owner own⟩
  cases major with
  | fork home child dir busy owner free spare =>
      have apart : home ≠ dir := by
        rintro rfl
        exact spare s.current owner
      have shared := @ops_fork s s.Live home dir child laid busy owner apart live_within
        (fun p own => own_live owner own) (fun p _ live => by
          obtain ⟨t, here⟩ := live.1
          exact spare t here)
      apply Held.of_table (Covered.ops held shared)
      intro d p counts _
      rcases counts with live | new
      · obtain ⟨someone, range⟩ := live
        refine ⟨live_update ?_ someone, range⟩
        intro t' here same
        rw [same, free] at here
        cases here
      · obtain ⟨rfl, own⟩ := new
        exact ⟨⟨child, Function.update_self ..⟩, laid.low owner own⟩
  | join function stack exitFunc child home busy owner free =>
      apply @Held.of_table (s.join child home) s.Live held
      intro d p live _
      refine ⟨live_update ?_ live.1, live.2⟩
      intro t' here same
      rw [same, free] at here
      cases here
  | leave home other busy owner different here =>
      apply @Held.of_table s.leave s.Live held
      intro d p live _
      refine ⟨live_update ?_ live.1, live.2⟩
      intro t' there same
      rw [same, owner] at there
      cases there
      exact ⟨other, different, here⟩
  | release home busy owner last =>
      have freed := ops_release laid busy owner live_within (fun p own => own_live owner own)
      apply Held.of_table (Covered.ops held freed)
      intro d p counts present
      obtain ⟨live, out⟩ := counts
      by_cases gone : d = home
      · subst gone
        have before : (s.mm.getEntry d p).present = true := by
          rw [release_entry] at present
          split at present
          · cases present
          · exact present
        exact absurd ⟨rfl, settled d rfl owner last p live.2.1 live.2.2 before⟩ out
      · refine ⟨live_update ?_ live.1, live.2⟩
        intro t' there same
        rw [same, owner] at there
        exact absurd (Option.some.inj there).symm gone
  | refused increment count m refused =>
      obtain ⟨entries, phys, cow⟩ := Mm.refused_spec refused
      apply held.mono held_finite
      · intro d p f at'
        rw [Mm.table_maps] at at' ⊢
        rw [Mm.getFrame, entries]
        exact at'
      · intro f used
        have marked : s.mm.physMem f = USED_FRAME := by
          rw [← phys]
          exact used.2.2
        refine ⟨⟨used.1, used.2.1, marked⟩, ?_⟩
        show (m.cowCountMem f).toNat ≤ (s.mm.cowCountMem f).toNat
        rw [cow f (by rw [marked]; decide)]
  | grow increment home top m frames busy owner inside grows vacant done =>
      have room := grow_room laid busy owner vacant
      obtain ⟨_, data, heap, most⟩ := Mm.regions
      apply Held.of_table (Covered.ops held (ops_grow laid room vacant done))
      intro d p counts _
      rcases counts with live | new
      · exact live
      · obtain ⟨rfl, high, low⟩ := new
        exact ⟨⟨s.current, owner⟩, by omega, by omega⟩
  | shrink increment home top busy owner inside shrinks =>
      have shrunk := @ops_shrink s s.Live home laid busy owner top fun p own => own_live owner own
      apply Held.of_table (Covered.ops held shrunk)
      intro d p counts _
      exact counts.1
  | own addr value home busy owner reach denied single =>
      obtain ⟨low, plain⟩ := laid.repaired owner reach (by rw [single]; decide)
      have high := (laid.reach_bounds owner reach).2
      have owned := @op_own s s.Live home _ ⟨⟨s.current, owner⟩, low, high⟩ plain.1 single
      apply Held.of_table (Covered.op held owned)
      intro d p live _
      exact live
  | split addr value home frame busy owner reach denied many got =>
      obtain ⟨low, plain⟩ := laid.repaired owner reach (some_of_many many)
      have high := (laid.reach_bounds owner reach).2
      have parted := op_split laid owner reach many got live_within
        ⟨⟨s.current, owner⟩, low, high⟩ plain.1
      apply Held.of_table (Covered.op held parted)
      intro d p live _
      exact live.of_dir dir_split

theorem Held.step (held : s.Held) (laid : s.Laid) (settled : s.SettledExit label)
    (step : Step label s s') : s'.Held := by
  cases step with
  | minor minors => exact held.minors minors
  | major major minors => exact (held.major laid settled major).minors minors

/-- A fault that finds no frame has given up one reference all the same. -/
theorem Held.exhausted (held : s.Held) (exhausted : Exhausted label s s') : s'.Held := by
  obtain ⟨addr, value, home, _, owner, reach, many, rfl⟩ := exhausted
  apply held.mono held_finite
  · intro d p f at'
    obtain ⟨live, present, same⟩ := Mm.table_maps.mp at'
    exact Mm.table_maps.mpr ⟨live, present, same⟩
  · intro f used
    refine ⟨used, ?_⟩
    show BitVec.toNat (Mm.cowCountMem _ f) ≤ (s.mm.cowCountMem f).toNat
    have two : 2 ≤ (s.mm.cowCountMem (s.frame home (addr.toNat / pageSize))).toNat := many
    unfold released
    rw [Mm.cowCountMem_setCow]
    split
    · rename_i same
      rw [same, BitVec.toNat_sub]
      have one : (1 : Byte).toNat = 1 := rfl
      rw [one]
      omega
    · exact Nat.le_refl _

/-- The frames of the first process are all mapped. -/
theorem Initial.held (init : s.Initial) : s.Held := by
  refine ⟨held_finite, fun f used => ?_⟩
  obtain ⟨low, notCode, marked⟩ := used
  rw [init.fresh.phys] at marked
  have holds : f < numPagKernel ∨ ∃ i < numPagCode + numPagData, f = codeFrame i := by
    by_contra free
    rw [if_neg free] at marked
    cases marked
  obtain ⟨i, below, place⟩ := holds.resolve_left (by omega)
  have data : ¬ i < numPagCode := fun code => notCode i code place
  have entry := init.fresh.data (i - numPagCode) (by omega)
  rw [Nat.add_sub_cancel' (Nat.le_of_not_lt data), ← place] at entry
  have maps : (8, pagLogInitData + (i - numPagCode)) ∈ (s.mm.table s.Live).places f := by
    apply Mm.table_maps.mpr
    refine ⟨⟨⟨1, init.firstDir⟩, Nat.le_add_right .., ?_⟩, ?_, ?_⟩
    · obtain ⟨_, first, last, _⟩ := Mm.regions
      simp only [numPagCode, numPagData] at below ⊢
      omega
    · rw [entry]
    · rw [Mm.getFrame, entry]
  have some := (Set.ncard_pos (held_finite f)).mpr ⟨_, maps⟩
  have zero : (s.mm.table s.Live).count f = 0 := congrArg BitVec.toNat (init.fresh.cow f)
  rw [zero]
  omega

instance (home : DirId) : Decidable (s.Settled home) :=
  decidable_of_iff (∀ i < pagLogInitHeap + 1 - pagLogInitData,
      (s.mm.getEntry home (pagLogInitData + i)).present = true →
        s.OwnPage s.current (pagLogInitData + i)) (by
    constructor
    · intro settled p low high present
      have place : pagLogInitData + (p - pagLogInitData) = p := Nat.add_sub_cancel' low
      have here := settled (p - pagLogInitData) (by omega)
      rw [place] at here
      exact here present
    · intro settled i below present
      exact settled _ (Nat.le_add_right ..) (by omega) present)

instance : Decidable (s.SettledExit label) :=
  inferInstanceAs (Decidable (∀ home : DirId, label = some (.call .exit) →
    s.dir s.current = some home → (∀ t, s.dir t = some home → t = s.current) → s.Settled home))

end Space

/-! ### What the last exit gives back -/

namespace Mm

variable {m m' : Mm} {d : DirId}

theorem freeFrame_congr {frame : Nat} (phys : m'.physMem = m.physMem)
    (cow : m'.cowCountMem = m.cowCountMem) :
    (m'.freeFrame frame).physMem = (m.freeFrame frame).physMem ∧
      (m'.freeFrame frame).cowCountMem = (m.freeFrame frame).cowCountMem := by
  have counts : (m'.freeFrame frame).cowCountMem = (m.freeFrame frame).cowCountMem := by
    funext f
    rw [cowCountMem_freeFrame, cowCountMem_freeFrame, cow]
  refine ⟨?_, counts⟩
  funext f
  rw [physMem_freeFrame, physMem_freeFrame, counts, phys]

/-- The references that `free_user_pages` gives back are those of the entries it found. -/
theorem dropAll_frames {pairs : List (Nat × Nat)} (orderly : Orderly pairs) :
    (dropAll d pairs m).physMem =
      ((pairs.map Prod.fst).foldl (fun m' p => m'.freeFrame (m.getFrame d p)) m).physMem ∧
    (dropAll d pairs m).cowCountMem =
      ((pairs.map Prod.fst).foldl (fun m' p => m'.freeFrame (m.getFrame d p)) m).cowCountMem := by
  have rule := Loop.foldl_invariant pairs
    (fun m pair => (m.freeFrame (m.getFrame d pair.1)).setEntry d pair.2 noEntry) m
    (fun done m' => Dropped m m' d done ∧ m'.physMem =
      ((done.map Prod.fst).foldl (fun m' p => m'.freeFrame (m.getFrame d p)) m).physMem ∧
      m'.cowCountMem =
        ((done.map Prod.fst).foldl (fun m' p => m'.freeFrame (m.getFrame d p)) m).cowCountMem)
    ⟨Dropped.refl, rfl, rfl⟩ ?_
  · exact rule.2
  · intro done pair rest m' whole holds
    obtain ⟨dropped, phys, cow⟩ := holds
    have source : m'.getFrame d pair.1 = m.getFrame d pair.1 := by
      rw [whole] at orderly
      rw [getFrame, dropped.source orderly]
      rfl
    have both := @freeFrame_congr _ m' (m.getFrame d pair.1) phys cow
    rw [List.map_append, List.foldl_append]
    refine ⟨dropped.next pair, ?_, ?_⟩
    · rw [physMem_setEntry, source]
      exact both.1
    · rw [cowCountMem_setEntry, source]
      exact both.2

end Mm

namespace Space

/-- A settled page table maps the pages of its last task, and these are released. -/
theorem release_frames {s : Space} {home : DirId} (laid : s.Laid) (busy : s.current ≠ s.idle)
    (owner : s.dir s.current = some home) (settled : s.Settled home) :
    ∃ pages : List Nat, pages.Nodup ∧
      (∀ p, p ∈ pages ↔ pagLogInitData ≤ p ∧ p ≤ pagLogInitHeap ∧
        (s.mm.getEntry home p).present = true) ∧
      (s.release home).mm.physMem =
        (pages.foldl (fun m p => m.freeFrame (s.mm.getFrame home p)) s.mm).physMem ∧
      (s.release home).mm.cowCountMem =
        (pages.foldl (fun m p => m.freeFrame (s.mm.getFrame home p)) s.mm).cowCountMem := by
  have room := (laid.top s.current (housed owner)).2
  refine ⟨Mm.ownPages s.runningPages, Mm.ownPages_nodup room, ?_, ?_⟩
  · intro p
    constructor
    · intro own
      obtain ⟨low, high⟩ := Mm.ownPages_low room own
      exact ⟨low, high, laid.own s.current home p owner busy own⟩
    · intro all
      exact settled p all.1 all.2.1 all.2.2
  · have frames := @Mm.dropAll_frames s.mm home _ (Mm.exitPages_orderly room)
    rw [exitPages_fst] at frames
    unfold release
    dsimp only
    rw [Mm.freeUserPages_eq]
    exact frames

theorem frames_minors {s s' : Space} (minors : Minors s s') :
    s'.mm.physMem = s.mm.physMem ∧ s'.mm.cowCountMem = s.mm.cowCountMem := by
  induction minors with
  | refl => exact ⟨rfl, rfl⟩
  | @tail middle last _ minor ih =>
      have same : last.mm.physMem = middle.mm.physMem ∧
          last.mm.cowCountMem = middle.mm.cowCountMem := by
        cases minor with
        | turn next =>
            unfold turn
            dsimp only
            split
            · exact ⟨rfl, rfl⟩
            · exact ⟨rfl, rfl⟩
        | store _ _ _ => exact ⟨rfl, rfl⟩
        | attempt _ => exact ⟨rfl, rfl⟩
        | miss _ => exact ⟨rfl, rfl⟩
        | write _ _ _ => exact ⟨rfl, rfl⟩
      exact ⟨same.1.trans ih.1, same.2.trans ih.2⟩

end Space

/-- The last task of a directory exits with a settled page table. -/
def settledExit (k : Kernel) (label : Option Action) : Prop := k.space.SettledExit label

instance {k : Kernel} {label : Option Action} : Decidable (settledExit k label) :=
  inferInstanceAs (Decidable (k.space.SettledExit label))

theorem reachable_held {k : Kernel} (reached : Reachable settledExit k) : k.space.Held := by
  have both : (∃ r, Refines k r ∧ Roster.Sound r) ∧ (k.stuck = true ∨ k.space.Laid) ∧
      k.space.Held := by
    apply reached.invariant fun k =>
      (∃ r, Refines k r ∧ Roster.Sound r) ∧ (k.stuck = true ∨ k.space.Laid) ∧ k.space.Held
    · intro k booted
      obtain ⟨image, rfl⟩ := booted
      exact ⟨⟨Roster.boot, boot_refines image, Roster.boot_sound⟩, Or.inr (boot_space image).laid,
        (boot_space image).held⟩
    · intro k label k' before settled stepped
      obtain ⟨⟨r, ref, sound⟩, laid, held⟩ := before
      obtain ⟨r', step, after, _⟩ := ref.step sound stepped
      refine ⟨⟨r', after, sound.step step⟩, ?_⟩
      have laid := laid.resolve_left (stuck_step stepped)
      rcases ref.step_space sound laid stepped with moved | last
      · exact ⟨Or.inr (laid.step moved), held.step laid settled moved⟩
      · exact ⟨Or.inl last.1, held.exhausted last.2⟩
  exact both.2.2

end Zeos
