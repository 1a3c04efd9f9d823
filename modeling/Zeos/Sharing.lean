import Mathlib.Data.Set.Card
import Mathlib.Logic.Relation

set_option autoImplicit false

/-! Frames shared copy-on-write between address spaces: exact reference counts, and
what an address space reads. A count of 0 stands for one writable reference, and a
count of at least 1 for so many read-only references. -/

namespace Sharing

universe u v w x

variable {Δ : Type u} {π : Type v} {φ : Type w} {β : Type x}

/-- The pages of each address space with the frame they map and the right to write to
it, and the frames in use with their counts. -/
structure Table (Δ : Type u) (π : Type v) (φ : Type w) where
  slot : Δ → π → Option (φ × Bool)
  used : φ → Prop
  count : φ → Nat

variable {s s' : Table Δ π φ} {d d' : Δ} {p p' : π} {f g : φ} {w w' : Bool}

/-- Page `p` of space `d` maps frame `f`. -/
def Table.Maps (s : Table Δ π φ) (d : Δ) (p : π) (f : φ) : Prop := ∃ w, s.slot d p = some (f, w)

/-- The spaces that map a frame. -/
def Table.sharers (s : Table Δ π φ) (f : φ) : Set Δ := { d | ∃ p, s.Maps d p f }

/-- The counts are exact: the frames in use are the ones that are mapped, each at one page
of every space that maps it, and the count says how often. -/
structure Exact (s : Table Δ π φ) : Prop where
  page : ∀ {d d' : Δ} {p p' : π} {f : φ}, s.Maps d p f → s.Maps d' p' f → p = p'
  used : ∀ {d : Δ} {p : π} {f : φ}, s.Maps d p f → s.used f
  size : ∀ {f : φ}, s.used f → (s.sharers f).ncard = max 1 (s.count f)
  right : ∀ {d : Δ} {p : π} {f : φ} {w : Bool}, s.slot d p = some (f, w) →
    (w = true ↔ s.count f = 0)

theorem maps_of_slot (at' : s.slot d p = some (f, w)) : s.Maps d p f := ⟨w, at'⟩

/-- A page maps one frame. -/
theorem Maps.unique (at' : s.slot d p = some (f, w)) (maps : s.Maps d p g) : g = f := by
  obtain ⟨w', other⟩ := maps
  rw [at'] at other
  cases other
  rfl

/-- The sharers of a frame, by the page that all of them map it at. -/
theorem Exact.mem_sharers (exact : Exact s) (maps : s.Maps d p f) :
    d' ∈ s.sharers f ↔ s.Maps d' p f := by
  constructor
  · intro member
    obtain ⟨p', other⟩ := member
    rw [exact.page maps other]
    exact other
  · intro other
    exact ⟨p, other⟩

theorem Exact.mapped (exact : Exact s) (used : s.used f) : ∃ d p, s.Maps d p f := by
  have some : (s.sharers f).ncard ≠ 0 := by
    have := exact.size used
    omega
  obtain ⟨d, p, maps⟩ := Set.nonempty_of_ncard_ne_zero some
  exact ⟨d, p, maps⟩

/-- A frame that one space may write to is mapped nowhere else. -/
theorem Exact.alone (exact : Exact s) (single : s.count f ≤ 1) (maps : s.Maps d p f)
    (other : s.Maps d' p' f) : d' = d ∧ p' = p := by
  have size := exact.size (exact.used maps)
  have one : (s.sharers f).ncard = 1 := by omega
  obtain ⟨only, same⟩ := Set.ncard_eq_one.mp one
  have first : d ∈ s.sharers f := ⟨p, maps⟩
  have second : d' ∈ s.sharers f := ⟨p', other⟩
  rw [same, Set.mem_singleton_iff] at first second
  exact ⟨second.trans first.symm, exact.page other maps⟩

theorem Exact.private (exact : Exact s) (at' : s.slot d p = some (f, true))
    (other : s.Maps d' p' f) : d' = d ∧ p' = p := by
  have zero : s.count f = 0 := (exact.right at').mp rfl
  exact exact.alone (by omega) (maps_of_slot at') other

/-- No count exceeds the number of spaces. -/
theorem Exact.count_le [Finite Δ] (exact : Exact s) (used : s.used f) : s.count f ≤ Nat.card Δ := by
  have size := exact.size used
  have most := Set.ncard_le_card (s.sharers f)
  omega

/-- Counts of frames that are not in use do not matter. -/
theorem Exact.congr (exact : Exact s) (slot : s'.slot = s.slot) (used : ∀ f, s'.used f ↔ s.used f)
    (count : ∀ f, s.used f → s'.count f = s.count f) : Exact s' := by
  have maps : s'.Maps = s.Maps := by
    funext d p f
    rw [Table.Maps, Table.Maps, slot]
  have sharers : s'.sharers = s.sharers := by
    funext f
    rw [Table.sharers, Table.sharers, maps]
  constructor
  · rw [maps]
    exact exact.page
  · intro d p f
    rw [maps, used]
    exact exact.used
  · intro f inUse
    rw [sharers, count f ((used f).mp inUse)]
    exact exact.size ((used f).mp inUse)
  · intro d p f w at'
    rw [slot] at at'
    rw [count f (exact.used (maps_of_slot at'))]
    exact exact.right at'

/-! ### One page is changed -/

/-- `s'` is `s` with another slot for page `p` of space `d`. -/
def Changes (s s' : Table Δ π φ) (d : Δ) (p : π) (entry : Option (φ × Bool)) : Prop :=
  s'.slot d p = entry ∧ ∀ d' p', ¬ (d' = d ∧ p' = p) → s'.slot d' p' = s.slot d' p'

variable {entry : Option (φ × Bool)}

theorem Changes.maps (changes : Changes s s' d p entry) (elsewhere : ¬ (d' = d ∧ p' = p)) :
    s'.Maps d' p' f ↔ s.Maps d' p' f := by
  rw [Table.Maps, Table.Maps, changes.2 d' p' elsewhere]

/-- A frame that neither the old nor the new slot maps has the sharers it had. -/
theorem Changes.sharers (changes : Changes s s' d p entry) (before : ¬ s.Maps d p g)
    (after : ¬ s'.Maps d p g) : s'.sharers g = s.sharers g := by
  ext d'
  apply exists_congr
  intro p'
  by_cases here : d' = d ∧ p' = p
  · rw [here.1, here.2]
    exact iff_of_false after before
  · exact changes.maps here

/-- The new table maps at the changed page what the entry says. -/
theorem Changes.here (changes : Changes s s' d p (some (f, w))) : s'.Maps d p g ↔ g = f := by
  constructor
  · exact Maps.unique changes.1
  · rintro rfl
    exact maps_of_slot changes.1

/-- A slot of the new table is the changed one or an old one. -/
theorem Changes.cases (changes : Changes s s' d p entry) (at' : s'.slot d' p' = some (f, w)) :
    (d' = d ∧ p' = p ∧ entry = some (f, w)) ∨ (¬ (d' = d ∧ p' = p) ∧ s.slot d' p' = some (f, w)) := by
  by_cases here : d' = d ∧ p' = p
  · obtain ⟨rfl, rfl⟩ := here
    exact Or.inl ⟨rfl, rfl, changes.1 ▸ at'⟩
  · exact Or.inr ⟨here, changes.2 d' p' here ▸ at'⟩

/-- A space gets a free frame for a vacant page. -/
structure Take (s s' : Table Δ π φ) (d : Δ) (p : π) (f : φ) : Prop where
  changes : Changes s s' d p (some (f, true))
  used : ∀ g, s'.used g ↔ s.used g ∨ g = f
  fresh : s'.count f = 0
  count : ∀ g, g ≠ f → s.used g → s'.count g = s.count g

theorem Exact.take (exact : Exact s) (vacant : s.slot d p = none) (free : ¬ s.used f)
    (take : Take s s' d p f) : Exact s' := by
  obtain ⟨changes, used, fresh, count⟩ := take
  have unmapped : ∀ g, ¬ s.Maps d p g := by
    intro g maps
    obtain ⟨w, at'⟩ := maps
    rw [vacant] at at'
    cases at'
  have unused : ∀ {d' p'}, ¬ s.Maps d' p' f := fun maps => free (exact.used maps)
  -- whatever maps the new frame is the new slot
  have only : ∀ {d' p'}, s'.Maps d' p' f → d' = d ∧ p' = p := by
    intro d' p' maps
    by_contra elsewhere
    exact unused ((changes.maps elsewhere).mp maps)
  have others : ∀ {g d' p'}, g ≠ f → (s'.Maps d' p' g ↔ s.Maps d' p' g) := by
    intro g d' p' different
    by_cases here : d' = d ∧ p' = p
    · rw [here.1, here.2]
      exact iff_of_false (fun maps => different (changes.here.mp maps)) (unmapped g)
    · exact changes.maps here
  constructor
  · intro d₁ d₂ p₁ p₂ g first second
    by_cases own : g = f
    · subst own
      rw [(only first).2, (only second).2]
    · exact exact.page ((others own).mp first) ((others own).mp second)
  · intro d' p' g maps
    rw [used]
    by_cases own : g = f
    · exact Or.inr own
    · exact Or.inl (exact.used ((others own).mp maps))
  · intro g inUse
    by_cases own : g = f
    · subst own
      have single : s'.sharers g = {d} := by
        ext d'
        rw [Set.mem_singleton_iff]
        constructor
        · intro member
          obtain ⟨p', maps⟩ := member
          exact (only maps).1
        · rintro rfl
          exact ⟨p, changes.here.mpr rfl⟩
      rw [single, Set.ncard_singleton, fresh]
      rfl
    · have before : s.used g := ((used g).mp inUse).resolve_right own
      rw [changes.sharers (unmapped g) (fun maps => own (changes.here.mp maps)),
        count g own before]
      exact exact.size before
  · intro d' p' g w at'
    rcases changes.cases at' with ⟨_, _, same⟩ | ⟨_, before⟩
    · cases same
      exact iff_of_true rfl fresh
    · have maps := maps_of_slot before
      have own : g ≠ f := by
        rintro rfl
        exact unused maps
      rw [count g own (exact.used maps)]
      exact exact.right before

/-- A space gives up a page. A count from `bound` on may be taken for 0. -/
structure Drop (bound : Nat) (s s' : Table Δ π φ) (d : Δ) (p : π) (f : φ) : Prop where
  changes : Changes s s' d p none
  used : ∀ g, s'.used g → s.used g ∧ (g = f → 2 ≤ s.count f)
  kept : ∀ g, s.used g → (g = f → 2 ≤ s.count f ∧ s.count f < bound) → s'.used g
  own : s'.used f → s'.count f + 1 = s.count f
  count : ∀ g, g ≠ f → s.used g → s'.count g = s.count g

theorem Exact.drop (exact : Exact s) {bound : Nat} (small : s.count f < bound)
    (at' : s.slot d p = some (f, w)) (drop : Drop bound s s' d p f) : Exact s' := by
  obtain ⟨changes, used, kept, own, count⟩ := drop
  have maps := maps_of_slot at'
  have gone : ∀ g, ¬ s'.Maps d p g := by
    intro g after
    obtain ⟨w, slot⟩ := after
    rw [changes.1] at slot
    cases slot
  have before : ∀ {d' p' g}, s'.Maps d' p' g → s.Maps d' p' g := by
    intro d' p' g after
    by_cases here : d' = d ∧ p' = p
    · rw [here.1, here.2] at after
      exact absurd after (gone g)
    · exact (changes.maps here).mp after
  -- a frame that is still mapped has another sharer
  have shared : ∀ {d' p'}, s'.Maps d' p' f → 2 ≤ s.count f := by
    intro d' p' after
    by_contra few
    have same := exact.alone (by omega) maps (before after)
    rw [same.1, same.2] at after
    exact gone f after
  have used' : ∀ {d' p' g}, s'.Maps d' p' g → s'.used g := by
    intro d' p' g after
    apply kept g (exact.used (before after))
    rintro rfl
    exact ⟨shared after, small⟩
  have counted : ∀ {g}, s'.used g → s.used g ∧
      (g = f ∧ s'.count g + 1 = s.count g ∧ 1 ≤ s'.count g ∨ g ≠ f ∧ s'.count g = s.count g) := by
    intro g inUse
    obtain ⟨usedBefore, many⟩ := used g inUse
    refine ⟨usedBefore, ?_⟩
    by_cases mine : g = f
    · subst mine
      have two := many rfl
      have := own inUse
      exact Or.inl ⟨rfl, this, by omega⟩
    · exact Or.inr ⟨mine, count g mine usedBefore⟩
  constructor
  · intro d₁ d₂ p₁ p₂ g first second
    exact exact.page (before first) (before second)
  · exact used'
  · intro g inUse
    obtain ⟨usedBefore, ⟨rfl, less, some⟩ | ⟨mine, same⟩⟩ := counted inUse
    · have left : s'.sharers g = s.sharers g \ {d} := by
        ext d'
        rw [Set.mem_sdiff, Set.mem_singleton_iff, exact.mem_sharers maps]
        constructor
        · intro member
          obtain ⟨p', after⟩ := member
          have page := exact.page (before after) maps
          subst page
          refine ⟨before after, ?_⟩
          rintro rfl
          exact gone g after
        · intro both
          exact ⟨p, (changes.maps fun here => both.2 here.1).mpr both.1⟩
      have size := exact.size usedBefore
      have positive : 0 < (s.sharers g).ncard := by omega
      have finite := Set.finite_of_ncard_pos positive
      have member : d ∈ s.sharers g := ⟨p, maps⟩
      have one := Set.ncard_sdiff_singleton_add_one member finite
      rw [left]
      omega
    · have kept : s'.sharers g = s.sharers g := by
        apply changes.sharers
        · intro both
          exact mine (Maps.unique at' both)
        · exact gone g
      rw [kept, same]
      exact exact.size usedBefore
  · intro d' p' g w' after
    have inUse := used' (maps_of_slot after)
    rcases changes.cases after with ⟨_, _, impossible⟩ | ⟨_, slot⟩
    · cases impossible
    · obtain ⟨_, ⟨rfl, less, some⟩ | ⟨_, same⟩⟩ := counted inUse
      · rw [exact.right slot]
        omega
      · rw [same]
        exact exact.right slot

/-- The only reference to a frame becomes writable again. -/
structure Own (s s' : Table Δ π φ) (d : Δ) (p : π) (f : φ) : Prop where
  changes : Changes s s' d p (some (f, true))
  used : ∀ g, s'.used g ↔ s.used g
  own : s'.count f = 0
  count : ∀ g, g ≠ f → s.used g → s'.count g = s.count g

theorem Exact.own (exact : Exact s) (at' : s.slot d p = some (f, w)) (single : s.count f = 1)
    (own : Own s s' d p f) : Exact s' := by
  obtain ⟨changes, used, fresh, count⟩ := own
  have maps := maps_of_slot at'
  have same : ∀ {d' p' g}, s'.Maps d' p' g ↔ s.Maps d' p' g := by
    intro d' p' g
    by_cases here : d' = d ∧ p' = p
    · rw [here.1, here.2, changes.here]
      exact ⟨fun mine => mine ▸ maps, Maps.unique at'⟩
    · exact changes.maps here
  constructor
  · intro d₁ d₂ p₁ p₂ g first second
    exact exact.page (same.mp first) (same.mp second)
  · intro d' p' g after
    exact (used g).mpr (exact.used (same.mp after))
  · intro g inUse
    have kept : s'.sharers g = s.sharers g := by
      ext d'
      exact exists_congr fun p' => same
    have size := exact.size ((used g).mp inUse)
    rw [kept]
    by_cases mine : g = f
    · subst mine
      rw [size, single, fresh]
      rfl
    · rw [size, count g mine ((used g).mp inUse)]
  · intro d' p' g w' after
    rcases changes.cases after with ⟨_, _, equal⟩ | ⟨elsewhere, slot⟩
    · cases equal
      exact iff_of_true rfl fresh
    · have mine : g ≠ f := by
        rintro rfl
        exact elsewhere (exact.alone (by omega) maps (maps_of_slot slot))
      rw [count g mine (exact.used (maps_of_slot slot))]
      exact exact.right slot

/-- A space gets a frame of its own for a page that it shared. -/
structure Split (s s' : Table Δ π φ) (d : Δ) (p : π) (f g : φ) : Prop where
  changes : Changes s s' d p (some (g, true))
  used : ∀ h, s'.used h ↔ s.used h ∨ h = g
  own : s'.count f + 1 = s.count f
  fresh : s'.count g = 0
  count : ∀ h, h ≠ f → h ≠ g → s.used h → s'.count h = s.count h

/-- To split is to drop the page and to take it again. -/
theorem Exact.split (exact : Exact s) (at' : s.slot d p = some (f, w)) (many : 2 ≤ s.count f)
    (free : ¬ s.used g) (split : Split s s' d p f g) : Exact s' := by
  classical
  obtain ⟨changes, used, own, fresh, count⟩ := split
  let middle : Table Δ π φ :=
    { slot := Function.update s.slot d (Function.update (s.slot d) p none)
      used := s.used
      count := Function.update s.count f (s.count f - 1) }
  have vacant : middle.slot d p = none := by
    simp only [middle, Function.update_self]
  have elsewhere : ∀ d' p', ¬ (d' = d ∧ p' = p) → middle.slot d' p' = s.slot d' p' := by
    intro d' p' out
    simp only [middle, Function.update_apply]
    split
    · rename_i space
      rw [space, Function.update_of_ne fun page => out ⟨space, page⟩]
    · rfl
  have dropped : Exact middle := by
    apply exact.drop (Nat.lt_succ_self _) at'
    refine ⟨⟨vacant, elsewhere⟩, ?_, ?_, ?_, ?_⟩
    · intro h inUse
      exact ⟨inUse, fun _ => many⟩
    · intro h inUse _
      exact inUse
    · intro _
      simp only [middle, Function.update_self]
      omega
    · intro h other _
      simp only [middle, Function.update_of_ne other]
  have apart : f ≠ g := by
    rintro rfl
    exact free (exact.used (maps_of_slot at'))
  apply dropped.take vacant free
  refine ⟨⟨changes.1, ?_⟩, used, fresh, ?_⟩
  · intro d' p' out
    rw [changes.2 d' p' out, elsewhere d' p' out]
  · intro h other inUse
    simp only [middle]
    by_cases mine : h = f
    · rw [mine, Function.update_self]
      omega
    · rw [Function.update_of_ne mine]
      exact count h mine other inUse

/-- A page of one space becomes a page of another too; both may only read it. Counts are
exact below `bound`. -/
structure Share (bound : Nat) (s s' : Table Δ π φ) (d d' : Δ) (p : π) (f : φ) : Prop where
  source : s'.slot d p = some (f, false)
  dest : s'.slot d' p = some (f, false)
  others : ∀ d₁ p₁, ¬ (p₁ = p ∧ (d₁ = d ∨ d₁ = d')) → s'.slot d₁ p₁ = s.slot d₁ p₁
  used : ∀ g, s'.used g ↔ s.used g
  own : s.count f + 1 < bound → s'.count f = max 1 (s.count f) + 1
  most : s'.count f ≤ max 1 (s.count f) + 1
  count : ∀ g, g ≠ f → s.used g → s'.count g = s.count g

theorem Exact.share (exact : Exact s) {bound : Nat} (small : s.count f + 1 < bound)
    (at' : s.slot d p = some (f, w)) (vacant : s.slot d' p = none)
    (share : Share bound s s' d d' p f) : Exact s' := by
  obtain ⟨source, dest, others, used, own, _, count⟩ := share
  have own := own small
  have maps := maps_of_slot at'
  have unmapped : ∀ g, ¬ s.Maps d' p g := by
    intro g before
    obtain ⟨w, slot⟩ := before
    rw [vacant] at slot
    cases slot
  have cases : ∀ {d₁ p₁ g}, s'.Maps d₁ p₁ g ↔ s.Maps d₁ p₁ g ∨ d₁ = d' ∧ p₁ = p ∧ g = f := by
    intro d₁ p₁ g
    by_cases here : p₁ = p ∧ (d₁ = d ∨ d₁ = d')
    · obtain ⟨rfl, rfl | rfl⟩ := here
      · constructor
        · intro after
          exact Or.inl (Maps.unique source after ▸ maps)
        · rintro (before | ⟨_, _, rfl⟩)
          · rw [Maps.unique at' before]
            exact maps_of_slot source
          · exact maps_of_slot source
      · constructor
        · intro after
          exact Or.inr ⟨rfl, rfl, Maps.unique dest after⟩
        · rintro (before | ⟨_, _, rfl⟩)
          · exact absurd before (unmapped g)
          · exact maps_of_slot dest
    · have kept : s'.Maps d₁ p₁ g ↔ s.Maps d₁ p₁ g := by
        rw [Table.Maps, Table.Maps, others d₁ p₁ here]
      rw [kept]
      constructor
      · exact Or.inl
      · rintro (before | ⟨space, page, _⟩)
        · exact before
        · exact absurd ⟨page, Or.inr space⟩ here
  have page : ∀ {d₁ p₁}, s'.Maps d₁ p₁ f → p₁ = p := by
    intro d₁ p₁ after
    rcases cases.mp after with before | ⟨_, same, _⟩
    · exact exact.page before maps
    · exact same
  have before : ∀ {d₁ p₁ g}, g ≠ f → s'.Maps d₁ p₁ g → s.Maps d₁ p₁ g := by
    intro d₁ p₁ g mine after
    exact (cases.mp after).resolve_right fun new => mine new.2.2
  constructor
  · intro d₁ d₂ p₁ p₂ g first second
    by_cases mine : g = f
    · subst mine
      rw [page first, page second]
    · exact exact.page (before mine first) (before mine second)
  · intro d₁ p₁ g after
    rw [used]
    rcases cases.mp after with old | ⟨_, _, rfl⟩
    · exact exact.used old
    · exact exact.used maps
  · intro g inUse
    have size := exact.size ((used g).mp inUse)
    by_cases mine : g = f
    · subst mine
      have one : s'.sharers g = insert d' (s.sharers g) := by
        ext d₁
        rw [Set.mem_insert_iff, exact.mem_sharers maps]
        constructor
        · intro member
          obtain ⟨p₁, after⟩ := member
          have here := page after
          subst here
          exact (cases.mp after).elim Or.inr fun new => Or.inl new.1
        · intro either
          refine ⟨p, cases.mpr ?_⟩
          exact either.elim (fun new => Or.inr ⟨new, rfl, rfl⟩) Or.inl
      have positive : 0 < (s.sharers g).ncard := by omega
      have absent : d' ∉ s.sharers g := by
        rw [exact.mem_sharers maps]
        exact unmapped g
      rw [one, Set.ncard_insert_of_notMem absent (Set.finite_of_ncard_pos positive), size, own]
      omega
    · have kept : s'.sharers g = s.sharers g := by
        ext d₁
        apply exists_congr
        intro p₁
        exact ⟨before mine, fun old => cases.mpr (Or.inl old)⟩
      rw [kept, size, count g mine ((used g).mp inUse)]
  · intro d₁ p₁ g w' after
    by_cases here : p₁ = p ∧ (d₁ = d ∨ d₁ = d')
    · have slot : s'.slot d₁ p₁ = some (f, false) := by
        obtain ⟨rfl, rfl | rfl⟩ := here
        · exact source
        · exact dest
      rw [slot] at after
      cases after
      rw [own]
      exact iff_of_false (by decide) (by omega)
    · rw [others d₁ p₁ here] at after
      have old := maps_of_slot after
      by_cases mine : g = f
      · subst mine
        -- an old sharer other than the source: the frame was shared before
        have shared : 2 ≤ s.count g := by
          by_contra few
          have same := exact.alone (by omega) maps old
          exact here ⟨same.2, Or.inl same.1⟩
        rw [exact.right after, own]
        exact iff_of_false (by omega) (by omega)
      · rw [count g mine (exact.used old)]
        exact exact.right after

/-! ### Any operation -/

inductive Op (bound : Nat) : Table Δ π φ → Table Δ π φ → Prop where
  | take {s s' : Table Δ π φ} {d : Δ} {p : π} {f : φ} : s.slot d p = none → ¬ s.used f →
      Take s s' d p f → Op bound s s'
  | drop {s s' : Table Δ π φ} {d : Δ} {p : π} {f : φ} {w : Bool} : s.slot d p = some (f, w) →
      Drop bound s s' d p f → Op bound s s'
  | own {s s' : Table Δ π φ} {d : Δ} {p : π} {f : φ} {w : Bool} : s.slot d p = some (f, w) →
      s.count f = 1 → Own s s' d p f → Op bound s s'
  | split {s s' : Table Δ π φ} {d : Δ} {p : π} {f g : φ} {w : Bool} :
      s.slot d p = some (f, w) → 2 ≤ s.count f → ¬ s.used g → Split s s' d p f g → Op bound s s'
  | share {s s' : Table Δ π φ} {d d' : Δ} {p : π} {f : φ} {w : Bool} :
      s.slot d p = some (f, w) → s.slot d' p = none → Share bound s s' d d' p f → Op bound s s'
  | revive {s s' : Table Δ π φ} {d : Δ} {p : π} {f : φ} {w : Bool} : s.slot d p = some (f, w) →
      ¬ s.used f → Take s s' d p f → Op bound s s'

abbrev Ops (bound : Nat) : Table Δ π φ → Table Δ π φ → Prop := Relation.ReflTransGen (Op bound)

variable {bound : Nat}

theorem Exact.op [Finite Δ] (exact : Exact s) (room : Nat.card Δ + 1 < bound)
    (op : Op bound s s') : Exact s' := by
  have small : ∀ {d p f w}, s.slot d p = some (f, w) → s.count f + 1 < bound := by
    intro d p f w at'
    have most := exact.count_le (exact.used (maps_of_slot at'))
    omega
  cases op with
  | take vacant free take => exact exact.take vacant free take
  | drop at' drop => exact exact.drop (Nat.lt_of_succ_lt (small at')) at' drop
  | own at' single own => exact exact.own at' single own
  | split at' many free split => exact exact.split at' many free split
  | share at' vacant share => exact exact.share (small at') at' vacant share
  | revive at' unused _ => exact absurd (exact.used (maps_of_slot at')) unused

theorem Exact.ops [Finite Δ] (exact : Exact s) (room : Nat.card Δ + 1 < bound)
    (ops : Ops bound s s') : Exact s' := by
  induction ops with
  | refl => exact exact
  | tail _ op ih => exact ih.op room op

/-! ### Enough references -/

/-- The pages that map a frame. -/
def Table.places (s : Table Δ π φ) (f : φ) : Set (Δ × π) := { place | s.Maps place.1 place.2 f }

/-- No frame in use is lost: it has at least as many pages as its count says. -/
structure Covered (s : Table Δ π φ) : Prop where
  finite : ∀ f, (s.places f).Finite
  enough : ∀ f, s.used f → max 1 (s.count f) ≤ (s.places f).ncard

theorem Covered.mapped (covered : Covered s) (used : s.used f) : ∃ d p, s.Maps d p f := by
  have some : (s.places f).ncard ≠ 0 := by
    have := covered.enough f used
    omega
  obtain ⟨place, maps⟩ := Set.nonempty_of_ncard_ne_zero some
  exact ⟨place.1, place.2, maps⟩

/-- More pages may count, and fewer frames be in use. -/
theorem Covered.mono (covered : Covered s) (finite : ∀ f, (s'.places f).Finite)
    (maps : ∀ d p f, s.Maps d p f → s'.Maps d p f)
    (used : ∀ f, s'.used f → s.used f ∧ s'.count f ≤ s.count f) : Covered s' where
  finite := finite
  enough f inUse := by
    obtain ⟨before, same⟩ := used f inUse
    have more : s.places f ⊆ s'.places f := fun place => maps place.1 place.2 f
    have := Set.ncard_le_ncard more (finite f)
    have := covered.enough f before
    omega

theorem Changes.gain (changes : Changes s s' d p entry) (here : s'.Maps d p g) :
    s'.places g = insert (d, p) (s.places g) := by
  ext place
  obtain ⟨d', p'⟩ := place
  rw [Set.mem_insert_iff, Prod.mk.injEq]
  by_cases same : d' = d ∧ p' = p
  · apply iff_of_true
    · rw [same.1, same.2]
      exact here
    · exact Or.inl same
  · rw [or_iff_right same]
    exact changes.maps same

theorem Changes.loss (changes : Changes s s' d p entry) (gone : ¬ s'.Maps d p g) :
    s'.places g = s.places g \ {(d, p)} := by
  ext place
  obtain ⟨d', p'⟩ := place
  rw [Set.mem_sdiff, Set.mem_singleton_iff, Prod.mk.injEq]
  by_cases same : d' = d ∧ p' = p
  · apply iff_of_false
    · rw [same.1, same.2]
      exact gone
    · exact fun both => both.2 same
  · rw [and_iff_left same]
    exact changes.maps same

/-- A frame that the page maps neither before nor after keeps its pages. -/
theorem Changes.still (changes : Changes s s' d p entry) (before : ¬ s.Maps d p g)
    (after : ¬ s'.Maps d p g) : s'.places g = s.places g := by
  have outside : (d, p) ∉ s.places g := before
  rw [changes.loss after, Set.sdiff_singleton_eq_self outside]

theorem Changes.finite (changes : Changes s s' d p entry) (finite : (s.places g).Finite) :
    (s'.places g).Finite := by
  by_cases here : s'.Maps d p g
  · rw [changes.gain here]
    exact finite.insert _
  · rw [changes.loss here]
    exact finite.sdiff

theorem Covered.take (covered : Covered s) (vacant : s.slot d p = none) (take : Take s s' d p f) :
    Covered s' := by
  obtain ⟨changes, used, fresh, count⟩ := take
  refine ⟨fun g => changes.finite (covered.finite g), fun g inUse => ?_⟩
  have unmapped : (d, p) ∉ s.places g := by
    intro maps
    obtain ⟨w, at'⟩ := maps
    rw [vacant] at at'
    cases at'
  by_cases mine : g = f
  · subst mine
    rw [changes.gain (changes.here.mpr rfl), fresh,
      Set.ncard_insert_of_notMem unmapped (covered.finite g)]
    omega
  · have before := ((used g).mp inUse).resolve_right mine
    rw [changes.still unmapped fun maps => mine (changes.here.mp maps), count g mine before]
    exact covered.enough g before

/-- A page that maps a free frame gets that very frame. -/
theorem Covered.revive (covered : Covered s) (at' : s.slot d p = some (f, w))
    (take : Take s s' d p f) : Covered s' := by
  obtain ⟨changes, used, fresh, count⟩ := take
  refine ⟨fun g => changes.finite (covered.finite g), fun g inUse => ?_⟩
  by_cases mine : g = f
  · subst mine
    have finite := changes.finite (covered.finite g)
    have here : (d, p) ∈ s'.places g := changes.here.mpr rfl
    have some := (Set.ncard_pos finite).mpr ⟨_, here⟩
    omega
  · have before := ((used g).mp inUse).resolve_right mine
    rw [changes.still (fun maps => mine (Maps.unique at' maps))
      (fun maps => mine (changes.here.mp maps)), count g mine before]
    exact covered.enough g before

theorem Covered.drop (covered : Covered s) (at' : s.slot d p = some (f, w))
    (drop : Drop bound s s' d p f) : Covered s' := by
  obtain ⟨changes, used, _, own, count⟩ := drop
  refine ⟨fun g => changes.finite (covered.finite g), fun g inUse => ?_⟩
  obtain ⟨before, many⟩ := used g inUse
  have gone : ¬ s'.Maps d p g := by
    intro after
    obtain ⟨w, slot⟩ := after
    rw [changes.1] at slot
    cases slot
  have enough := covered.enough g before
  by_cases mine : g = f
  · subst mine
    have maps : (d, p) ∈ s.places g := maps_of_slot at'
    have one := Set.ncard_sdiff_singleton_add_one maps (covered.finite g)
    have two := many rfl
    have less := own inUse
    rw [changes.loss gone]
    omega
  · rw [changes.still (fun maps => mine (Maps.unique at' maps)) gone, count g mine before]
    exact enough

theorem Covered.own (covered : Covered s) (at' : s.slot d p = some (f, w))
    (single : s.count f = 1) (own : Own s s' d p f) : Covered s' := by
  obtain ⟨changes, used, fresh, count⟩ := own
  refine ⟨fun g => changes.finite (covered.finite g), fun g inUse => ?_⟩
  have enough := covered.enough g ((used g).mp inUse)
  by_cases mine : g = f
  · subst mine
    have maps : (d, p) ∈ s.places g := maps_of_slot at'
    rw [changes.gain (changes.here.mpr rfl), Set.insert_eq_of_mem maps, fresh]
    omega
  · rw [changes.still (fun maps => mine (Maps.unique at' maps))
      (fun maps => mine (changes.here.mp maps)), count g mine ((used g).mp inUse)]
    exact enough

theorem Covered.split (covered : Covered s) (at' : s.slot d p = some (f, w))
    (many : 2 ≤ s.count f) (split : Split s s' d p f g) : Covered s' := by
  obtain ⟨changes, used, own, fresh, count⟩ := split
  have apart : f ≠ g := by
    rintro rfl
    omega
  refine ⟨fun h => changes.finite (covered.finite h), fun h inUse => ?_⟩
  by_cases new : h = g
  · subst new
    have unmapped : (d, p) ∉ s.places h := fun maps => apart (Maps.unique at' maps).symm
    rw [changes.gain (changes.here.mpr rfl), fresh,
      Set.ncard_insert_of_notMem unmapped (covered.finite h)]
    omega
  · have before := ((used h).mp inUse).resolve_right new
    have gone : ¬ s'.Maps d p h := fun maps => new (changes.here.mp maps)
    have enough := covered.enough h before
    by_cases mine : h = f
    · subst mine
      have maps : (d, p) ∈ s.places h := maps_of_slot at'
      have one := Set.ncard_sdiff_singleton_add_one maps (covered.finite h)
      rw [changes.loss gone]
      omega
    · rw [changes.still (fun maps => mine (Maps.unique at' maps)) gone, count h mine new before]
      exact enough

theorem Covered.share (covered : Covered s) (at' : s.slot d p = some (f, w))
    (vacant : s.slot d' p = none) (share : Share bound s s' d d' p f) : Covered s' := by
  classical
  obtain ⟨source, dest, others, used, _, most, count⟩ := share
  have unmapped : ∀ g, (d', p) ∉ s.places g := by
    intro g maps
    obtain ⟨w, slot⟩ := maps
    rw [vacant] at slot
    cases slot
  have places : ∀ g, s'.places g = if g = f then insert (d', p) (s.places f) else s.places g := by
    intro g
    ext place
    obtain ⟨d₁, p₁⟩ := place
    by_cases here : p₁ = p ∧ (d₁ = d ∨ d₁ = d')
    · have slot : s'.slot d₁ p₁ = some (f, false) := by
        obtain ⟨rfl, rfl | rfl⟩ := here
        · exact source
        · exact dest
      split
      · rename_i mine
        apply iff_of_true
        · rw [mine]
          exact maps_of_slot slot
        · rw [Set.mem_insert_iff]
          obtain ⟨rfl, rfl | rfl⟩ := here
          · exact Or.inr (maps_of_slot at')
          · exact Or.inl rfl
      · rename_i mine
        apply iff_of_false
        · exact fun maps => mine (Maps.unique slot maps)
        · obtain ⟨rfl, rfl | rfl⟩ := here
          · exact fun maps => mine (Maps.unique at' maps)
          · exact unmapped g
    · have same : s'.Maps d₁ p₁ g ↔ s.Maps d₁ p₁ g := by
        rw [Table.Maps, Table.Maps, others d₁ p₁ here]
      split
      · rename_i mine
        rw [Set.mem_insert_iff, Prod.mk.injEq, or_iff_right, ← mine]
        · exact same
        · exact fun both => here ⟨both.2, Or.inr both.1⟩
      · exact same
  constructor
  · intro g
    rw [places]
    split
    · exact (covered.finite f).insert _
    · exact covered.finite g
  · intro g inUse
    have before := (used g).mp inUse
    have enough := covered.enough g before
    rw [places]
    by_cases mine : g = f
    · subst mine
      rw [if_pos rfl, Set.ncard_insert_of_notMem (unmapped g) (covered.finite g)]
      omega
    · rw [if_neg mine, count g mine before]
      exact enough

theorem Covered.op (covered : Covered s) (op : Op bound s s') : Covered s' := by
  cases op with
  | take vacant _ take => exact covered.take vacant take
  | drop at' drop => exact covered.drop at' drop
  | own at' single own => exact covered.own at' single own
  | split at' many _ split => exact covered.split at' many split
  | share at' vacant share => exact covered.share at' vacant share
  | revive at' _ take => exact covered.revive at' take

theorem Covered.ops (covered : Covered s) (ops : Ops bound s s') : Covered s' := by
  induction ops with
  | refl => exact covered
  | tail _ op ih => exact ih.op op

end Sharing
