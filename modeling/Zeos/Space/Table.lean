import Zeos.Sharing
import Zeos.Space.Boot

set_option autoImplicit false

/-! The pages that count as references to a frame, as a table of shared frames: every
change that the kernel makes to it is a few operations on frames. -/

namespace Zeos

open Sharing (Table Op Ops Take Drop Own Split Share Changes)

/-- The frame of a tracked page is one that counts. -/
theorem UserFrame.kernel {frame : Nat} (user : UserFrame frame) : numPagKernel < frame ∧ frame < totalPages := by
  obtain ⟨low, high, _⟩ := userFrame_iff.mp user
  simp only [codeFrame, numPagCode, numPagKernel] at low ⊢
  omega

theorem UserFrame.code {frame : Nat} (user : UserFrame frame) : ∀ i < numPagCode, frame ≠ codeFrame i :=
  fun i below same => user.2 (Or.inr ⟨i, below, same⟩)

namespace Mm

variable {m m' : Mm} {tracked tracked' : DirId → Nat → Prop} {d d' home dir : DirId}
  {p page frame f : Nat}

/-- A count below this one is a `signed char` that `free_frame` takes for a count. -/
abbrev bound : Nat := 128

open Classical in
/-- The present entries of the tracked pages, with the frames in use that hold no code. -/
noncomputable def table (m : Mm) (tracked : DirId → Nat → Prop) : Table DirId Nat Nat where
  slot d p := if tracked d p ∧ (m.getEntry d p).present = true then
    some (m.getFrame d p, (m.getEntry d p).rw) else none
  used f := numPagKernel ≤ f ∧ (∀ i < numPagCode, f ≠ codeFrame i) ∧ m.physMem f = USED_FRAME
  count f := (m.cowCountMem f).toNat

theorem slot_of (here : tracked d p) (present : (m.getEntry d p).present = true) :
    (m.table tracked).slot d p = some (m.getFrame d p, (m.getEntry d p).rw) :=
  if_pos ⟨here, present⟩

theorem slot_vacant (gone : ¬ (tracked d p ∧ (m.getEntry d p).present = true)) :
    (m.table tracked).slot d p = none :=
  if_neg gone

theorem slot_congr (same : tracked' d' p ↔ tracked d p) (entry : m'.getEntry d' p = m.getEntry d p) :
    (m'.table tracked').slot d' p = (m.table tracked).slot d p := by
  by_cases here : tracked d p ∧ (m.getEntry d p).present = true
  · rw [slot_of here.1 here.2, slot_of (same.mpr here.1) (by rw [entry]; exact here.2), getFrame,
      getFrame, entry]
  · rw [slot_vacant here, slot_vacant]
    rw [same, entry]
    exact here

theorem table_maps : (m.table tracked).Maps d p f ↔
    tracked d p ∧ (m.getEntry d p).present = true ∧ m.getFrame d p = f := by
  constructor
  · intro maps
    obtain ⟨w, slot⟩ := maps
    by_cases here : tracked d p ∧ (m.getEntry d p).present = true
    · rw [slot_of here.1 here.2] at slot
      cases slot
      exact ⟨here.1, here.2, rfl⟩
    · rw [slot_vacant here] at slot
      cases slot
  · intro all
    obtain ⟨here, present, same⟩ := all
    exact ⟨_, same ▸ slot_of here present⟩

/-- A page table has finitely many pages. -/
theorem places_finite (inside : ∀ d p, tracked d p → p ≤ pagLogInitHeap) :
    ((m.table tracked).places f).Finite := by
  apply (Set.finite_univ.prod (Set.finite_le_nat pagLogInitHeap)).subset
  intro place maps
  exact ⟨trivial, inside place.1 place.2 (table_maps.mp maps).1⟩

theorem used_iff : (m.table tracked).used f ↔
    numPagKernel ≤ f ∧ (∀ i < numPagCode, f ≠ codeFrame i) ∧ m.physMem f = USED_FRAME :=
  Iff.rfl

theorem used_congr (phys : m'.physMem f = m.physMem f) :
    (m'.table tracked').used f ↔ (m.table tracked).used f := by
  rw [used_iff, used_iff, phys]

/-- A free frame is not in use. -/
theorem free_unused (free : f ∈ m.freeFrames) : ¬ (m.table tracked).used f := by
  intro used
  have marked := used.2.2
  rw [(mem_freeFrames.mp free).2] at marked
  cases marked

/-! ### Sharing and releasing one page -/

theorem Byte_succ_le (count : Byte) : (count + 1).toNat ≤ count.toNat + 1 := by
  rw [BitVec.toNat_add]
  exact Nat.mod_le _ _

theorem op_shareCowPage (apart : home ≠ dir) (here : tracked home p)
    (present : (m.getEntry home p).present = true) (vacant : ¬ tracked dir p) :
    Op bound (m.table tracked)
      ((m.shareCowPage home dir p).table fun d q => tracked d q ∨ d = dir ∧ q = p) := by
  have source : (m.shareCowPage home dir p).getEntry home p = { m.getEntry home p with rw := false } := by
    rw [getEntry_shareCowPage apart, if_pos rfl, if_neg apart, if_pos rfl]
  have dest : (m.shareCowPage home dir p).getEntry dir p =
      ⟨true, false, true, m.getFrame home p⟩ := by
    rw [getEntry_shareCowPage apart, if_pos rfl, if_pos rfl]
  have counted : ∀ f, ((m.shareCowPage home dir p).table fun d q =>
      tracked d q ∨ d = dir ∧ q = p).count f =
      if f = m.getFrame home p then
        if m.cowCountMem f = 0 then 2 else (m.cowCountMem f + 1).toNat
      else (m.cowCountMem f).toNat := by
    intro f
    show ((m.shareCowPage home dir p).cowCountMem f).toNat = _
    rw [cowCountMem_shareCowPage]
    split
    · split <;> rfl
    · rfl
  apply Op.share (slot_of here present) (slot_vacant fun both => vacant both.1)
  constructor
  · rw [slot_of (Or.inl here) (by rw [source]; exact present), getFrame, source]
    rfl
  · rw [slot_of (Or.inr ⟨rfl, rfl⟩) (by rw [dest]), getFrame, dest]
  · intro d₁ p₁ out
    apply slot_congr
    · apply or_iff_left
      intro both
      exact out ⟨both.2, Or.inr both.1⟩
    · rw [getEntry_shareCowPage apart]
      split
      · rename_i same
        rw [if_neg fun space => out ⟨same, Or.inr space⟩,
          if_neg fun space => out ⟨same, Or.inl space⟩]
      · rfl
  · intro g
    exact used_congr (by rw [physMem_shareCowPage])
  · intro small
    rw [counted, if_pos rfl]
    change (m.cowCountMem (m.getFrame home p)).toNat + 1 < 128 at small
    show _ = max 1 (m.cowCountMem (m.getFrame home p)).toNat + 1
    split
    · rename_i zero
      rw [zero]
      rfl
    · rename_i some
      have positive : (m.cowCountMem (m.getFrame home p)).toNat ≠ 0 :=
        fun zero => some (BitVec.eq_of_toNat_eq zero)
      have one : (1 : Byte).toNat = 1 := rfl
      rw [BitVec.toNat_add, one]
      omega
  · rw [counted, if_pos rfl]
    show _ ≤ max 1 (m.cowCountMem (m.getFrame home p)).toNat + 1
    have most := Byte_succ_le (m.cowCountMem (m.getFrame home p))
    split
    · omega
    · omega
  · intro g other _
    rw [counted, if_neg other]
    rfl

/-- `free_frame` and the loss of the page, whatever entry is cleared. -/
theorem op_freeFrame (user : UserFrame (m.getFrame home p)) (here : tracked home p)
    (present : (m.getEntry home p).present = true) {clear : Nat}
    (aside : clear = p ∨ ¬ tracked home clear) :
    Op bound (m.table tracked)
      (((m.freeFrame (m.getFrame home p)).setEntry home clear noEntry).table fun d q =>
        tracked d q ∧ ¬ (d = home ∧ q = p)) := by
  obtain ⟨low, high⟩ := user.kernel
  have counted : ∀ g, (m.freeFrame (m.getFrame home p)).cowCountMem g =
      if g = m.getFrame home p then m.cowCountMem (m.getFrame home p) - 1 else m.cowCountMem g := by
    intro g
    rw [cowCountMem_freeFrame]
    exact if_congr (and_iff_left ⟨low, high⟩) rfl rfl
  have own := counted (m.getFrame home p)
  rw [if_pos rfl] at own
  have before := (m.cowCountMem (m.getFrame home p)).isLt
  have sub : (m.cowCountMem (m.getFrame home p) - 1).toNat =
      ((m.cowCountMem (m.getFrame home p)).toNat + 255) % 256 := by
    have one : (1 : Byte).toNat = 1 := rfl
    rw [BitVec.toNat_sub, one]
    omega
  have positive : ∀ count : Byte, count.toInt ≤ 0 ↔ count.toNat = 0 ∨ 128 ≤ count.toNat := by
    intro count
    rw [BitVec.toInt_eq_toNat_cond]
    have small := count.isLt
    split <;> omega
  have marks : ∀ g, (m.freeFrame (m.getFrame home p)).physMem g =
      if g = m.getFrame home p ∧ (m.cowCountMem (m.getFrame home p) - 1).toInt ≤ 0 then FREE_FRAME
      else m.physMem g := by
    intro g
    rw [physMem_freeFrame, own]
  apply Op.drop (slot_of here present)
  constructor
  · constructor
    · exact slot_vacant fun both => both.1.2 ⟨rfl, rfl⟩
    · intro d' p' out
      by_cases cleared : d' = home ∧ p' = clear
      · obtain ⟨rfl, rfl⟩ := cleared
        have untracked : ¬ tracked d' p' :=
          aside.resolve_left fun same => out ⟨rfl, same⟩
        rw [slot_vacant fun both => untracked both.1.1, slot_vacant fun both => untracked both.1]
      · apply slot_congr
        · exact and_iff_left out
        · rw [getEntry_setEntry, if_neg cleared, getEntry_freeFrame]
  · intro g used
    obtain ⟨kernel, code, marked⟩ := used
    rw [physMem_setEntry, marks] at marked
    by_cases last : g = m.getFrame home p ∧ (m.cowCountMem (m.getFrame home p) - 1).toInt ≤ 0
    · rw [if_pos last] at marked
      cases marked
    · rw [if_neg last] at marked
      refine ⟨⟨kernel, code, marked⟩, ?_⟩
      intro mine
      have more : ¬ (m.cowCountMem (m.getFrame home p) - 1).toInt ≤ 0 := fun few => last ⟨mine, few⟩
      rw [positive, sub] at more
      show 2 ≤ (m.cowCountMem (m.getFrame home p)).toNat
      omega
  · intro g used many
    refine ⟨used.1, used.2.1, ?_⟩
    rw [physMem_setEntry, marks, if_neg]
    · exact used.2.2
    · intro last
      have range := many last.1
      have few := last.2
      rw [positive, sub] at few
      change 2 ≤ (m.cowCountMem (m.getFrame home p)).toNat ∧
        (m.cowCountMem (m.getFrame home p)).toNat < 128 at range
      omega
  · intro used
    have marked := used.2.2
    rw [physMem_setEntry, marks] at marked
    show ((m.freeFrame (m.getFrame home p)).cowCountMem (m.getFrame home p)).toNat + 1 = _
    rw [own]
    show _ = (m.cowCountMem (m.getFrame home p)).toNat
    by_cases few : (m.cowCountMem (m.getFrame home p) - 1).toInt ≤ 0
    · rw [if_pos ⟨rfl, few⟩] at marked
      cases marked
    · rw [positive] at few
      omega
  · intro g other _
    show ((m.freeFrame (m.getFrame home p)).cowCountMem g).toNat = _
    rw [counted, if_neg other]
    rfl

theorem table_congr (same : ∀ d p, tracked d p ↔ tracked' d p) :
    m.table tracked = m.table tracked' := by
  have equal : tracked = tracked' := funext fun d => funext fun p => propext (same d p)
  rw [equal]

/-- The same pages may be told apart in another way. -/
theorem retrack {start : Table DirId Nat Nat} (ops : Ops bound start (m.table tracked))
    (same : ∀ d p, tracked d p ↔ tracked' d p) : Ops bound start (m.table tracked') := by
  rw [← table_congr same]
  exact ops

/-- Only entries, marks and counts matter. -/
theorem table_frame (entries : m'.getEntry = m.getEntry) (phys : m'.physMem = m.physMem)
    (cow : m'.cowCountMem = m.cowCountMem) : m'.table tracked = m.table tracked := by
  unfold table
  rw [entries, phys, cow]
  simp only [getFrame, entries]

theorem table_ext (slot : ∀ d p, (m'.table tracked').slot d p = (m.table tracked).slot d p)
    (phys : m'.physMem = m.physMem) (cow : m'.cowCountMem = m.cowCountMem) :
    m'.table tracked' = m.table tracked := by
  have slots : (m'.table tracked').slot = (m.table tracked).slot :=
    funext fun d => funext fun p => slot d p
  have used : (m'.table tracked').used = (m.table tracked).used :=
    funext fun f => propext (used_congr (by rw [phys]))
  have count : (m'.table tracked').count = (m.table tracked).count :=
    funext fun f => congrArg BitVec.toNat (by rw [cow])
  calc m'.table tracked' = ⟨(m'.table tracked').slot, (m'.table tracked').used,
        (m'.table tracked').count⟩ := rfl
    _ = m.table tracked := by rw [slots, used, count]

/-! ### Loops -/

theorem ops_shareAll (apart : home ≠ dir) {pages : List Nat} (distinct : pages.Nodup)
    (here : ∀ p ∈ pages, tracked home p)
    (present : ∀ p ∈ pages, (m.getEntry home p).present = true)
    (vacant : ∀ p ∈ pages, ¬ tracked dir p) :
    Ops bound (m.table tracked) ((pages.foldl (fun m p => m.shareCowPage home dir p) m).table
      fun d q => tracked d q ∨ d = dir ∧ q ∈ pages) := by
  have rule := Loop.foldl_invariant pages (fun m p => m.shareCowPage home dir p) m
    (fun done m' => Shared m m' home dir done ∧ Ops bound (m.table tracked)
      (m'.table fun d q => tracked d q ∨ d = dir ∧ q ∈ done)) ?_ ?_
  · exact rule.2
  · refine ⟨⟨fun d p => ?_, rfl, rfl⟩, ?_⟩
    · rw [if_neg (by simp)]
    · exact retrack .refl (by simp)
  · intro done item rest m' whole holds
    obtain ⟨shared, ops⟩ := holds
    have member : item ∈ pages := by simp [whole]
    have fresh : item ∉ done := by
      intro inside
      rw [whole] at distinct
      exact (List.nodup_append.mp distinct).2.2 item inside item (by simp) rfl
    refine ⟨shared.next apart fresh, ?_⟩
    have source : m'.getEntry home item = m.getEntry home item := by
      rw [shared.entry, if_neg fresh]
    have op := @op_shareCowPage m' (fun d q => tracked d q ∨ d = dir ∧ q ∈ done) home dir item
      apart (Or.inl (here item member)) (by rw [source]; exact present item member) (by
        intro either
        rcases either with before | new
        · exact vacant item member before
        · exact fresh new.2)
    apply retrack (ops.tail op)
    intro d q
    rw [List.mem_append, List.mem_singleton, or_assoc, and_or_left]

theorem ops_dropAll (tidy : m.Tidy) {pairs : List (Nat × Nat)} (orderly : Orderly pairs)
    (distinct : (pairs.map Prod.fst).Nodup)
    (low : ∀ pair ∈ pairs, pagLogInitData ≤ pair.1 ∧ pagLogInitData ≤ pair.2)
    (here : ∀ pair ∈ pairs, tracked home pair.1)
    (present : ∀ pair ∈ pairs, (m.getEntry home pair.1).present = true)
    (aside : ∀ pair ∈ pairs, pair.2 = pair.1 ∨ ¬ tracked home pair.2) :
    Ops bound (m.table tracked) ((dropAll home pairs m).table fun d q =>
      tracked d q ∧ ¬ (d = home ∧ q ∈ pairs.map Prod.fst)) := by
  have rule := Loop.foldl_invariant pairs
    (fun m pair => (m.freeFrame (m.getFrame home pair.1)).setEntry home pair.2 noEntry) m
    (fun done m' => (m'.Tidy ∧ Dropped m m' home done) ∧ Ops bound (m.table tracked)
      (m'.table fun d q => tracked d q ∧ ¬ (d = home ∧ q ∈ done.map Prod.fst)))
    ⟨⟨tidy, Dropped.refl⟩, ?_⟩ ?_
  · exact rule.2
  · exact retrack .refl (by simp)
  · intro done pair rest m' whole holds
    obtain ⟨⟨tidy', dropped⟩, ops⟩ := holds
    have member : pair ∈ pairs := by simp [whole]
    have source : m'.getEntry home pair.1 = m.getEntry home pair.1 := by
      rw [whole] at orderly
      exact dropped.source orderly
    have there : (m'.getEntry home pair.1).present = true := by
      rw [source]
      exact present pair member
    have fresh : pair.1 ∉ done.map Prod.fst := by
      intro inside
      rw [whole, List.map_append, List.nodup_append] at distinct
      exact distinct.2.2 pair.1 inside pair.1 (by simp) rfl
    have plain := tidy'.plain (low pair member).1 there
    refine ⟨⟨?_, dropped.next pair⟩, ?_⟩
    · exact (tidy'.freeFrame plain.2.2.2).setEntry (low pair member).2 (Or.inl rfl)
    · have op := @op_freeFrame m' (fun d q => tracked d q ∧ ¬ (d = home ∧ q ∈ done.map Prod.fst))
        home pair.1 plain.2.2 ⟨here pair member, fun both => fresh both.2⟩ there pair.2
        ((aside pair member).imp_right fun out both => out both.1)
      apply retrack (ops.tail op)
      intro d q
      rw [List.map_append, List.mem_append, and_assoc, ← not_or, ← and_or_left]
      simp

/-! ### Frames reserved first and mapped one by one -/

open Classical in
/-- The pages of `m'`, with the frames in use before `m'` and those of `taken`. -/
noncomputable def halfway (m m' : Mm) (tracked : DirId → Nat → Prop) (taken : List Nat) :
    Table DirId Nat Nat where
  slot := (m'.table tracked).slot
  used f := (m.table tracked).used f ∨ f ∈ taken
  count f := if f ∈ taken then 0 else (m.cowCountMem f).toNat

theorem halfway_slot {taken : List Nat} (d : DirId) (p : Nat) :
    (halfway m m' tracked taken).slot d p = (m'.table tracked).slot d p := rfl

theorem halfway_nil (entries : m'.getEntry = m.getEntry) (same : ∀ d p, tracked' d p ↔ tracked d p) :
    halfway m m' tracked' [] = m.table tracked := by
  have slots : (m'.table tracked').slot = (m.table tracked).slot := by
    funext d p
    exact slot_congr (same d p) (by rw [entries])
  simp only [halfway, slots, List.not_mem_nil, or_false, ↓reduceIte]
  rfl

theorem halfway_full {taken : List Nat}
    (phys : ∀ f, m'.physMem f = if f ∈ taken then USED_FRAME else m.physMem f)
    (cow : ∀ f, m'.cowCountMem f = if f ∈ taken then 0 else m.cowCountMem f)
    (user : ∀ f ∈ taken, UserFrame f) : halfway m m' tracked taken = m'.table tracked := by
  have used : (halfway m m' tracked taken).used = (m'.table tracked).used := by
    funext f
    apply propext
    show (m.table tracked).used f ∨ f ∈ taken ↔ (m'.table tracked).used f
    rw [used_iff, used_iff, phys]
    by_cases member : f ∈ taken
    · rw [if_pos member]
      have here := user f member
      exact iff_of_true (Or.inr member) ⟨here.kernel.1.le, here.code, rfl⟩
    · rw [if_neg member, or_iff_left member]
  have count : (halfway m m' tracked taken).count = (m'.table tracked).count := by
    funext f
    show (if f ∈ taken then 0 else (m.cowCountMem f).toNat) = (m'.cowCountMem f).toNat
    rw [cow]
    split <;> rfl
  calc halfway m m' tracked taken = ⟨(m'.table tracked).slot, (halfway m m' tracked taken).used,
        (halfway m m' tracked taken).count⟩ := rfl
    _ = m'.table tracked := by rw [used, count]

/-- The pages from `base` down to the `count`-th, and the tracked ones. -/
def Lowered (tracked : DirId → Nat → Prop) (home : DirId) (base count : Nat) (d : DirId)
    (q : Nat) : Prop :=
  tracked d q ∨ d = home ∧ q ≤ base ∧ base < q + count

theorem lowered_zero {base : Nat} : Lowered tracked home base 0 d p ↔ tracked d p :=
  or_iff_left fun all => by omega

theorem lowered_succ {base count : Nat} (out : ¬ (d = home ∧ p = base - count)) :
    Lowered tracked home base (count + 1) d p ↔ Lowered tracked home base count d p := by
  apply or_congr Iff.rfl
  constructor
  · intro all
    refine ⟨all.1, all.2.1, ?_⟩
    by_contra beyond
    exact out ⟨all.1, by omega⟩
  · intro all
    exact ⟨all.1, all.2.1, by omega⟩

section

variable {m'' : Mm} {base i : Nat} {frames : List Nat}

/-- One more frame is mapped. -/
theorem halfway_take (below : i < frames.length) (inside : i < base + 1)
    (distinct : frames.Nodup) (free : frames.getD i 0 ∈ m.freeFrames)
    (vacant : (m'.getEntry home (base - i)).present = false) :
    Op bound (halfway m m' (Lowered tracked home base i) (frames.take i))
      (halfway m (m'.setSsPag home (base - i) (frames.getD i 0))
        (Lowered tracked home base (i + 1)) (frames.take (i + 1))) := by
  have next : frames.take (i + 1) = frames.take i ++ [frames.getD i 0] := by
    rw [List.take_succ_eq_append_getElem below, List.getD_eq_getElem _ _ below]
  have fresh : frames.getD i 0 ∉ frames.take i := by
    have part := distinct.sublist (List.take_sublist (i + 1) frames)
    rw [next, List.nodup_append] at part
    exact fun inside => part.2.2 _ inside _ (by simp) rfl
  have entry : (m'.setSsPag home (base - i) (frames.getD i 0)).getEntry home (base - i) =
      ⟨true, true, true, frames.getD i 0⟩ := by
    rw [setSsPag, getEntry_setEntry, if_pos ⟨rfl, rfl⟩]
  apply Op.take
  · rw [halfway_slot, slot_vacant]
    intro both
    have present := both.2
    rw [vacant] at present
    cases present
  · intro used
    exact used.elim (free_unused free) fresh
  · constructor
    · constructor
      · rw [halfway_slot, slot_of (Or.inr ⟨rfl, by omega, by omega⟩) (by rw [entry]), getFrame,
          entry]
      · intro d q out
        rw [halfway_slot, halfway_slot]
        apply slot_congr (lowered_succ out)
        rw [setSsPag, getEntry_setEntry, if_neg out]
    · intro g
      show _ ∨ g ∈ frames.take (i + 1) ↔ (_ ∨ g ∈ frames.take i) ∨ g = _
      rw [next, List.mem_append, List.mem_singleton, or_assoc]
      rfl
    · exact if_pos (by rw [next]; simp)
    · intro g other _
      apply if_congr _ rfl rfl
      rw [next, List.mem_append, List.mem_singleton, or_iff_left other]

end

theorem ops_grow (tidy : m.Tidy) {base count : Nat} {frames : List Nat}
    (done : Kernel.reserveFrames count m [] = (m', some frames)) (inside : count ≤ base + 1)
    (vacant : ∀ i < count, (m.getEntry home (base - i)).present = false) :
    Ops bound (m.table tracked)
      ((Loop.upTo count (fun i m => m.setSsPag home (base - i) (frames.getD i 0)) m').table
        (Lowered tracked home base count)) := by
  obtain ⟨enough, chosen, reserved⟩ := reserved_of_some done
  have length : frames.length = count := by
    rw [chosen, List.length_take]
    omega
  have distinct : frames.Nodup := by
    rw [chosen]
    exact freeFrames_nodup.sublist (List.take_sublist _ _)
  have free : ∀ i < count, frames.getD i 0 ∈ m.freeFrames := by
    intro i below
    rw [chosen]
    exact reserved_free enough below
  have run := Loop.upTo_invariant count
    (fun i m => m.setSsPag home (base - i) (frames.getD i 0)) m'
    (fun i m₁ => Mapped m' m₁ home base i (frames.getD · 0) ∧ Ops bound (m.table tracked)
      (halfway m m₁ (Lowered tracked home base i) (frames.take i))) ?_ ?_
  · obtain ⟨mapped, ops⟩ := run
    generalize Loop.upTo count _ m' = last at mapped ops ⊢
    have whole : frames.take count = frames := by rw [← length, List.take_length]
    have end' : halfway m last (Lowered tracked home base count) frames =
        last.table (Lowered tracked home base count) := by
      apply halfway_full
      · intro g
        rw [mapped.phys, reserved.phys]
      · intro g
        rw [mapped.cow, reserved.cow]
      · intro g member
        obtain ⟨i, below, same⟩ := List.getElem_of_mem member
        apply tidy.userFrame
        rw [← same, ← List.getD_eq_getElem _ 0]
        exact free i (by omega)
    rw [whole, end'] at ops
    exact ops
  · refine ⟨Mapped.refl, ?_⟩
    rw [List.take_zero, halfway_nil reserved.entries (fun d p => lowered_zero)]
  · intro i m₁ below holds
    obtain ⟨mapped, ops⟩ := holds
    have missing : (m₁.getEntry home (base - i)).present = false := by
      rw [mapped.entry, if_neg (by omega), reserved.entries]
      exact vacant i below
    have op := @halfway_take m m₁ tracked home base i frames (by omega) (by omega) distinct
      (free i below) missing
    exact ⟨mapped.next (by omega), ops.tail op⟩

/-! ### Write faults -/

theorem op_own (here : tracked home p) (present : (m.getEntry home p).present = true)
    (single : m.cowCountMem (m.getFrame home p) = 1) :
    Op bound (m.table tracked) ((((m.fault p).setCow (m.getFrame home p) 0).setSsPag home p
      (m.getFrame home p)).table tracked) := by
  have cow : ∀ g, (((m.fault p).setCow (m.getFrame home p) 0).setSsPag home p
      (m.getFrame home p)).cowCountMem g =
        if g = m.getFrame home p then 0 else m.cowCountMem g := by
    intro g
    rw [setSsPag, cowCountMem_setEntry, cowCountMem_setCow]
    rfl
  apply Op.own (slot_of here present) (congrArg BitVec.toNat single)
  constructor
  · constructor
    · have entry : (((m.fault p).setCow (m.getFrame home p) 0).setSsPag home p
          (m.getFrame home p)).getEntry home p = ⟨true, true, true, m.getFrame home p⟩ := by
        rw [setSsPag, getEntry_setEntry, if_pos ⟨rfl, rfl⟩]
      rw [slot_of here (by rw [entry]), getFrame, entry]
    · intro d q out
      apply slot_congr Iff.rfl
      rw [setSsPag, getEntry_setEntry, if_neg out]
      rfl
  · intro g
    exact used_congr rfl
  · apply (congrArg BitVec.toNat (cow _)).trans
    rw [if_pos rfl]
    rfl
  · intro g other _
    apply (congrArg BitVec.toNat (cow g)).trans
    rw [if_neg other]
    rfl

/-- What `pf_rsi` does with a frame that has more references. -/
structure Parted (m m' : Mm) (home : DirId) (page frame : Nat) : Prop where
  entry : ∀ d q, m'.getEntry d q =
    if d = home ∧ q = page then ⟨true, true, true, frame⟩
    else if d = home ∧ q = pagLogInitHeap + 1 then noEntry
    else m.getEntry d q
  phys : ∀ f, m'.physMem f = if f = frame then USED_FRAME else m.physMem f
  cow : ∀ f, m'.cowCountMem f =
    if f = frame then 0
    else if f = m.getFrame home page then m.cowCountMem f - 1
    else m.cowCountMem f

theorem op_split (parted : Parted m m' home p frame) (here : tracked home p)
    (present : (m.getEntry home p).present = true)
    (many : 2 ≤ m.cowCountMem (m.getFrame home p)) (free : frame ∈ m.freeFrames)
    (user : UserFrame frame) (inside : ∀ d q, tracked d q → q ≤ pagLogInitHeap) :
    Op bound (m.table tracked) (m'.table tracked) := by
  obtain ⟨entry, phys, cow⟩ := parted
  have own := entry home p
  rw [if_pos ⟨rfl, rfl⟩] at own
  have changes : Changes (m.table tracked) (m'.table tracked) home p (some (frame, true)) := by
    constructor
    · rw [slot_of here (by rw [own]), getFrame, own]
    · intro d q out
      by_cases spare : d = home ∧ q = pagLogInitHeap + 1
      · have untracked : ¬ tracked d q := by
          intro counts
          have := inside d q counts
          omega
        rw [slot_vacant fun both => untracked both.1, slot_vacant fun both => untracked both.1]
      · apply slot_congr Iff.rfl
        rw [entry, if_neg out, if_neg spare]
  have used : ∀ h, (m'.table tracked).used h ↔ (m.table tracked).used h ∨ h = frame := by
    intro h
    rw [used_iff, used_iff, phys]
    by_cases new : h = frame
    · rw [if_pos new, new]
      exact iff_of_true ⟨user.kernel.1.le, user.code, rfl⟩ (Or.inr rfl)
    · rw [if_neg new, or_iff_left new]
  have count : ∀ h, (m'.table tracked).count h = BitVec.toNat
      (if h = frame then 0 else if h = m.getFrame home p then m.cowCountMem h - 1
        else m.cowCountMem h) := fun h => congrArg BitVec.toNat (cow h)
  have fresh : (m'.table tracked).count frame = 0 := by
    rw [count, if_pos rfl]
    rfl
  by_cases same : m.getFrame home p = frame
  · apply Op.revive (slot_of here present) (by rw [same]; exact free_unused free)
    rw [same]
    refine ⟨changes, used, fresh, ?_⟩
    intro g other _
    rw [count, if_neg other, same, if_neg other]
    rfl
  · have two : 2 ≤ (m.cowCountMem (m.getFrame home p)).toNat := many
    apply Op.split (slot_of here present) two (free_unused free)
    refine ⟨changes, used, ?_, fresh, ?_⟩
    · rw [count, if_neg same, if_pos rfl]
      show _ = (m.cowCountMem (m.getFrame home p)).toNat
      have one : (1 : Byte).toNat = 1 := rfl
      have small := (m.cowCountMem (m.getFrame home p)).isLt
      rw [BitVec.toNat_sub, one]
      omega
    · intro h old new _
      rw [count, if_neg new, if_neg old]
      rfl

end Mm

end Zeos
