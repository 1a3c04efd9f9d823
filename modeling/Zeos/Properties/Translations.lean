import Zeos.Space.Cached

set_option autoImplicit false

/-! The translations that the processor has cached. -/

namespace Zeos

open Tlb (Cache Coherent Filled)

/-- The number of references to the frame that the running task has at an address. -/
def Kernel.sharers (k : Kernel) (addr : DWord) : Byte :=
  k.mm.cowCountMem (k.mm.getFrame (k.getPT k.current) (addr.toNat / pageSize))

/-- A store of the running program faults, and `pf_rsi` makes the page writable. -/
def Kernel.repairs (k : Kernel) (addr : DWord) : Bool :=
  !k.mm.userWritable (addr.toNat / pageSize) && k.accessOk .write addr 1 &&
    (k.sharers addr == 1 || decide (2 ≤ k.sharers addr) && !k.mm.freeFrames.isEmpty)

/-- No write fault of the step is repaired. -/
def unrepaired (k : Kernel) : Option Action → Bool
  | some (.store addr _) => !k.repairs addr
  | _ => true

/-- The runs of the machine with the translations that may be cached: the last thing that boot
does to the tables is to load `CR3`. -/
inductive Caching (admits : Kernel → Option Action → Prop) :
    Kernel → Cache Nat (Nat × Bool) → Prop where
  | boot {k : Kernel} {cache : Cache Nat (Nat × Bool)} (dir : Option DirId)
      (before : List TableNote) : Booted k → k.mm.log = .cr3 dir :: before →
      Filled k.mm.mmu ∅ [] cache → Caching admits k cache
  | next {k k' : Kernel} {cache cache' : Cache Nat (Nat × Bool)} (label : Option Action)
      (events : List TableNote) : Caching admits k cache → admits k label →
      k.step label = some k' → k'.mm.log = events.reverse ++ k.mm.log →
      Filled k.mm.mmu cache (events.map TableNote.event) cache' → Caching admits k' cache'

/-- Every cached translation of a user page is that of the page table in use. -/
def Kernel.Translates (k : Kernel) (cache : Cache Nat (Nat × Bool)) : Prop :=
  ∀ page frame writable, numPagKernel ≤ page → (page, frame, writable) ∈ cache →
    (k.mm.mapped page).present = true ∧ (k.mm.mapped page).pbaseAddr = frame ∧
      (k.mm.mapped page).rw = writable

variable {k k' : Kernel} {cache : Cache Nat (Nat × Bool)} {addr : DWord} {value : Byte}

theorem translates_of_coherent (coherent : Coherent k.mm.mmu cache) : k.Translates cache := by
  intro page frame writable _ member
  have walk := coherent (page, frame, writable) member
  rw [Mm.walk_mmu, PageTableEntry.target] at walk
  split at walk
  · rename_i both
    obtain ⟨frames, rights⟩ := Prod.mk.inj (Option.some.inj walk)
    exact ⟨both.2, frames, rights⟩
  · cases walk

/-- A write fault that is not repaired breaks the machine. -/
theorem stuck_pfRsi (fine : k.repairs addr = false)
    (denied : k.mm.userWritable (addr.toNat / pageSize) = false) :
    (Kernel.pfRsi { k with mm := k.mm.fault (addr.toNat / pageSize) } addr).stuck = true := by
  have shift : addr.toNat >>> 12 = addr.toNat / pageSize := Nat.shiftRight_eq_div_pow _ 12
  have access : Kernel.accessOk { k with mm := k.mm.fault (addr.toNat / pageSize) } .write addr 1 =
      k.accessOk .write addr 1 := rfl
  rw [Kernel.repairs, denied] at fine
  unfold Kernel.pfRsi
  rw [access, shift]
  split
  · rfl
  · rename_i granted
    have granted : k.accessOk .write addr 1 = true := by simpa using granted
    rw [granted, Bool.not_false, Bool.true_and, Bool.true_and, Bool.or_eq_false_iff] at fine
    obtain ⟨several, few⟩ := fine
    dsimp only
    split
    · rename_i single
      exact absurd single (beq_eq_false_iff_ne.mp several)
    · split
      · rename_i many
        split
        · rfl
        · rename_i m frame taken
          rw [Mm.allocFrame_eq] at taken
          have free : k.mm.freeFrames = [] := by
            rw [decide_eq_true (show 2 ≤ k.sharers addr from many)] at few
            simpa using few
          have none : ∀ frame' count, (Mm.setCow (k.mm.fault (addr.toNat / pageSize)) frame'
              count).freeFrames = [] := fun _ _ => free
          rw [none] at taken
          cases taken
      · rfl

theorem store_unrepaired (fine : k.repairs addr = false) :
    (k.userStore addr value).stuck = true ∨
      (k.userStore addr value).space = k.space.write addr value := by
  unfold Kernel.userStore Kernel.storeWith Kernel.withFault
  dsimp only
  by_cases writable : k.mm.userWritable (addr.toNat / pageSize) = true
  · rw [if_pos writable]
    split
    · rename_i stuck
      exact Or.inl stuck
    · exact Or.inr rfl
  · left
    have stuck := stuck_pfRsi fine (Bool.eq_false_iff.mpr writable)
    rw [if_neg writable, stuck, Bool.true_or, if_pos rfl, if_pos stuck]
    exact stuck

/-- A step without a repair keeps what is cached right. -/
theorem keeps_step {r : Roster} (ref : Refines k r) (sound : Roster.Sound r)
    (laid : k.space.Laid) {label : Option Action} (allowed : unrepaired k label = true)
    (stepped : k.step label = some k') : k'.stuck = true ∨ k.space.Keeps k'.space := by
  by_cases store : ∃ addr value, label = some (.store addr value)
  · obtain ⟨addr, value, rfl⟩ := store
    rw [(step_action stepped).2.2]
    apply (@store_unrepaired k addr value (by simpa [unrepaired] using allowed)).imp_right
    intro same
    show k.space.Keeps (k.userStore addr value).space
    rw [same]
    exact .steady (.quiet rfl rfl rfl) id
  · rcases ref.step_space sound laid stepped with moved | last
    · right
      apply Space.Keeps.step laid _ moved
      intro addr value same
      exact store ⟨addr, value, same⟩
    · exact Or.inl last.1

/-- What was empty is right when it is filled. -/
theorem fresh_of_filled (filled : Filled k.mm.mmu ∅ [] cache) : k.space.Fresh cache := by
  intro _
  apply Tlb.Steady.nil ∅ cache _ filled
  exact fun cached member => absurd member (Set.notMem_empty cached)

theorem booted_laid (booted : Booted k) : (∃ r, Refines k r ∧ Roster.Sound r) ∧ k.space.Laid := by
  obtain ⟨image, rfl⟩ := booted
  exact ⟨⟨Roster.boot, boot_refines image, Roster.boot_sound⟩, (boot_space image).laid⟩

/-- What may be cached is right, in every state of such a run. -/
theorem Caching.fresh (caching : Caching (fun k label => unrepaired k label = true) k cache) :
    (∃ r, Refines k r ∧ Roster.Sound r) ∧
      (k.stuck = true ∨ k.space.Laid ∧ k.space.Fresh cache) := by
  induction caching with
  | boot dir before booted loaded filled =>
      obtain ⟨start, laid⟩ := booted_laid booted
      exact ⟨start, Or.inr ⟨laid, fresh_of_filled filled⟩⟩
  | next label events _ allowed stepped logged filled ih =>
      obtain ⟨⟨r, ref, sound⟩, state⟩ := ih
      obtain ⟨laid, fresh⟩ := state.resolve_left (stuck_step stepped)
      obtain ⟨r', step, after, _⟩ := ref.step sound stepped
      refine ⟨⟨r', after, sound.step step⟩, ?_⟩
      rcases keeps_step ref sound laid allowed stepped with stuck | keeps
      · exact Or.inl stuck
      · rcases ref.step_space sound laid stepped with moved | last
        · right
          obtain ⟨events', logs, kept⟩ := keeps
          have same : events = events' :=
            List.reverse_injective (List.append_cancel_right (logged.symm.trans logs.log))
          rw [same] at filled
          exact ⟨laid.step moved, kept _ _ fresh filled⟩
        · exact Or.inl last.1

/-- In the runs in which no write fault is repaired, no stale translation survives to user
mode. -/
theorem no_stale_translation (caching : Caching (fun k label => unrepaired k label = true) k cache)
    (rest : k.atRest) : k.Translates cache := by
  obtain ⟨⟨r, ref, sound⟩, state⟩ := caching.fresh
  obtain ⟨_, fresh⟩ := state.resolve_left (by simp [rest.2])
  obtain ⟨home, owner⟩ := ref.owner sound
  exact translates_of_coherent (fresh (Space.housed owner))

/-- Boot ends with a load of `CR3`. -/
theorem boot_loads (image : Image) :
    ∃ dir before, (Kernel.boot image).mm.log = .cr3 dir :: before := by
  obtain ⟨_, picked⟩ := boot_picks image
  rw [Kernel.boot]
  generalize (((Kernel.static image).initMm image.guardBefore image.guardAfter).initSched).initIdle =
    k at picked ⊢
  obtain ⟨k', made⟩ : ∃ k', k.allocateProcess none = (k', some 1) := ⟨_, Prod.ext rfl picked⟩
  have ran := congrArg Space.mm (space_initTask1 made)
  exact ⟨k'.getDIR 1, _, congrArg Mm.log ran⟩

/-- Every such run is one with a cache. -/
theorem exists_caching (reached : Reachable (fun k label => unrepaired k label = true) k) :
    k.stuck = true ∨
      ∃ cache, Caching (fun k label => unrepaired k label = true) k cache := by
  induction reached with
  | start booted =>
      right
      have again := booted
      obtain ⟨image, same⟩ := again
      obtain ⟨dir, before, loaded⟩ := boot_loads image
      rw [← same] at loaded
      exact ⟨∅, .boot dir before booted loaded .done⟩
  | next label _ allowed stepped ih =>
      obtain ⟨cache, caching⟩ := ih.resolve_left (stuck_step stepped)
      obtain ⟨⟨r, ref, sound⟩, state⟩ := caching.fresh
      obtain ⟨laid, _⟩ := state.resolve_left (stuck_step stepped)
      apply (keeps_step ref sound laid allowed stepped).imp_right
      intro keeps
      obtain ⟨events, logs, _⟩ := keeps
      obtain ⟨cache', filled⟩ := Filled.total (events.map TableNote.event) _ cache
      exact ⟨cache', .next label events caching allowed stepped logs.log filled⟩

theorem caching_boot {admits : Kernel → Option Action → Prop}
    (f : Kernel → Option Action → Bool) : Caching admits (Kernel.after f []) ∅ := by
  have booted : Kernel.after f [] = Kernel.boot Image.empty := rfl
  rw [booted]
  obtain ⟨dir, before, loaded⟩ := boot_loads Image.empty
  exact .boot dir before ⟨Image.empty, rfl⟩ loaded .done

/-- After a `sys_fork` the parent has its first data page cached, without the right to write. -/
theorem no_stale_translation_fork :
    (∃ cache, Caching (fun k label => unrepaired k label = true)
      (Kernel.after unrepaired [some (.call .fork)]) cache) ∧
    (Kernel.after unrepaired [some (.call .fork)]).Translates {(264, 272, false)} := by
  refine ⟨(exists_caching (reached_after (by decide +kernel))).resolve_left (by decide +kernel), ?_⟩
  apply no_stale_translation
  · apply Caching.next (some (.call .fork))
      ((Kernel.after unrepaired [some (.call .fork)]).mm.log.take 69).reverse (caching_boot unrepaired)
    · decide +kernel
    · exact @step_after unrepaired [] _ (by decide +kernel)
    · rw [List.reverse_reverse]
      decide +kernel
    · rw [← List.append_nil (List.map _ _)]
      apply (Filled.unfilled _ _).append
      have here : ((Kernel.after unrepaired []).mm.mmu.run
          (((Kernel.after unrepaired [some (.call .fork)]).mm.log.take 69).reverse.map
            TableNote.event)).walk 264 = some (272, false) := by decide +kernel
      apply Filled.fill 264 (272, false) here
      rw [insert_empty_eq]
      exact .done
  · exact ⟨by decide +kernel, by decide +kernel⟩

/-- The parent writes to that page: between the flush in `copy_frame` and the new entry the old
one is cached again. -/
theorem no_stale_translation_counterexample :
    ¬ ∀ k cache, Caching anyAction k cache → k.atRest → k.Translates cache := by
  intro claim
  have forked : Caching anyAction (Kernel.after everyStep [some (.call .fork)]) ∅ := by
    apply Caching.next (some (.call .fork))
      ((Kernel.after everyStep [some (.call .fork)]).mm.log.take 69).reverse
        (caching_boot everyStep) trivial
    · exact @step_after everyStep [] _ (by decide +kernel)
    · rw [List.reverse_reverse]
      decide +kernel
    · exact Filled.unfilled _ _
  have stale : Caching anyAction (Kernel.after everyStep [some (.call .fork),
      some (.store 0x108000 1)]) {(264, 272, false)} := by
    apply Caching.next (some (.store 0x108000 1)) ([.fault 264, .entry 8 512 ⟨true, true, true, 312⟩,
      .entry 8 512 noEntry, .cr3 (some 8)] ++ [.entry 8 264 ⟨true, true, true, 312⟩]) forked trivial
    · exact @step_after everyStep [some (.call .fork)] _ (by decide +kernel)
    · decide +kernel
    · rw [List.map_append]
      apply (Filled.unfilled _ _).append
      have here : ((Kernel.after everyStep [some (.call .fork)]).mm.mmu.run
          ([.fault 264, .entry 8 512 ⟨true, true, true, 312⟩, .entry 8 512 noEntry,
            .cr3 (some 8)].map TableNote.event)).walk 264 = some (272, false) := by decide +kernel
      apply Filled.fill 264 (272, false) here
      rw [insert_empty_eq]
      exact .next _ .done
  have wrong := (claim _ _ stale ⟨by decide +kernel, by decide +kernel⟩ 264 272 false (by decide)
    (Set.mem_singleton _)).2.1
  revert wrong
  decide +kernel

end Zeos
