import Zeos.Properties.Forks

set_option autoImplicit false

/-! Isolation: while a process waits, nothing that the others do changes what it will read. -/

namespace Zeos

/-- What a process reads at an address of its memory. -/
def Kernel.reads (k : Kernel) (t : TaskId) (addr : DWord) : Option Byte :=
  (k.tasks t).dirPagesBaseAddr.bind fun d => k.mm.read d addr

/-- The runs of `forkRun` in which this task does not have the CPU. -/
def sitsOut (t : TaskId) (k : Kernel) (label : Option Action) : Bool :=
  decide (forkRun k label) && decide (k.current ≠ t)

variable {k k' : Kernel} {e : Eager} {label : Option Action} {t : TaskId} {d : DirId}
  {addr : DWord} {page : Nat}

/-- A process with a page of its own. -/
structure Kernel.Holds (k : Kernel) (t : TaskId) (page : Nat) : Prop where
  busy : t ≠ k.idleTask
  lives : ∃ d, (k.tasks t).dirPagesBaseAddr = some d
  own : k.OwnPage t page

theorem reads_eq (paired : Paired k e) (holds : k.Holds t (addr.toNat / pageSize)) :
    k.reads t addr = e.read t addr := by
  obtain ⟨d, home⟩ := holds.lives
  rw [Kernel.reads, home, Option.bind_some]
  exact paired.read_eq home holds.busy holds.own

/-- A step of the reference machine changes the memory of the running process only. -/
theorem follow_other (home : (k.tasks t).dirPagesBaseAddr = some d) (other : t ≠ k.current) :
    (e.follow k label k').heap t = e.heap t ∧ (e.follow k label k').bytes t = e.bytes t := by
  unfold Eager.follow
  split
  · cases new : k.newborn k' with
    | none => exact ⟨rfl, rfl⟩
    | some child =>
        have dead := List.find?_some new
        have apart : t ≠ child := by
          rintro rfl
          rw [home] at dead
          cases dead
        exact ⟨Function.update_of_ne apart .., Function.update_of_ne apart ..⟩
  · exact ⟨Function.update_of_ne other .., rfl⟩
  · exact ⟨Function.update_of_ne other .., Function.update_of_ne other ..⟩
  · exact ⟨rfl, Function.update_of_ne other ..⟩
  · exact ⟨rfl, rfl⟩

/-- A step of another task. -/
theorem Kernel.Holds.step (holds : k.Holds t page) (paired : Paired k e)
    (allowed : sitsOut t k label = true) (stepped : k.step label = some k') :
    Paired k' (e.follow k label k') ∧ k'.Holds t page ∧
      ∀ addr : DWord, addr.toNat / pageSize = page → k'.reads t addr = k.reads t addr := by
  rw [sitsOut, Bool.and_eq_true, decide_eq_true_eq, decide_eq_true_eq] at allowed
  obtain ⟨d, home⟩ := holds.lives
  obtain ⟨heap, bytes⟩ := @follow_other k k' e label t d home (Ne.symm allowed.2)
  have paired' := paired.next label allowed.1 stepped
  obtain ⟨_, _, _, mirrors⟩ := paired.mirrors
  obtain ⟨_, _, _, mirrors'⟩ := paired'.mirrors
  have kept : k'.space.heap t = some (k.space.pages t) := by
    rw [← mirrors'.heap, heap, mirrors.heap]
    exact Space.heap_of_process home holds.busy
  have after : k'.Holds t page := by
    rw [Space.heap] at kept
    split at kept
    · cases kept
    · rename_i busy
      obtain ⟨d', home', pages⟩ := Option.map_eq_some_iff.mp kept
      refine ⟨busy, ⟨d', home'⟩, ownPage_iff.mpr ?_⟩
      rw [Space.OwnPage, pages]
      exact ownPage_iff.mp holds.own
  refine ⟨paired', after, fun addr here => ?_⟩
  subst here
  rw [reads_eq paired' after, reads_eq paired holds]
  exact if_congr (by rw [Eager.Owns, Eager.Owns, heap]) (by rw [bytes]) rfl

theorem paired_of_reachable (reached : Reachable forkRun k) : ∃ e, Paired k e := by
  induction reached with
  | start booted => exact ⟨_, .boot booted⟩
  | next label _ allowed stepped ih =>
      obtain ⟨e, paired⟩ := ih
      exact ⟨_, paired.next label allowed stepped⟩

/-- While a process does not have the CPU it loses none of its pages, and every byte of them
stays as it is, whatever the others write, fork, give back or leave behind. -/
theorem waiting_memory_kept {k k' : Kernel} (reached : Reachable forkRun k) {t : TaskId}
    {addr : DWord} (holds : k.Holds t (addr.toNat / pageSize)) {labels : List (Option Action)}
    (ran : Transition.run Kernel.step (sitsOut t) k labels = some k') :
    k'.Holds t (addr.toNat / pageSize) ∧ k'.reads t addr = k.reads t addr := by
  have later : Transition.Reachable Kernel.step (fun s label => sitsOut t s label = true)
      (fun s => s = k) k' := .of_run (.start rfl) ran
  have kept : (∃ e, Paired k' e) ∧ k'.Holds t (addr.toNat / pageSize) ∧
      k'.reads t addr = k.reads t addr := by
    apply later.invariant fun s =>
      (∃ e, Paired s e) ∧ s.Holds t (addr.toNat / pageSize) ∧ s.reads t addr = k.reads t addr
    · rintro _ rfl
      exact ⟨paired_of_reachable reached, holds, rfl⟩
    · intro s label s' before allowed stepped
      obtain ⟨⟨e, paired⟩, owns, same⟩ := before
      obtain ⟨paired', owns', reads⟩ := owns.step paired allowed stepped
      exact ⟨⟨_, paired'⟩, owns', (reads addr rfl).trans same⟩
  exact kept.2

/-- After the fork the parent writes to the page that its child has too, gets a heap and
exits. -/
theorem waiting_memory_kept_child : ∃ k',
    Transition.run Kernel.step (sitsOut 2) (Kernel.after everyStep [some (.call .fork)])
      [some (.store 0x108000 1), some (.call (.sbrk 4096)), some (.call .exit)] = some k' ∧
    k'.reads 2 0x108000 = (Kernel.after everyStep [some (.call .fork)]).reads 2 0x108000 := by
  have ran : (Transition.run Kernel.step (sitsOut 2)
      (Kernel.after everyStep [some (.call .fork)])
      [some (.store 0x108000 1), some (.call (.sbrk 4096)), some (.call .exit)]).isSome = true := by
    decide +kernel
  obtain ⟨k', ended⟩ := Option.isSome_iff_exists.mp ran
  have reached : Reachable forkRun (Kernel.after everyStep [some (.call .fork)]) :=
    .next (some (.call .fork)) (.start ⟨Image.empty, rfl⟩) trivial
      (@step_after everyStep [] _ (by decide +kernel))
  have holds : (Kernel.after everyStep [some (.call .fork)]).Holds 2
      ((0x108000 : DWord).toNat / pageSize) :=
    ⟨by decide +kernel, ⟨7, by decide +kernel⟩, by decide +kernel⟩
  exact ⟨k', ended, (waiting_memory_kept reached holds ended).2⟩

end Zeos
