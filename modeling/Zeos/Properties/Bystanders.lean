import Zeos.Properties.Mappings
import Zeos.Properties.Stores

set_option autoImplicit false

/-! What a store of the kernel for one process changes for the other processes. -/

namespace Zeos

open Space (Wrote Poked)

/-- A page of user memory in a page table. -/
def Mm.Readable (m : Mm) (d : DirId) (page : Nat) : Prop :=
  page < totalPages ∧ (m.getEntry d page).present = true ∧ (m.getEntry d page).user = true

instance {m : Mm} {d : DirId} {page : Nat} : Decidable (m.Readable d page) :=
  inferInstanceAs (Decidable (_ ∧ _))

/-- The byte that a user program reads at an address, through this page table. -/
def Mm.read (m : Mm) (d : DirId) (addr : DWord) : Option Byte :=
  if m.Readable d (addr.toNat / pageSize) then
    some (m.ram (m.getFrame d (addr.toNat / pageSize)) (addr.toNat % pageSize))
  else none

/-- The block that a step of `sys_read` or `sys_get_stats` stores to: the characters that are
there, once the checks are passed and no other reader waits. -/
def Kernel.fills (k : Kernel) : Option Action → Option (DWord × Nat)
  | some (.call (.read fd buffer size)) =>
      if k.readChecked fd.toInt buffer size = true ∧ listEmpty k.links .keyboardqueue = true then
        some (buffer, min size.toInt.toNat k.keyboard.contents.length)
      else none
  | some (.call (.getStats pid st)) =>
      if k.passes (.getStats pid st) then k.target (.getStats pid st) else none
  | none =>
      match k.currentTask.kernelEsp with
      | .readFirst buffer size => some (buffer, min size.toNat k.keyboard.contents.length)
      | .readLoop buffer totalSize size =>
          some (buffer + BitVec.ofInt 32 (totalSize - size),
            min size.toNat k.keyboard.contents.length)
      | _ => none
  | _ => none

/-- The steps of `sys_read` and `sys_get_stats`, and what follows a task switch. -/
def fillsBuffer : Option Action → Bool
  | none | some (.call (.read _ _ _)) | some (.call (.getStats _ _)) => true
  | _ => false

/-- Another address space has the frame of this address of the running task. -/
def Kernel.Seen (k : Kernel) (addr : DWord) : Prop :=
  ∃ t d p, (k.tasks t).dirPagesBaseAddr = some d ∧ d ≠ k.getPT k.current ∧ k.mm.Readable d p ∧
    k.mm.getFrame d p = (k.mm.mapped (addr.toNat / pageSize)).pbaseAddr

/-- No byte that the step stores goes to a frame that another address space has. -/
def unseen (k : Kernel) (label : Option Action) : Prop :=
  ∀ block ∈ k.fills label, ∀ addr, InBlock block.1 block.2 addr →
    (k.mm.mapped (addr.toNat / pageSize)).present = true → ¬ k.Seen addr

/-- The other address spaces read what they read before. -/
def Kernel.Undisturbed (k k' : Kernel) : Prop :=
  ∀ t d addr, (k.tasks t).dirPagesBaseAddr = some d → d ≠ k.getPT k.current →
    k'.mm.read d addr = k.mm.read d addr

variable {k k' : Kernel} {r : Roster} {label : Option Action} {home : DirId} {addr : DWord}

/-- Where a step stores. -/
def Kernel.Fills (k : Kernel) (label : Option Action) (addr : DWord) : Prop :=
  ∃ block ∈ k.fills label, InBlock block.1 block.2 addr

theorem fills_of {start : DWord} {count : Nat} (fills : k.fills label = some (start, count))
    (within : InBlock start count addr) : k.Fills label addr :=
  ⟨(start, count), fills, within⟩

/-- The stores of a call are in its block. -/
theorem wrote_call (ref : Refines k r) (laid : k.space.Laid) {request : Syscall}
    (owner : k.space.dir k.current = some home)
    (filling : fillsBuffer (some (.call request)) = true) :
    Wrote (k.Fills (some (.call request))) k.space
      (k.updateEnteringSys.syscall request).1.space := by
  have entered : k.updateEnteringSys.space = k.space := space_updateEnteringSys
  have laid₁ : k.updateEnteringSys.space.Laid := entered ▸ laid
  have owner₁ := owner_of_view view_updateEnteringSys owner
  have ref₁ := ref.of_view view_updateEnteringSys
  rw [← entered]
  cases request with
  | read fd buffer size =>
      apply @wrote_sysRead _ home _ buffer r ref₁ laid₁ owner₁ fd.toInt size
      intro checked empty addr within
      rw [readChecked_updateEnteringSys] at checked
      have links : k.updateEnteringSys.links = k.links := congrArg View.links view_updateEnteringSys
      rw [links] at empty
      rw [← ref.contents] at within
      exact fills_of (if_pos ⟨checked, empty⟩) within
  | getStats pid st =>
      apply Poked.toWrote
      apply @poked_sysGetStats _ home _ laid₁ owner₁ pid.toInt st
      intro positive passed i found alive addr within
      have target := (@target_updateEnteringSys k (.getStats pid st)).symm.trans
        (target_getStats positive found alive)
      have passes : k.passes (.getStats pid st) = true := by
        rw [accessOk_updateEnteringSys] at passed
        simp only [Kernel.passes]
        simpa using passed
      exact fills_of ((if_pos passes).trans target) within
  | _ => cases filling

theorem fills_readFirst (ref : Refines k r) {buffer : DWord} {size : Int}
    (here : k.currentTask.kernelEsp = .readFirst buffer size) :
    k.fills none = some (buffer, min size.toNat r.pending.length) := by
  unfold Kernel.fills
  rw [here, ← ref.contents]

theorem fills_readLoop (ref : Refines k r) {buffer : DWord} {totalSize size : Int}
    (here : k.currentTask.kernelEsp = .readLoop buffer totalSize size) : k.fills none =
      some (buffer + BitVec.ofInt 32 (totalSize - size), min size.toNat r.pending.length) := by
  unfold Kernel.fills
  rw [here, ← ref.contents]

/-- The stores of a read that goes on are in its block. -/
theorem wrote_resume (ref : Refines k r) (laid : k.space.Laid)
    (owner : k.space.dir k.current = some home) : Wrote (k.Fills none) k.space k.resume.space := by
  have quiet : ∀ k₁ : Kernel, k₁.space = k.space → Wrote (k.Fills none) k.space k₁.leave.space := by
    intro k₁ same
    rw [space_leave, same]
    exact Poked.refl.toWrote
  unfold Kernel.resume
  dsimp only
  split
  · exact Poked.refl.toWrote
  · exact Poked.refl.toWrote
  · exact quiet _ rfl
  · exact quiet _ rfl
  · exact quiet _ rfl
  · exact quiet _ space_semWaitResumed
  · rename_i buffer size here
    rw [space_leave]
    have wrote := @wrote_readFirst { k with mode := .user } home buffer _ size ref.enterUser laid
      owner
    exact wrote.mono fun addr within => fills_of (fills_readFirst ref here) within
  · rename_i buffer totalSize size here
    rw [space_leave]
    have wrote := @wrote_readAgain { k with mode := .user } home buffer _ totalSize size
      ref.enterUser laid owner
    exact wrote.mono fun addr within => fills_of (fills_readLoop ref here) within

/-- Stores to unseen frames disturb no other address space. -/
theorem undisturbed_of_wrote (wrote : Wrote (k.Fills label) k.space k'.space)
    (allowed : unseen k label) : k.Undisturbed k' := by
  intro t d addr home other
  have entries : k'.mm.getEntry = k.mm.getEntry := wrote.entries
  have same : k'.mm.Readable d (addr.toNat / pageSize) ↔ k.mm.Readable d (addr.toNat / pageSize) := by
    rw [Mm.Readable, Mm.Readable, entries]
  rw [Mm.read, Mm.read]
  by_cases readable : k.mm.Readable d (addr.toNat / pageSize)
  · rw [if_pos readable, if_pos (same.mpr readable), Mm.getFrame, entries]
    rcases wrote.ram (k.mm.getFrame d (addr.toNat / pageSize)) (addr.toNat % pageSize)
      with kept | stored
    · exact congrArg some kept
    · obtain ⟨place, filled, present, frame⟩ := stored
      obtain ⟨block, fills, within⟩ := filled
      exact absurd ⟨t, d, _, home, other, readable, frame.symm⟩
        (allowed block fills place within present)
  · rw [if_neg readable, if_neg (mt same.mp readable)]

/-- What the kernel stores for one process, in frames that no other address space has, changes
nothing that another process sees. -/
theorem stores_undisturbed (reached : Reachable anyAction k) (filling : fillsBuffer label = true)
    (allowed : unseen k label) (stepped : k.step label = some k') : k.Undisturbed k' := by
  have running : k.stuck = false := Bool.eq_false_iff.mpr (stuck_step stepped)
  obtain ⟨r, ref, sound⟩ := reachable_sound reached
  have laid := reachable_laid reached running
  obtain ⟨home, owner⟩ := ref.owner sound
  cases label with
  | none =>
      rw [(step_none stepped).2]
      exact undisturbed_of_wrote (wrote_resume ref laid owner) allowed
  | some action =>
      cases action with
      | call request =>
          rw [(step_action stepped).2.2]
          apply undisturbed_of_wrote _ allowed
          have wrote := wrote_call ref laid owner filling
          rw [← @space_leave (k.updateEnteringSys.syscall request).1] at wrote
          exact wrote
      | _ => cases filling

/-- While the counts are exact, no other address space has a page that the running program
may write to. -/
theorem unseen_of_writable (tended : k.space.Tended) (owner : k.space.dir k.current = some home)
    (user : numPagKernel ≤ addr.toNat / pageSize)
    (writable : k.mm.userWritable (addr.toNat / pageSize) = true) : ¬ k.Seen addr := by
  intro seen
  obtain ⟨t, d, p, here, other, readable, frame⟩ := seen
  obtain ⟨_, present, mine⟩ := readable
  have table : k.getPT k.current = home := congrArg (Option.getD · 0) owner
  have cr3 : k.mm.cr3 = some home := tended.laid.steered owner
  simp only [Mm.userWritable, Bool.and_eq_true] at writable
  obtain ⟨⟨present', _⟩, writes⟩ := writable
  have entry : k.mm.mapped (addr.toNat / pageSize) =
      k.mm.getEntry home (addr.toNat / pageSize) := by
    rw [Mm.mapped, cr3] at present' ⊢
    dsimp only at present' ⊢
    split
    · rfl
    · rename_i past
      rw [if_neg past] at present'
      cases present'
  rw [entry] at present' writes frame
  have high : numPagKernel ≤ p := by
    by_contra low
    have kernel : (k.mm.getEntry d p).user = false :=
      tended.laid.tidy.kernel d p (Nat.lt_of_not_le low)
    rw [kernel] at mine
    cases mine
  rw [table] at other
  exact tended.unshared other.symm user high present' writes present frame.symm

theorem unseen_of_pages (tended : k.space.Tended) (owner : k.space.dir k.current = some home)
    {start : DWord} {count : Nat} (fills : k.fills label = some (start, count))
    (writable : ∀ i < count, numPagKernel ≤ (start + BitVec.ofNat 32 i).toNat / pageSize ∧
      k.mm.userWritable ((start + BitVec.ofNat 32 i).toNat / pageSize) = true) :
    unseen k label := by
  intro block here addr within _
  rw [Option.mem_def, fills] at here
  cases here
  obtain ⟨i, below, rfl⟩ := within
  exact unseen_of_writable tended owner (writable i below).1 (writable i below).2

/-- The parent has its own copy of the page when it reads a character into it. -/
theorem stores_undisturbed_fork :
    (Kernel.after exitsSmall [some (.call .fork), some (.store 0x108000 1),
        some (.keyboard 0x1e)]).Undisturbed
      (Kernel.after exitsSmall [some (.call .fork), some (.store 0x108000 1),
        some (.keyboard 0x1e), some (.call (.read 0 0x108000 1))]) := by
  have reached := @reached_after exitsSmall [some (.call .fork), some (.store 0x108000 1),
    some (.keyboard 0x1e)] (by decide +kernel)
  apply @stores_undisturbed _ _ (some (.call (.read 0 0x108000 1))) reached.any
  · rfl
  · have tended := (exits_tended reached).2.resolve_left (by decide +kernel)
    apply @unseen_of_pages _ (some (.call (.read 0 0x108000 1))) 8 tended _ 0x108000 1
    · decide +kernel
    · decide +kernel
    · decide +kernel
  · exact @step_after exitsSmall [some (.call .fork), some (.store 0x108000 1),
      some (.keyboard 0x1e)] (some (.call (.read 0 0x108000 1))) (by decide +kernel)

/-- The parent reads a character into a page that it shares with its child. -/
theorem stores_undisturbed_counterexample :
    ¬ ∀ k label k', Reachable anyAction k → fillsBuffer label = true →
      k.step label = some k' → k.Undisturbed k' := by
  intro claim
  have reached := @reached_after everyStep [some (.call .fork), some (.keyboard 0x1e)]
    (by decide +kernel)
  have stepped := @step_after everyStep [some (.call .fork), some (.keyboard 0x1e)]
    (some (.call (.read 0 0x108000 1))) (by decide +kernel)
  have same := claim _ _ _ reached.any rfl stepped 2 7 0x108000 (by decide +kernel)
    (by decide +kernel)
  revert same
  decide +kernel

end Zeos
