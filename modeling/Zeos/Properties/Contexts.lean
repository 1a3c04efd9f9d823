import Zeos.Contexts.Stored
set_option autoImplicit false

/-! Context switches and the making of tasks preserve contexts. -/

namespace Zeos

open CallStack

variable {link : Link} {task next child : TaskId} {scratch : Scratch} {after : Nat} {c : Cpu}
variable {m : Core} {s : Contexts}

/-- The registers that a caller of `task_switch` finds again. -/
def savedRegs : List Reg := [.esp, .ebp, .ebx, .esi, .edi]

/-- What a task was promised: after its call of `task_switch` everything is as before; a new
task is where its parent is when the system call returns, a forked one with the value 0, and
has the words that are saved there. -/
def Context.Resumed (link : Link) (task : TaskId) (c : Cpu) : Context → Prop
  | .idle => c.eip = link.cpuIdle ∧ c.regs .esp = link.task task + pageSize
  | .switchedOut caller after => c.eip = after ∧ (∀ r ∈ savedRegs, c.regs r = caller.regs r) ∧
      ∀ addr, caller.regs .esp ≤ addr → addr < link.task task + pageSize →
        c.memory addr = caller.memory addr
  | .forked parent caller => c.eip = link.handlerReturn ∧ c.regs .eax = 0 ∧
      caller.regs .esp = link.stack parent handlerPos ∧
      c.regs .esp = link.stack task handlerPos ∧
      ∀ i, handlerPos ≤ i → i < kernelStackSize →
        c.memory (link.stack task i) = caller.memory (link.stack parent i)
  | .cloned parent caller function stack => c.eip = link.handlerReturn ∧
      caller.regs .esp = link.stack parent handlerPos ∧
      c.regs .esp = link.stack task handlerPos ∧
      ∀ i, handlerPos ≤ i → i < kernelStackSize →
        c.memory (link.stack task i) = clonedWord link parent caller function stack i

/-- The places that `change_context` returns to differ. -/
theorem Link.returns (link : Link) : link.retFromFork ≠ link.innerReturn ∧
    link.handlerReturn ≠ link.innerReturn ∧ link.handlerReturn ≠ link.retFromFork ∧
    link.cpuIdle ≠ link.innerReturn ∧ link.cpuIdle ≠ link.retFromFork := by
  have distinct := link.distinct
  simp only [List.nodup_cons, List.mem_cons, List.not_mem_nil, or_false, not_or] at distinct
  obtain ⟨⟨fork, handler, idle⟩, ⟨handler', idle'⟩, -⟩ := distinct
  exact ⟨Ne.symm fork, Ne.symm handler, Ne.symm handler', Ne.symm idle, Ne.symm idle'⟩

theorem Link.stack_add (link : Link) (task : TaskId) (i k : Nat) :
    link.stack task i + 4 * k = link.stack task (i + k) := by
  rw [Link.stack, Link.stack, Nat.mul_add, Nat.add_assoc]

/-- `change_context` finds its way in each of the layouts. -/
structure Dispatched (link : Link) (task : TaskId) (context : Context) (memory : Nat → Nat)
    (c : Cpu) : Prop where
  resumed : context.Resumed link task c
  within : Within (link.task task + taskStructSize) (link.task task + pageSize) memory c.memory

theorem Dispatched.ofStored {context : Context} (stored : context.Stored link task c.memory)
    (argument : c.memory (c.regs .esp + 4) = c.memory (link.task task + kernelEspField)) :
    Dispatched link task context c.memory (resume link (c.run changeContextText)) := by
  obtain ⟨eip, esp, kept⟩ := run_changeContext c
  rw [argument] at eip esp
  generalize c.run changeContextText = c₁ at eip esp kept ⊢
  obtain ⟨fork, handler, handler', idle, idle'⟩ := link.returns
  cases context with
  | idle =>
      obtain ⟨saved, start⟩ := stored
      rw [saved] at eip esp
      have place : link.stack task (kernelStackSize - 2) + 4 =
          link.stack task (kernelStackSize - 1) :=
        link.stack_add task _ 1
      rw [place, start] at eip
      unfold resume
      rw [if_neg (by rw [eip]; exact idle), if_neg (by rw [eip]; exact idle')]
      refine ⟨⟨eip, esp.trans (link.stack_add task _ 2)⟩, ?_⟩
      rw [kept]
      exact Within.refl _ _ _
  | switchedOut caller after =>
      obtain ⟨room, inside, saved, words, above⟩ := stored
      have large : 32 ≤ caller.regs .esp := by omega
      rw [saved] at eip esp
      rw [words.2.1] at eip
      have frame := words.2.2
      rw [← kept, show caller.regs .esp - 32 + 4 + 4 = c₁.regs .esp by omega] at frame
      obtain ⟨eip', esp', ebx, edi, esi, ebp, kept'⟩ := run_taskSwitchRest frame
      unfold resume
      rw [if_pos eip]
      refine ⟨⟨eip', ?_, ?_⟩, ?_⟩
      · intro r among
        simp only [savedRegs, List.mem_cons, List.not_mem_nil, or_false] at among
        rcases among with rfl | rfl | rfl | rfl | rfl
        · rw [esp', esp]
          omega
        · exact ebp
        · exact ebx
        · exact esi
        · exact edi
      · intro addr from_ to_
        rw [kept', kept]
        exact above addr from_ to_
      · rw [kept', kept]
        exact Within.refl _ _ _
  | forked parent caller =>
      obtain ⟨saved, start, place, returns, words⟩ := stored
      rw [saved] at eip esp
      have place₁ : link.stack task (handlerPos - 3) + 4 = link.stack task (handlerPos - 2) :=
        link.stack_add task _ 1
      have place₂ : link.stack task (handlerPos - 3) + 8 = link.stack task (handlerPos - 1) :=
        link.stack_add task _ 2
      rw [place₁, start] at eip
      rw [place₂] at esp
      obtain ⟨eip', esp', eax, within⟩ := run_retFromFork c₁ (by
        rw [esp]; simp only [Link.stack, handlerPos, kernelStackSize]; omega)
      rw [esp, kept] at eip' within
      rw [esp] at esp'
      unfold resume
      rw [if_neg (by rw [eip]; exact fork), if_pos eip]
      refine ⟨⟨eip'.trans returns, eax, place, esp'.trans (link.stack_add task _ 1), ?_⟩, ?_⟩
      · intro i above below
        rw [within _ (.inr (by
          simp only [Link.stack, handlerPos, kernelStackSize] at above ⊢; omega))]
        exact words i above below
      · apply within.mono
        · simp only [Link.stack, handlerPos, kernelStackSize, taskStructSize]
          omega
        · simp only [Link.stack, handlerPos, kernelStackSize, pageSize]
          omega
  | cloned parent caller function stack =>
      obtain ⟨saved, place, returns, words⟩ := stored
      rw [saved] at eip esp
      have place₁ : link.stack task (handlerPos - 2) + 4 = link.stack task (handlerPos - 1) :=
        link.stack_add task _ 1
      rw [place₁, returns] at eip
      unfold resume
      rw [if_neg (by rw [eip]; exact handler), if_neg (by rw [eip]; exact handler')]
      refine ⟨⟨eip, place, esp.trans (link.stack_add task _ 2), ?_⟩, ?_⟩
      · intro i above below
        rw [kept]
        exact words i above below
      · rw [kept]
        exact Within.refl _ _ _

/-! ### Every run -/

namespace Contexts

theorem sound_boot (link : Link) (m : Core) : (boot link m).Sound link := by
  refine ⟨rfl, fun task context left => ?_⟩
  by_cases idle : task = 0
  · rw [idle] at left ⊢
    have shape : (boot link m).pending 0 = some .idle := by
      show Function.update (fun _ => none) 0 (some Context.idle) 0 = some .idle
      rw [Function.update_self]
    rw [← Option.some.inj (shape.symm.trans left)]
    refine ⟨?_, store_same .., ?_⟩
    · show (0 : TaskId) ≠ 1
      decide
    · refine (store_other _ _ ?_).trans (store_same ..)
      simp only [Link.stack, kernelStackSize, kernelEspField]
      omega
  · have shape : (boot link m).pending task = none := by
      show Function.update (fun _ => none) 0 (some Context.idle) task = none
      rw [Function.update_of_ne idle]
    rw [shape] at left
    cases left

theorem Sound.own (sound : s.Sound link) (work : OwnWork link s.running s.core m) :
    Sound link { s with core := m } := by
  refine ⟨work.esp0.trans sound.esp0, fun task context left => ?_⟩
  obtain ⟨other, stored⟩ := sound.stored task context left
  refine ⟨other, stored.frame fun addr inside => ?_⟩
  rcases inside with saved | stack
  · rw [saved]
    exact work.saved task
  · exact work.others task other addr stack.1 stack.2

/-- How the tasks are left when the running one has been saved. -/
def saved (after : Nat) (s : Contexts) : TaskId → Option Context :=
  Function.update s.pending s.running (some (.switchedOut s.core.toCpu after))

/-- The machine when `change_context` is called. -/
def atChange (link : Link) (scratch : Scratch) (after : Nat) (s : Contexts) : Core :=
  innerTaskSwitch link scratch
    { s.core with toCpu := (s.core.toCpu.call link.taskSwitch after).run (taskSwitchText link) }

theorem CanSwitch.left (can : s.CanSwitch link scratch next) :
    Left link s.running next s.core.toCpu after (s.atChange link scratch after) := by
  obtain ⟨argument, room, inside⟩ := can
  exact left_of_entered argument room inside (entered (by omega))

theorem Sound.saved (sound : s.Sound link) (can : s.CanSwitch link scratch next)
    {context : Context} (left : s.saved after task = some context) :
    context.Stored link task (s.atChange link scratch after).memory := by
  have change := @CanSwitch.left link next scratch after s can
  by_cases own : task = s.running
  · rw [own] at left ⊢
    have shape : context = .switchedOut s.core.toCpu after :=
      Option.some.inj (left.symm.trans (Function.update_self ..))
    rw [shape]
    exact change.out
  · rw [Contexts.saved, Function.update_of_ne own] at left
    exact (sound.stored task context left).2.frame (change.others task own)

theorem Sound.dispatched (sound : s.Sound link) (can : s.CanSwitch link scratch next)
    {context : Context} (left : s.saved after next = some context) :
    Dispatched link next context (s.atChange link scratch after).memory
      (s.switch link scratch after next).core.toCpu :=
  Dispatched.ofStored (sound.saved can left) (@CanSwitch.left link next scratch after s can).argument

theorem Sound.switch (sound : s.Sound link) (ready : next = s.running ∨ s.pending next ≠ none)
    (can : s.CanSwitch link scratch next) : (s.switch link scratch after next).Sound link := by
  have change := @CanSwitch.left link next scratch after s can
  obtain ⟨context, left⟩ : ∃ context, s.saved after next = some context := by
    by_cases own : next = s.running
    · exact ⟨_, by rw [own]; exact Function.update_self ..⟩
    · rw [Contexts.saved, Function.update_of_ne own]
      exact Option.ne_none_iff_exists'.mp (ready.resolve_left own)
  have within := (@Sound.dispatched link next scratch after s sound can context left).within
  refine ⟨change.esp0, fun task context kept => ?_⟩
  have other : task ≠ next := by
    intro same
    have shape : (s.switch link scratch after next).pending next = none := by
      show Function.update (s.saved after) next none next = none
      rw [Function.update_self]
    rw [same, shape] at kept
    cases kept
  have before : s.saved after task = some context :=
    (Function.update_of_ne other ..).symm.trans kept
  exact ⟨other, (sound.saved can before).frame
    (leaves_other within other (Nat.le_add_right ..) (Nat.le_refl _))⟩

/-- A system call that makes a task from the stack of the running one. -/
theorem Sound.made (sound : s.Sound link) {user : UserState} {entry : Scratch} {core : Core}
    {made : Context} (fits : FitsCall entry scratch) (esp0 : core.esp0 = s.core.esp0)
    (free : child ≠ s.running) (stored : made.Stored link child core.memory)
    (others : ∀ other, other ≠ s.running → other ≠ child →
      Leaves link other (systemCallHandler user entry s.core).memory core.memory) :
    Sound link { s with core := core, pending := Function.update s.pending child (some made) } := by
  refine ⟨esp0.trans sound.esp0, fun task context left => ?_⟩
  by_cases new : task = child
  · rw [new] at left ⊢
    have shape : context = made := Option.some.inj (left.symm.trans (Function.update_self ..))
    rw [shape]
    exact ⟨free, stored⟩
  · have before : s.pending task = some context := (Function.update_of_ne new ..).symm.trans left
    obtain ⟨other, kept⟩ := sound.stored task context before
    have top := sound.esp0
    simp only [FitsCall, taskStructSize, pageSize] at fits top
    have entered := (@savedUser entry user s.core (64 + 4 * entry.litter.length) (by omega)
      (Nat.le_refl _)).2
    have entries : Leaves link task s.core.memory (systemCallHandler user entry s.core).memory :=
      leaves_other entered other (by omega) (by simp only [pageSize]; omega)
    exact ⟨other, kept.frame (entries.trans (others task other new))⟩

/-- Where the stack pointer is when the handler calls a function, and the words there. -/
theorem Sound.savedUser (sound : s.Sound link) {user : UserState} {entry : Scratch}
    (fits : FitsCall entry scratch) :
    (systemCallHandler user entry s.core).regs .esp = link.stack s.running handlerPos ∧
      Holds (systemCallHandler user entry s.core).memory (link.stack s.running handlerPos)
        user.words := by
  have top := sound.esp0
  simp only [FitsCall, taskStructSize, pageSize] at fits top
  obtain ⟨⟨esp, words⟩, -⟩ := @Zeos.savedUser entry user s.core (64 + 4 * entry.litter.length)
    (by omega) (Nat.le_refl _)
  have place : s.core.esp0 - 64 = link.stack s.running handlerPos := by
    simp only [Link.stack, handlerPos, kernelStackSize]
    omega
  rw [place] at esp words
  exact ⟨esp, words⟩

theorem FitsCall.function {entry : Scratch} (fits : FitsCall entry scratch) :
    taskStructSize + 4 * (19 + scratch.words.length + scratch.litter.length) ≤ pageSize := by
  simp only [FitsCall, taskStructSize, pageSize] at fits ⊢
  omega

theorem handler_esp0 (user : UserState) : (systemCallHandler user scratch m).esp0 = m.esp0 := by
  unfold systemCallHandler
  rfl

theorem forkStack_esp0 : (forkStack link scratch child m).esp0 = m.esp0 := by
  unfold forkStack
  rfl

theorem cloneStack_esp0 : (cloneStack link scratch child m).esp0 = m.esp0 := by
  unfold cloneStack
  rfl

theorem Sound.step {s' : Contexts} (step : Step link s s') (sound : s.Sound link) :
    s'.Sound link := by
  cases step with
  | own work => exact sound.own work
  | switch ready can => exact sound.switch ready can
  | @fork user entry scratch child free fits =>
      obtain ⟨place, -⟩ := @Sound.savedUser link scratch s sound user entry fits
      obtain ⟨stored, others⟩ := forkStack_stored free place (FitsCall.function fits)
      unfold Contexts.fork
      exact sound.made fits (forkStack_esp0.trans (handler_esp0 user)) free stored others
  | @clone user entry scratch child free fits accepted =>
      obtain ⟨place, words⟩ := @Sound.savedUser link scratch s sound user entry fits
      rw [← place] at words
      obtain ⟨stored, others⟩ := cloneStack_stored free place (FitsCall.function fits) words.1
        words.2.1 accepted
      unfold Contexts.clone
      exact sound.made fits (cloneStack_esp0.trans (handler_esp0 user)) free stored others

theorem Run.sound (run : Run link m s) : s.Sound link := by
  induction run with
  | refl => exact sound_boot link m
  | tail _ step sound => exact sound.step step

end Contexts

open Contexts

/-- In every run, whatever was switched, forked and cloned before: a switch to a task gives
it what it was promised when it was left. -/
theorem contexts_preserved {context : Context} (run : Run link m s)
    (can : s.CanSwitch link scratch next) (left : s.saved after next = some context) :
    context.Resumed link next (s.switch link scratch after next).core.toCpu :=
  (run.sound.dispatched can left).resumed

/-- Task 1 has made task 2 with `sys_clone` and calls `task_switch` for it. -/
def cloneAndCall (link : Link) (user : UserState) (m : Core) : Contexts :=
  let made := (boot link m).clone link user ⟨[], [], fun _ => 0, 0⟩ ⟨[], [], fun _ => 0, 0⟩ 2
  { made with core := { made.core with
      regs := fun _ => link.stack 1 500
      memory := Function.update made.core.memory (link.stack 1 500) (link.task 2) } }

theorem cloneAndCall_run {user : UserState}
    (accepted : lUserStart ≤ user.regs .ecx ∧ user.regs .ecx < 0x100000000) :
    Run link m (cloneAndCall link user m) ∧
      (cloneAndCall link user m).CanSwitch link ⟨[], [], fun _ => 0, 0⟩ 2 := by
  have fits : FitsCall ⟨[], [], fun _ => 0, 0⟩ ⟨[], [], fun _ => 0, 0⟩ := by
    unfold FitsCall
    decide
  have cloned : Run link m ((boot link m).clone link user ⟨[], [], fun _ => 0, 0⟩
      ⟨[], [], fun _ => 0, 0⟩ 2) :=
    .tail .refl (.clone (show (2 : TaskId) ≠ 1 by decide) fits accepted)
  have position : link.stack 1 500 = link.task 1 + 2000 := rfl
  generalize shape : (boot link m).clone link user ⟨[], [], fun _ => 0, 0⟩
    ⟨[], [], fun _ => 0, 0⟩ 2 = made at cloned
  have running : made.running = 1 := by
    rw [← shape]
    rfl
  have after_ : cloneAndCall link user m = { made with core := { made.core with
      regs := fun _ => link.stack 1 500
      memory := Function.update made.core.memory (link.stack 1 500) (link.task 2) } } := by
    rw [← shape]
    rfl
  rw [after_, position]
  generalize link.task 1 + 2000 = top at position
  have outside : ∀ other addr, (other ≠ 1 → addr < link.task other + pageSize) →
      link.task other + kernelEspField ≤ addr → addr ≤ link.task other + kernelEspField ∨ other ≠ 1 →
      addr ≠ top := by
    rw [← position]
    intro other addr below above kind
    by_cases own : other = 1
    · rw [own] at above kind
      have low := kind.resolve_right (not_not.mpr rfl)
      simp only [Link.stack, kernelEspField] at low ⊢
      omega
    · have pages := @Link.apart link 1 other own
      have inside := below own
      simp only [Link.stack, kernelEspField, pageSize] at pages inside above ⊢
      omega
  refine ⟨cloned.tail (Step.own ⟨?_, ?_, rfl⟩), ⟨?_, ?_, ?_⟩⟩
  · intro other different addr above below
    rw [running] at different
    have elsewhere := outside other addr (fun _ => below)
      (by simp only [taskStructSize, kernelEspField] at above ⊢; omega) (.inr different)
    show Function.update made.core.memory top (link.task 2) addr = _
    rw [Function.update_of_ne elsewhere]
  · intro other
    have elsewhere := outside other (link.task other + kernelEspField)
      (fun _ => by simp only [kernelEspField, pageSize]; omega) (Nat.le_refl _) (.inl (Nat.le_refl _))
    show Function.update made.core.memory top (link.task 2) _ = _
    rw [Function.update_of_ne elsewhere]
  · show Function.update made.core.memory top (link.task 2) top = _
    rw [Function.update_self]
  · show link.task made.running + taskStructSize + 4 * (10 + 0 + 0) ≤ top
    rw [running, ← position]
    simp only [Link.stack, taskStructSize]
    omega
  · show top + 4 ≤ link.task made.running + pageSize
    rw [running, ← position]
    simp only [Link.stack, pageSize]
    omega

/-- Task 1 clones itself as task 2, and switches to it. -/
theorem contexts_preserved_clone :
    let link : Link := ⟨32, 1, 2, 3, 4, 5, 6, 7, 8, 9, 10, by decide, by decide⟩
    let user : UserState := ⟨fun r => if r = .ecx then 0x100004 else 0, 0, 0, 0, 0⟩
    let m : Core := ⟨⟨0, fun _ => 0, fun _ => 0⟩, 0, 0⟩
    (Context.cloned 1 (systemCallHandler user ⟨[], [], fun _ => 0, 0⟩ (boot link m).core).toCpu 0
        0x100004).Resumed link 2
      ((cloneAndCall link user m).switch link ⟨[], [], fun _ => 0, 0⟩ 100 2).core.toCpu := by
  intro link user m
  obtain ⟨run, can⟩ := @cloneAndCall_run link m user (by decide)
  refine contexts_preserved run can ?_
  show Function.update (Function.update _ 2 _) 1 _ 2 = _
  rw [Function.update_of_ne (by decide), Function.update_self]
  rfl

end Zeos
