import Zeos.Contexts.Code

set_option autoImplicit false

/-! The stacks of the tasks that do not run. -/

namespace Zeos

open CallStack

variable {link : Link} {task other next child parent : TaskId} {memory memory' last : Nat → Nat}
variable {scratch : Scratch} {after low high : Nat} {c caller : Cpu} {m : Core} {s : Contexts}

/-! ### Places -/

theorem Link.apart (different : other ≠ task) :
    link.task other + pageSize ≤ link.task task ∨ link.task task + pageSize ≤ link.task other := by
  have values : other.val ≠ task.val := fun same => different (Fin.ext same)
  simp only [Link.task, pageSize]
  omega

theorem Link.below_user (link : Link) (task : TaskId) :
    link.task task + pageSize + pageSize ≤ lUserStart := by
  have fits := link.below
  have inside := task.isLt
  simp only [Link.task, pageSize, userFirstPage, lUserStart, nrTasks] at fits inside ⊢
  omega

theorem current_eq (above : link.task task ≤ c.regs .esp)
    (below : c.regs .esp < link.task task + pageSize) : current c = link.task task := by
  simp only [current, Link.task, pageSize] at above below ⊢
  omega

/-- The stack of a task and its `kernel_esp` stay. -/
def Leaves (link : Link) (task : TaskId) (memory memory' : Nat → Nat) : Prop :=
  ∀ addr, addr = link.task task + kernelEspField ∨
    link.task task + taskStructSize ≤ addr ∧ addr < link.task task + pageSize →
    memory' addr = memory addr

theorem Leaves.trans (first : Leaves link task memory memory') (second : Leaves link task memory' last) :
    Leaves link task memory last :=
  fun addr inside => (second addr inside).trans (first addr inside)

theorem leaves_within (within : Within low high memory memory')
    (outside : high ≤ link.task task ∨ link.task task + pageSize ≤ low) :
    Leaves link task memory memory' := by
  intro addr inside
  apply within
  simp only [kernelEspField, taskStructSize, pageSize] at inside outside ⊢
  omega

/-- What happens within the page of another task. -/
theorem leaves_other (within : Within low high memory memory') (different : other ≠ task)
    (above : link.task task ≤ low) (below : high ≤ link.task task + pageSize) :
    Leaves link other memory memory' := by
  apply leaves_within within
  have pages := @Link.apart link task other different
  omega

/-! ### What was left -/

/-- The stack of a task that called `task_switch`. -/
structure SwitchedOut (link : Link) (task : TaskId) (memory : Nat → Nat) (caller : Cpu)
    (after : Nat) : Prop where
  room : link.task task + taskStructSize + 32 ≤ caller.regs .esp
  inside : caller.regs .esp + 4 ≤ link.task task + pageSize
  saved : memory (link.task task + kernelEspField) = caller.regs .esp - 32
  words : Holds memory (caller.regs .esp - 32) (frameWords link caller after)
  above : ∀ addr, caller.regs .esp ≤ addr → addr < link.task task + pageSize →
    memory addr = caller.memory addr

/-- The index where the handler's part of a stack begins: 16 words from the top. -/
abbrev handlerPos : Nat := kernelStackSize - 16

/-- The stack of a task made by a system call. -/
structure Made (link : Link) (task parent : TaskId) (memory : Nat → Nat) (caller : Cpu)
    (word : Nat → Nat) : Prop where
  place : caller.regs .esp = link.stack parent handlerPos
  returns : memory (link.stack task (handlerPos - 1)) = link.handlerReturn
  words : ∀ i, handlerPos ≤ i → i < kernelStackSize → memory (link.stack task i) = word i

/-- The words of a clone: those of its parent, but for the user's `%esp` and `%eip`. -/
def clonedWord (link : Link) (parent : TaskId) (caller : Cpu) (function stack i : Nat) : Nat :=
  if i = kernelStackSize - 2 then (stack + 0xFFFFFFFC) % 0x100000000
  else if i = kernelStackSize - 5 then function
  else caller.memory (link.stack parent i)

/-- What memory holds of a task that was left so. -/
def Context.Stored (link : Link) (task : TaskId) (memory : Nat → Nat) : Context → Prop
  | .idle => memory (link.task task + kernelEspField) = link.stack task (kernelStackSize - 2) ∧
      memory (link.stack task (kernelStackSize - 1)) = link.cpuIdle
  | .switchedOut caller after => SwitchedOut link task memory caller after
  | .forked parent caller =>
      memory (link.task task + kernelEspField) = link.stack task (handlerPos - 3) ∧
      memory (link.stack task (handlerPos - 2)) = link.retFromFork ∧
      Made link task parent memory caller fun i => caller.memory (link.stack parent i)
  | .cloned parent caller function stack =>
      memory (link.task task + kernelEspField) = link.stack task (handlerPos - 2) ∧
      Made link task parent memory caller (clonedWord link parent caller function stack)

/-- A word of the stack. -/
theorem Leaves.word (leaves : Leaves link task memory memory') {i : Nat} (above : 18 ≤ i)
    (below : i < kernelStackSize) : memory' (link.stack task i) = memory (link.stack task i) := by
  apply leaves
  right
  simp only [Link.stack, taskStructSize, pageSize, kernelStackSize] at below ⊢
  omega

theorem Leaves.saved (leaves : Leaves link task memory memory') :
    memory' (link.task task + kernelEspField) = memory (link.task task + kernelEspField) :=
  leaves _ (.inl rfl)

theorem SwitchedOut.frame (leaves : Leaves link task memory memory')
    (out : SwitchedOut link task memory caller after) :
    SwitchedOut link task memory' caller after := by
  obtain ⟨room, inside, saved, words, above⟩ := out
  refine ⟨room, inside, leaves.saved.trans saved, words.frame ?_, ?_⟩
  · intro i from_ to_
    apply leaves
    right
    simp only [frameWords, List.length, taskStructSize, pageSize] at *
    omega
  · intro addr from_ to_
    rw [leaves addr (.inr ⟨by simp only [taskStructSize] at room ⊢; omega, to_⟩)]
    exact above addr from_ to_

theorem Made.frame {word : Nat → Nat} (leaves : Leaves link task memory memory')
    (made : Made link task parent memory caller word) :
    Made link task parent memory' caller word := by
  obtain ⟨place, returns, words⟩ := made
  refine ⟨place, (leaves.word (by decide) (by decide)).trans returns, fun i above below => ?_⟩
  rw [leaves.word (by simp only [handlerPos, kernelStackSize] at above; omega) below]
  exact words i above below

/-- What others do does not matter. -/
theorem Context.Stored.frame {context : Context} (leaves : Leaves link task memory memory')
    (stored : context.Stored link task memory) : context.Stored link task memory' := by
  cases context with
  | idle =>
      exact ⟨leaves.saved.trans stored.1, (leaves.word (by decide) (by decide)).trans stored.2⟩
  | switchedOut caller after => exact SwitchedOut.frame leaves stored
  | forked parent caller =>
      obtain ⟨saved, returns, made⟩ := stored
      exact ⟨leaves.saved.trans saved, (leaves.word (by decide) (by decide)).trans returns,
        made.frame leaves⟩
  | cloned parent caller function stack =>
      exact ⟨leaves.saved.trans stored.1, stored.2.frame leaves⟩

/-! ### `inner_task_switch` -/

/-- The processor when `inner_task_switch` calls `change_context`. -/
structure Left (link : Link) (task next : TaskId) (caller : Cpu) (after : Nat) (m : Core) :
    Prop where
  argument : m.memory (m.regs .esp + 4) = m.memory (link.task next + kernelEspField)
  esp0 : m.esp0 = link.task next + pageSize
  out : SwitchedOut link task m.memory caller after
  others : ∀ other, other ≠ task → Leaves link other caller.memory m.memory

theorem left_of_entered (argument : caller.memory (caller.regs .esp) = link.task next)
    (room : link.task task + taskStructSize +
      4 * (10 + scratch.words.length + scratch.litter.length) ≤ caller.regs .esp)
    (inside : caller.regs .esp + 4 ≤ link.task task + pageSize)
    (entered : Entered link caller after (m.toCpu.run frame)) :
    Left link task next caller after (innerTaskSwitch link scratch m) := by
  obtain ⟨esp, ebp, words, within⟩ := entered
  unfold innerTaskSwitch
  generalize m.toCpu.run frame = c at esp ebp words within ⊢
  have bodyEsp := @body_esp scratch c
  have bodyEbp := @body_ebp scratch c
  have body := @within_body scratch c (4 * (scratch.words.length + scratch.litter.length))
    (by omega) (Nat.le_refl _)
  dsimp only
  generalize scratch.body c = c₁ at bodyEsp bodyEbp body ⊢
  rw [esp] at bodyEsp body
  rw [ebp] at bodyEbp
  obtain ⟨eax, ebpEsp, -⟩ := getEbp_regs link scratch.site c₁ (by omega)
  have ebpMemory := getEbp_memory link scratch.site c₁
  have pushed := @within_push c₁ (by omega) scratch.site
  rw [← ebpMemory] at pushed
  generalize getEbp link scratch.site c₁ = c₂ at eax ebpEsp ebpMemory pushed ⊢
  rw [bodyEsp] at ebpEsp pushed
  rw [bodyEbp] at eax
  have page : current c₂ = link.task task := current_eq (by omega) (by omega)
  have t : c₁.memory (c₁.regs .ebp + 8) = link.task next := by
    rw [bodyEbp, body _ (.inr (by omega))]
    exact words.2.2.1.trans argument
  rw [t, page, eax]
  have stored := within_store c₂ (link.task task + kernelEspField) (caller.regs .esp - 32)
  have saved : (c₂.store (link.task task + kernelEspField) (caller.regs .esp - 32)).memory
      (link.task task + kernelEspField) = caller.regs .esp - 32 := store_same ..
  have espStored : (c₂.store (link.task task + kernelEspField) (caller.regs .esp - 32)).regs .esp =
      caller.regs .esp - 32 - 4 * scratch.words.length := ebpEsp
  generalize c₂.store (link.task task + kernelEspField) (caller.regs .esp - 32) = c₃
    at stored saved espStored ⊢
  have first := @within_push c₃ (by omega) (c₃.memory (link.task next + kernelEspField))
  have espFirst : (c₃.push (c₃.memory (link.task next + kernelEspField))).regs .esp =
      c₃.regs .esp - 4 := push_esp ..
  have value : (c₃.push (c₃.memory (link.task next + kernelEspField))).memory (c₃.regs .esp - 4) =
      c₃.memory (link.task next + kernelEspField) := store_same ..
  generalize c₃.push (c₃.memory (link.task next + kernelEspField)) = c₄
    at first espFirst value ⊢
  have second := @within_push c₄ (by omega) scratch.site
  have espSecond : (c₄.push scratch.site).regs .esp = c₄.regs .esp - 4 := push_esp ..
  show Left link task next caller after ⟨(c₄.push scratch.site).goto link.changeContext, _, _⟩
  generalize c₄.push scratch.site = c₅ at second espSecond ⊢
  rw [espFirst] at second espSecond
  rw [espStored] at first second espSecond value
  -- Everything since the entry happened below the frame, but for `kernel_esp`.
  have below : Within (link.task task + taskStructSize) (caller.regs .esp - 32) c.memory c₂.memory :=
    (body.mono (by omega) (Nat.le_refl _)).trans (pushed.mono (by omega) (by omega))
  have calls : Within (link.task task + taskStructSize) (caller.regs .esp - 32) c₃.memory
      c₅.memory :=
    (first.mono (by omega) (by omega)).trans (second.mono (by omega) (by omega))
  have elsewhere : ∀ i, link.task i + kernelEspField < link.task task + taskStructSize ∨
      caller.regs .esp - 32 ≤ link.task i + kernelEspField := by
    intro i
    by_cases same : i = task
    · left
      rw [same]
      simp only [kernelEspField, taskStructSize]
      omega
    · have pages := @Link.apart link task i same
      simp only [kernelEspField, taskStructSize, pageSize] at pages room inside ⊢
      omega
  have all : Within (link.task task) (link.task task + pageSize) caller.memory c₅.memory :=
    (((within.mono (by omega) (by omega)).trans (below.mono (by omega) (by omega))).trans
      (stored.mono (by omega) (by simp only [kernelEspField, pageSize]; omega))).trans
      (calls.mono (by omega) (by omega))
  refine ⟨?_, rfl, ⟨?_, inside, ?_, ?_, ?_⟩, fun other different => ?_⟩
  · show c₅.memory (c₅.regs .esp + 4) = c₅.memory (link.task next + kernelEspField)
    rw [calls _ (elsewhere next), espSecond, second _ (.inr (by omega)), ← value]
    congr 1
    omega
  · omega
  · exact (calls _ (elsewhere task)).trans saved
  · have kept := (words.apart below (.inr (Nat.le_refl _))).apart stored
      (.inr (by simp only [kernelEspField, taskStructSize] at room ⊢; omega))
    exact kept.apart calls (.inr (Nat.le_refl _))
  · intro addr above _
    show c₅.memory addr = caller.memory addr
    rw [calls _ (.inr (by omega)), stored _ (.inr (by
      simp only [kernelEspField, taskStructSize] at room ⊢; omega)), below _ (.inr (by omega)),
      within _ (.inr above)]
  · exact leaves_other all different (Nat.le_refl _) (Nat.le_refl _)
/-! ### `copy_process_stack` -/

/-- A function that the handler has called, with its frame. -/
structure Framed (link : Link) (caller c : Cpu) : Prop where
  esp : c.regs .esp = caller.regs .esp - 8
  ebp : c.regs .ebp = caller.regs .esp - 8
  words : Holds c.memory (caller.regs .esp - 8) [caller.regs .ebp, link.handlerReturn]
  within : Within (caller.regs .esp - 8) (caller.regs .esp) caller.memory c.memory

theorem framed (entry : Nat) (room : 8 ≤ c.regs .esp) :
    Framed link c ((c.call entry link.handlerReturn).run frame) := by
  have memory : ((c.call entry link.handlerReturn).run frame).memory =
      (c.pushes [link.handlerReturn, c.regs .ebp]).memory := by
    simp [frame, Cpu.call, Cpu.pushes, push_other]
  have words := @Holds.pushes [link.handlerReturn, c.regs .ebp] c []
    (by simp only [List.length]; omega) trivial
  have within := @within_pushes [link.handlerReturn, c.regs .ebp] c
    (by simp only [List.length]; omega)
  rw [← memory] at words within
  refine ⟨?_, ?_, words, within⟩
  · simp [frame, Cpu.call, set_other, Nat.sub_sub]
  · simp [frame, Cpu.call, Nat.sub_sub]

/-- The child has the words of its parent from the return address on. -/
structure StackCopied (link : Link) (parent child : TaskId) (caller c : Cpu) : Prop where
  returns : c.memory (link.stack child (handlerPos - 1)) = link.handlerReturn
  words : ∀ i, handlerPos ≤ i → i < kernelStackSize →
    c.memory (link.stack child i) = caller.memory (link.stack parent i)
  others : ∀ other, other ≠ parent → other ≠ child → Leaves link other caller.memory c.memory

theorem stackCopied (different : child ≠ parent)
    (place : caller.regs .esp = link.stack parent handlerPos)
    (fits : taskStructSize + 4 * (19 + scratch.words.length + scratch.litter.length) ≤ pageSize)
    (framed : Framed link caller c) :
    (copyProcessStack link scratch.site (link.task child) (scratch.body c)).2 = handlerPos - 2 ∧
      StackCopied link parent child caller
        (copyProcessStack link scratch.site (link.task child) (scratch.body c)).1 := by
  obtain ⟨esp, ebp, words, within⟩ := framed
  have pages := @Link.apart link parent child different
  simp only [Link.stack, handlerPos, kernelStackSize] at place
  simp only [taskStructSize, pageSize] at fits pages
  have bodyEsp := @body_esp scratch c
  have bodyEbp := @body_ebp scratch c
  have body := @within_body scratch c (4 * (scratch.words.length + scratch.litter.length))
    (by omega) (Nat.le_refl _)
  generalize scratch.body c = c₁ at bodyEsp bodyEbp body ⊢
  rw [esp] at bodyEsp body
  rw [ebp] at bodyEbp
  obtain ⟨eax, espEbp, -⟩ := getEbp_regs link scratch.site c₁ (by omega)
  have pushed := @within_push c₁ (by omega) scratch.site
  rw [← getEbp_memory link] at pushed
  unfold copyProcessStack
  dsimp only
  generalize getEbp link scratch.site c₁ = c₂ at eax espEbp pushed ⊢
  have page : current c₂ = link.task parent := current_eq (by omega) (by
    simp only [pageSize]
    omega)
  have aligned : link.task parent % 4096 = 0 := Nat.mul_mod_left _ _
  have position : c₂.regs .eax % pageSize / 4 = handlerPos - 2 := by
    simp only [pageSize, handlerPos, kernelStackSize]
    omega
  rw [position, page]
  have count : (link.task parent + 4 * kernelStackSize -
      (link.task parent + 4 * (handlerPos - 2 + 1))) / 4 = 17 := by
    simp only [handlerPos, kernelStackSize]
    omega
  rw [count]
  refine ⟨rfl, ?_⟩
  have start : link.task parent + 4 * (handlerPos - 2 + 1) = link.stack parent 1007 := rfl
  have dest : link.task child + 4 * (handlerPos - 2 + 1) = link.stack child 1007 := rfl
  rw [start, dest]
  have copies := @copyWords_copies 17 (link.stack parent 1007) (link.stack child 1007) c₂ (by
    simp only [Link.stack]
    omega)
  have moved := within_copyWords 17 (link.stack parent 1007) (link.stack child 1007) c₂
  generalize copyWords 17 (link.stack parent 1007) (link.stack child 1007) c₂ = c₃ at copies moved ⊢
  -- Above its frame, the stack of the parent stays.
  have kept : ∀ i, 1006 ≤ i → i < 1024 → c₂.memory (link.stack parent i) =
      c.memory (link.stack parent i) := by
    intro i above below
    rw [pushed _ (.inr (by simp only [Link.stack]; omega)),
      body _ (.inr (by simp only [Link.stack]; omega))]
  refine ⟨?_, ?_, ?_⟩
  · have first := copies 0 (by decide)
    rw [Nat.mul_zero, Nat.add_zero, Nat.add_zero, kept 1007 (by decide) (by decide)] at first
    have second := words.2.1
    rw [show caller.regs .esp - 8 + 4 = link.stack parent 1007 by
      simp only [Link.stack]; omega] at second
    exact first.trans second
  · intro i above below
    simp only [handlerPos, kernelStackSize] at above below
    have arrived := copies (i - 1007) (by omega)
    rw [show link.stack child 1007 + 4 * (i - 1007) = link.stack child i by
        simp only [Link.stack]; omega,
      show link.stack parent 1007 + 4 * (i - 1007) = link.stack parent i by
        simp only [Link.stack]; omega, kept i (by omega) (by omega)] at arrived
    rw [arrived]
    exact within _ (.inr (by simp only [Link.stack]; omega))
  · intro other notParent notChild
    have own : Within (link.task parent) (link.task parent + pageSize) caller.memory c₂.memory := by
      simp only [pageSize]
      exact ((within.mono (by omega) (by omega)).trans (body.mono (by omega) (by omega))).trans
        (pushed.mono (by omega) (by omega))
    have theirs := leaves_other own notParent (Nat.le_refl _) (Nat.le_refl _)
    apply theirs.trans
    apply leaves_other moved notChild
    · simp only [Link.stack]
      omega
    · simp only [Link.stack, pageSize]
      omega

/-! ### New tasks -/

theorem forkStack_stored (different : child ≠ parent)
    (place : m.regs .esp = link.stack parent handlerPos)
    (fits : taskStructSize + 4 * (19 + scratch.words.length + scratch.litter.length) ≤ pageSize) :
    (Context.forked parent m.toCpu).Stored link child (forkStack link scratch child m).memory ∧
      ∀ other, other ≠ parent → other ≠ child →
        Leaves link other m.memory (forkStack link scratch child m).memory := by
  have room : 8 ≤ m.regs .esp := by
    rw [place]
    simp only [Link.stack, handlerPos, kernelStackSize]
    omega
  obtain ⟨position, copied⟩ := stackCopied different place fits
    (framed link.sysFork room)
  unfold forkStack
  dsimp only
  rw [position]
  generalize (copyProcessStack link scratch.site (link.task child) (scratch.body
    ((m.toCpu.call link.sysFork link.handlerReturn).run frame))).1 = c at copied ⊢
  obtain ⟨returns, words, others⟩ := copied
  have first := within_store c (link.task child + 4 * (handlerPos - 2)) link.retFromFork
  have stub : (c.store (link.task child + 4 * (handlerPos - 2)) link.retFromFork).memory
      (link.stack child (handlerPos - 2)) = link.retFromFork := store_same ..
  generalize c.store (link.task child + 4 * (handlerPos - 2)) link.retFromFork = c₁ at first stub ⊢
  have second := within_store c₁ (link.task child + kernelEspField)
    (link.task child + 4 * (handlerPos - 2 - 1))
  have saved : (c₁.store (link.task child + kernelEspField)
      (link.task child + 4 * (handlerPos - 2 - 1))).memory (link.task child + kernelEspField) =
      link.stack child (handlerPos - 3) := store_same ..
  generalize c₁.store (link.task child + kernelEspField)
    (link.task child + 4 * (handlerPos - 2 - 1)) = c₂ at second saved ⊢
  have above : ∀ i, handlerPos - 1 ≤ i → c₂.memory (link.stack child i) =
      c.memory (link.stack child i) := by
    intro i from_
    simp only [handlerPos, kernelStackSize] at from_
    rw [second _ (.inr (by simp only [Link.stack, kernelEspField]; omega)),
      first _ (.inr (by simp only [Link.stack, handlerPos, kernelStackSize]; omega))]
  refine ⟨⟨saved, ?_, place, ?_, ?_⟩, ?_⟩
  · rw [second _ (.inr (by
      simp only [Link.stack, kernelEspField, handlerPos, kernelStackSize]; omega))]
    exact stub
  · exact (above _ (Nat.le_refl _)).trans returns
  · intro i from_ to_
    rw [above i (by omega)]
    exact words i from_ to_
  · intro other notParent notChild
    have stubs : Leaves link other c.memory c₁.memory := leaves_other first notChild
      (Nat.le_add_right ..) (by simp only [handlerPos, kernelStackSize, pageSize]; omega)
    have fields : Leaves link other c₁.memory c₂.memory := leaves_other second notChild
      (Nat.le_add_right ..) (by simp only [kernelEspField, pageSize]; omega)
    exact ((others other notParent notChild).trans stubs).trans fields

/-- The arguments of `sys_clone` are the first words that the handler saved. -/
theorem framed_argument {k : Nat} (framed : Framed link caller c) (room : 8 ≤ caller.regs .esp)
    (used : 4 * (scratch.words.length + scratch.litter.length) ≤ c.regs .esp) :
    (scratch.body c).memory ((scratch.body c).regs .ebp + (8 + k)) =
      caller.memory (caller.regs .esp + k) := by
  obtain ⟨esp, ebp, -, within⟩ := framed
  have body := @within_body scratch c _ used (Nat.le_refl _)
  rw [body_ebp, ebp, body _ (.inr (by omega)), within _ (.inr (by omega))]
  congr 1
  omega

theorem cloneStack_stored {function stack : Nat} (different : child ≠ parent)
    (place : m.regs .esp = link.stack parent handlerPos)
    (fits : taskStructSize + 4 * (19 + scratch.words.length + scratch.litter.length) ≤ pageSize)
    (first : m.memory (m.regs .esp) = function) (second : m.memory (m.regs .esp + 4) = stack)
    (accepted : lUserStart ≤ stack ∧ stack < 0x100000000) :
    (Context.cloned parent m.toCpu function stack).Stored link child
        (cloneStack link scratch child m).memory ∧
      ∀ other, other ≠ parent → other ≠ child →
        Leaves link other m.memory (cloneStack link scratch child m).memory := by
  have room : 8 ≤ m.regs .esp := by
    rw [place]
    simp only [Link.stack, handlerPos, kernelStackSize]
    omega
  have inFrame := @framed link m.toCpu link.sysClone room
  obtain ⟨position, copied⟩ := stackCopied different place fits inFrame
  have used : 4 * (scratch.words.length + scratch.litter.length) ≤
      ((m.toCpu.call link.sysClone link.handlerReturn).run frame).regs .esp := by
    rw [inFrame.esp, place]
    simp only [Link.stack, handlerPos, kernelStackSize, taskStructSize, pageSize] at fits ⊢
    omega
  have argument : (scratch.body ((m.toCpu.call link.sysClone link.handlerReturn).run frame)).memory
      ((scratch.body ((m.toCpu.call link.sysClone link.handlerReturn).run frame)).regs .ebp + 8) =
      function := (@framed_argument link scratch _ _ 0 inFrame room used).trans first
  have argument' : (scratch.body ((m.toCpu.call link.sysClone link.handlerReturn).run frame)).memory
      ((scratch.body ((m.toCpu.call link.sysClone link.handlerReturn).run frame)).regs .ebp + 12) =
      stack := (@framed_argument link scratch _ _ 4 inFrame room used).trans second
  unfold cloneStack
  dsimp only
  rw [position, argument, argument']
  generalize (scratch.body ((m.toCpu.call link.sysClone link.handlerReturn).run frame)).memory
    ((scratch.body ((m.toCpu.call link.sysClone link.handlerReturn).run frame)).regs .ebp + 16) =
    exitFunc
  generalize (copyProcessStack link scratch.site (link.task child) (scratch.body
    ((m.toCpu.call link.sysClone link.handlerReturn).run frame))).1 = c at copied ⊢
  obtain ⟨returns, words, others⟩ := copied
  -- The word pushed for the thread is in user memory.
  have high : ∀ i, link.task i + pageSize ≤ (stack + 0xFFFFFFFC) % 0x100000000 := by
    intro i
    have below := link.below_user i
    simp only [lUserStart, pageSize] at accepted below ⊢
    omega
  generalize word : (stack + 0xFFFFFFFC) % 0x100000000 = top at high ⊢
  have wrote := within_store c (link.task child + kernelEspField)
    (link.task child + 4 * (handlerPos - 2))
  have saved : (c.store (link.task child + kernelEspField)
      (link.task child + 4 * (handlerPos - 2))).memory (link.task child + kernelEspField) =
      link.stack child (handlerPos - 2) := store_same ..
  generalize c.store (link.task child + kernelEspField) (link.task child + 4 * (handlerPos - 2)) = c₁
    at wrote saved ⊢
  have wrote₁ := within_store c₁ top exitFunc
  generalize c₁.store top exitFunc = c₂ at wrote₁ ⊢
  have wrote₂ := within_store c₂ (link.task child + 4 * (kernelStackSize - 2)) top
  have esp : (c₂.store (link.task child + 4 * (kernelStackSize - 2)) top).memory
      (link.stack child (kernelStackSize - 2)) = top := store_same ..
  generalize c₂.store (link.task child + 4 * (kernelStackSize - 2)) top = c₃ at wrote₂ esp ⊢
  have wrote₃ := within_store c₃ (link.task child + 4 * (kernelStackSize - 5)) function
  have eip : (c₃.store (link.task child + 4 * (kernelStackSize - 5)) function).memory
      (link.stack child (kernelStackSize - 5)) = function := store_same ..
  generalize c₃.store (link.task child + 4 * (kernelStackSize - 5)) function = c₄ at wrote₃ eip ⊢
  have page := high child
  simp only [pageSize] at page
  have kept : ∀ i, handlerPos - 1 ≤ i → i < kernelStackSize → i ≠ kernelStackSize - 2 →
      i ≠ kernelStackSize - 5 → c₄.memory (link.stack child i) = c.memory (link.stack child i) := by
    intro i above below notEsp notEip
    simp only [handlerPos, kernelStackSize] at above below notEsp notEip
    rw [wrote₃ _ (by simp only [Link.stack, kernelStackSize]; omega),
      wrote₂ _ (by simp only [Link.stack, kernelStackSize]; omega),
      wrote₁ _ (.inl (by simp only [Link.stack]; omega)),
      wrote _ (.inr (by simp only [Link.stack, kernelEspField]; omega))]
  refine ⟨⟨?_, place, ?_, ?_⟩, ?_⟩
  · rw [wrote₃ _ (.inl (by simp only [kernelEspField, kernelStackSize]; omega)),
      wrote₂ _ (.inl (by simp only [kernelEspField, kernelStackSize]; omega)),
      wrote₁ _ (.inl (by simp only [kernelEspField]; omega))]
    exact saved
  · exact (kept _ (by decide) (by decide) (by decide) (by decide)).trans returns
  · intro i above below
    unfold clonedWord
    by_cases userEsp : i = kernelStackSize - 2
    · rw [if_pos userEsp, userEsp, wrote₃ _ (.inr (by simp only [Link.stack, kernelStackSize]; omega)),
        word]
      exact esp
    · by_cases userEip : i = kernelStackSize - 5
      · rw [if_neg userEsp, if_pos userEip, userEip]
        exact eip
      · rw [if_neg userEsp, if_neg userEip, kept i (by omega) below userEsp userEip]
        exact words i above below
  · intro other notParent notChild
    have fields : Leaves link other c.memory c₁.memory := leaves_other wrote notChild
      (Nat.le_add_right ..) (by simp only [kernelEspField, pageSize]; omega)
    have users : Leaves link other c₁.memory c₂.memory := leaves_within wrote₁ (.inr (high other))
    have espWords : Leaves link other c₂.memory c₃.memory := leaves_other wrote₂ notChild
      (Nat.le_add_right ..) (by simp only [kernelStackSize, pageSize]; omega)
    have eipWords : Leaves link other c₃.memory c₄.memory := leaves_other wrote₃ notChild
      (Nat.le_add_right ..) (by simp only [kernelStackSize, pageSize]; omega)
    exact ((((others other notParent notChild).trans fields).trans users).trans espWords).trans
      eipWords

/-! ### Every state -/

/-- The state at every step: the running task owns the stack that the processor takes in
user mode, and the others have theirs as they were left. -/
structure Contexts.Sound (link : Link) (s : Contexts) : Prop where
  esp0 : s.core.esp0 = link.task s.running + pageSize
  stored : ∀ task context, s.pending task = some context →
    task ≠ s.running ∧ context.Stored link task s.core.memory

end Zeos
