import Zeos.Contexts

set_option autoImplicit false

/-! What each piece of code leaves on the stack that it runs on. -/

namespace Zeos

open CallStack

variable {link : Link} {scratch : Scratch} {c : Cpu}

/-! ### The compiler's part -/

theorem body_esp : (scratch.body c).regs .esp = c.regs .esp - 4 * scratch.words.length :=
  pushes_esp scratch.words c

theorem body_ebp : (scratch.body c).regs .ebp = c.regs .ebp :=
  pushes_other (by decide) scratch.words c

theorem within_body {size : Nat} (room : size ≤ c.regs .esp)
    (used : 4 * (scratch.words.length + scratch.litter.length) ≤ size) :
    Within (c.regs .esp - size) (c.regs .esp) c.memory (scratch.body c).memory := by
  have kept := @within_pushes scratch.words c (by omega)
  have left := @within_pushes scratch.litter (c.pushes scratch.words) (by rw [pushes_esp]; omega)
  rw [pushes_esp] at left
  exact (kept.mono (by omega) (Nat.le_refl _)).trans (left.mono (by omega) (by omega))

theorem called_other {r : Reg} (kept : r ≠ .eax ∧ r ≠ .ecx ∧ r ≠ .edx) :
    (scratch.called c).regs r = c.regs r :=
  if_neg (by simp only [kept, or_self, not_false_eq_true])

theorem within_called {size : Nat} (room : size ≤ c.regs .esp)
    (used : 4 * scratch.litter.length ≤ size) :
    Within (c.regs .esp - size) (c.regs .esp) c.memory (scratch.called c).memory :=
  (@within_pushes scratch.litter c (by omega)).mono (by omega) (Nat.le_refl _)

/-! ### `sched.S` -/

theorem getEbp_regs (link : Link) (site : Nat) (c : Cpu) (room : 4 ≤ c.regs .esp) :
    (getEbp link site c).regs .eax = c.regs .ebp ∧
      (getEbp link site c).regs .esp = c.regs .esp ∧
      (getEbp link site c).regs .ebp = c.regs .ebp := by
  simp [getEbp, getEbpText, Cpu.call, set_other, push_other, Nat.sub_add_cancel room]

theorem getEbp_memory (link : Link) (site : Nat) (c : Cpu) :
    (getEbp link site c).memory = (c.push site).memory := by
  simp [getEbp, getEbpText, Cpu.call]

/-- `task_switch` up to the frame of `inner_task_switch`, as one push after the other. -/
theorem enter_memory (link : Link) (c : Cpu) (after : Nat) :
    (((c.call link.taskSwitch after).run (taskSwitchText link)).run frame).memory =
      (c.pushes [after, c.regs .ebp, c.regs .esi, c.regs .edi, c.regs .ebx,
        (c.pushes [after, c.regs .ebp, c.regs .esi, c.regs .edi, c.regs .ebx]).memory
          (c.regs .esp - 4 - 4 + 8), link.innerReturn, c.regs .esp - 4 - 4]).memory := by
  simp [taskSwitchText, frame, Cpu.call, Cpu.pushes, push_set, push_other, set_other]

/-- The words that a task leaves when it is switched out. -/
def frameWords (link : Link) (caller : Cpu) (after : Nat) : List Nat :=
  [caller.regs .esp - 8, link.innerReturn, caller.memory (caller.regs .esp), caller.regs .ebx,
    caller.regs .edi, caller.regs .esi, caller.regs .ebp, after]

/-- What `inner_task_switch` finds when it has its frame. -/
structure Entered (link : Link) (caller : Cpu) (after : Nat) (c : Cpu) : Prop where
  esp : c.regs .esp = caller.regs .esp - 32
  ebp : c.regs .ebp = caller.regs .esp - 32
  words : Holds c.memory (caller.regs .esp - 32) (frameWords link caller after)
  within : Within (caller.regs .esp - 32) (caller.regs .esp) caller.memory c.memory

theorem entered {after : Nat} (room : 32 ≤ c.regs .esp) : Entered link c after
    (((c.call link.taskSwitch after).run (taskSwitchText link)).run frame) := by
  have five := @within_pushes [after, c.regs .ebp, c.regs .esi, c.regs .edi, c.regs .ebx] c
    (by simp only [List.length]; omega)
  have read := five (c.regs .esp - 4 - 4 + 8) (by omega)
  have pushed := enter_memory link c after
  rw [read, show c.regs .esp - 4 - 4 + 8 = c.regs .esp by omega] at pushed
  have words := @Holds.pushes [after, c.regs .ebp, c.regs .esi, c.regs .edi, c.regs .ebx,
    c.memory (c.regs .esp), link.innerReturn, c.regs .esp - 4 - 4] c []
    (by simp only [List.length]; omega) trivial
  have kept := @within_pushes [after, c.regs .ebp, c.regs .esi, c.regs .edi, c.regs .ebx,
    c.memory (c.regs .esp), link.innerReturn, c.regs .esp - 4 - 4] c
    (by simp only [List.length]; omega)
  rw [← pushed] at words kept
  refine ⟨?_, ?_, words, kept⟩
  · simp [taskSwitchText, frame, Cpu.call, push_set, push_other, set_other, Nat.sub_sub]
  · simp [taskSwitchText, frame, Cpu.call, push_set, push_other, set_other, Nat.sub_sub]

/-- `change_context` takes the stack it is given and returns to the code found there. -/
theorem run_changeContext (c : Cpu) :
    (c.run changeContextText).eip = c.memory (c.memory (c.regs .esp + 4) + 4) ∧
      (c.run changeContextText).regs .esp = c.memory (c.regs .esp + 4) + 8 ∧
      (c.run changeContextText).memory = c.memory := by
  simp [changeContextText, pop_esp, set_same]

/-- The rest of `task_switch`. -/
theorem run_taskSwitchRest {arg ebx edi esi ebp after : Nat}
    (words : Holds c.memory (c.regs .esp) [arg, ebx, edi, esi, ebp, after]) :
    (c.run taskSwitchRest).eip = after ∧ (c.run taskSwitchRest).regs .esp = c.regs .esp + 24 ∧
      (c.run taskSwitchRest).regs .ebx = ebx ∧ (c.run taskSwitchRest).regs .edi = edi ∧
      (c.run taskSwitchRest).regs .esi = esi ∧ (c.run taskSwitchRest).regs .ebp = ebp ∧
      (c.run taskSwitchRest).memory = c.memory := by
  obtain ⟨-, second, third, fourth, fifth, sixth, -⟩ := words
  simp [taskSwitchRest, pop_esp, pop_other, set_other, second, third, fourth, fifth, sixth]

/-- `ret_from_fork` returns 0 to the word it finds, and writes the word below. -/
theorem run_retFromFork (c : Cpu) (room : 4 ≤ c.regs .esp) :
    (c.run retFromForkText).eip = c.memory (c.regs .esp) ∧
      (c.run retFromForkText).regs .esp = c.regs .esp + 4 ∧
      (c.run retFromForkText).regs .eax = 0 ∧
      Within (c.regs .esp - 4) (c.regs .esp) c.memory (c.run retFromForkText).memory := by
  have pushed := within_push room (c.regs .ebp)
  refine ⟨?_, ?_, ?_, ?_⟩
  · have read := pushed (c.regs .esp) (.inr (Nat.le_refl _))
    simp [retFromForkText, frame, pop_esp, set_other, Nat.sub_add_cancel room, read]
  · simp [retFromForkText, frame, pop_esp, set_other, Nat.sub_add_cancel room]
  · simp [retFromForkText, frame, pop_other, set_other]
  · have same : (c.run retFromForkText).memory = (c.push (c.regs .ebp)).memory := by
      simp [retFromForkText, frame]
    rw [same]
    exact pushed

/-! ### System calls -/

/-- What is saved of a task in user mode, the last word pushed first. -/
def UserState.words (user : UserState) : List Nat :=
  [user.regs .ebx, user.regs .ecx, user.regs .edx, user.regs .esi, user.regs .edi,
    user.regs .ebp, user.regs .eax, user.regs .ds, user.regs .es, user.regs .fs, user.regs .gs,
    user.eip, user.cs, user.eflags, user.regs .esp, user.ss]

theorem savedAll_esp (user : UserState) (m : Core) :
    (savedAll user m).regs .esp = m.esp0 - 64 := by
  simp [savedAll, saveAll, Cpu.pushes, set_other, Nat.sub_sub]

theorem savedAll_memory (user : UserState) (m : Core) : (savedAll user m).memory =
    ((Cpu.set { m.toCpu with regs := user.regs } .esp m.esp0).pushes user.words.reverse).memory := by
  simp [savedAll, UserState.words, saveAll, Cpu.pushes, push_other, set_other]

/-- The stack of a system call when the function is called. -/
structure SavedUser (user : UserState) (m : Core) (c : Cpu) : Prop where
  esp : c.regs .esp = m.esp0 - 64
  words : Holds c.memory (m.esp0 - 64) user.words

theorem savedUser {user : UserState} {m : Core} {size : Nat} (room : size ≤ m.esp0)
    (used : 64 + 4 * scratch.litter.length ≤ size) :
    SavedUser user m (systemCallHandler user scratch m).toCpu ∧
      Within (m.esp0 - size) m.esp0 m.memory (systemCallHandler user scratch m).memory := by
  have top : (Cpu.set { m.toCpu with regs := user.regs } .esp m.esp0).regs .esp = m.esp0 :=
    set_same ..
  have count : user.words.reverse.length = 16 := rfl
  have holds := @Holds.pushes user.words.reverse
    (Cpu.set { m.toCpu with regs := user.regs } .esp m.esp0) [] (by rw [top, count]; omega) trivial
  have kept := @within_pushes user.words.reverse
    (Cpu.set { m.toCpu with regs := user.regs } .esp m.esp0) (by rw [top, count]; omega)
  rw [← savedAll_memory, top, count] at holds kept
  rw [List.reverse_reverse, List.append_nil] at holds
  have esp := savedAll_esp user m
  unfold systemCallHandler
  simp only [run_cons, run_nil, exec_movl]
  generalize savedAll user m = saved at holds kept esp ⊢
  have esp' : (saved.set .ebx (saved.value (.reg .eax))).regs .esp = m.esp0 - 64 := by
    rw [set_other _ _ (by decide), esp]
  have left := @within_called scratch (saved.set .ebx (saved.value (.reg .eax))) (size - 64)
    (by rw [esp']; omega) (by omega)
  rw [esp'] at left
  refine ⟨⟨?_, ?_⟩, ?_⟩
  · rw [set_other _ _ (by decide), called_other (by decide), esp']
  · exact holds.apart left (.inr (Nat.le_refl _))
  · exact (kept.mono (by omega) (Nat.le_refl _)).trans (left.mono (by omega) (by omega))

theorem within_copyWords (count : Nat) : ∀ (p q : Nat) (c : Cpu),
    Within q (q + 4 * count) c.memory (copyWords count p q c).memory := by
  induction count with
  | zero => exact fun _ _ _ => Within.refl _ _ _
  | succ count ih =>
      intro p q c
      have first := within_store c q (c.memory p)
      have later := ih (p + 4) (q + 4) (c.store q (c.memory p))
      exact (first.mono (Nat.le_refl _) (by omega)).trans (later.mono (by omega) (by omega))

/-- Every word arrives when the two ranges are apart. -/
theorem copyWords_copies (count : Nat) : ∀ {p q : Nat} (c : Cpu),
    p + 4 * count ≤ q ∨ q + 4 * count ≤ p →
    ∀ i < count, (copyWords count p q c).memory (q + 4 * i) = c.memory (p + 4 * i) := by
  induction count with
  | zero => exact fun _ _ _ below => absurd below (Nat.not_lt_zero _)
  | succ count ih =>
      intro p q c apart i below
      have later := within_copyWords count (p + 4) (q + 4) (c.store q (c.memory p))
      show (copyWords count (p + 4) (q + 4) (c.store q (c.memory p))).memory (q + 4 * i) = _
      cases i with
      | zero => rw [later _ (.inl (by omega)), Nat.mul_zero, Nat.add_zero, store_same, Nat.add_zero]
      | succ i =>
          have moved := @ih (p + 4) (q + 4) (c.store q (c.memory p)) (by omega) i (by omega)
          rw [show q + 4 * (i + 1) = q + 4 + 4 * i by omega, moved,
            store_other _ _ (show p + 4 + 4 * i ≠ q by omega)]
          congr 1
          omega

end Zeos
