import Zeos.Space.Blocks
import Zeos.Space.Stores
import Zeos.Write

set_option autoImplicit false

/-! What the notes of the history stand for: bytes in memory, results of calls and released
pages. -/

namespace Zeos

namespace Kernel

variable {k k' : Kernel} {home : DirId} {task : TaskId} {nSem : Int}

/-! ### Delivered characters -/

theorem stuck_readBuffer (size : Nat) : ∀ (k : Kernel) (buffer : DWord) (count : Nat),
    k.stuck = true → (k.readFromKeyboardBuffer size buffer count).1.stuck = true := by
  induction size with
  | zero => exact fun _ _ _ stuck => stuck
  | succ size ih =>
      intro k buffer count stuck
      rw [readFromKeyboardBuffer]
      split
      · exact stuck
      · exact ih _ _ _ (stuck_kernelStore stuck)

/-- The characters that were noted since `k` as delivered to the task that runs there are in
memory. -/
def Recorded (k k' : Kernel) : Prop :=
  ∃ added, k'.trace = added ++ k.trace ∧ ∀ note ∈ added, ∃ place key,
    note = .delivered k.current place key ∧ k'.byteAt place = key

/-- When `read_from_keyboard_buffer` returns, what it has noted as delivered is in memory. -/
theorem readBuffer_recorded (size : Nat) : ∀ (k : Kernel) (buffer : DWord) (count : Nat),
    k.space.Laid → k.space.dir k.current = some home →
    k.keyboard.buffFrom < keyboardBufferSize → k.keyboard.buffTo < keyboardBufferSize →
    (k.readFromKeyboardBuffer size buffer count).1.stuck = false →
    k.Recorded (k.readFromKeyboardBuffer size buffer count).1 ∧
      ∀ other, (∀ i < k.keyboard.contents.length,
        other % pageSize ≠ (buffer + BitVec.ofNat 32 (count + i)).toNat % pageSize) →
        (k.readFromKeyboardBuffer size buffer count).1.mm.peek other = k.mm.peek other := by
  induction size with
  | zero => exact fun k _ _ _ _ _ _ _ => ⟨⟨[], rfl, by simp⟩, fun _ _ => rfl⟩
  | succ size ih =>
      intro k buffer count laid owner fromInside toInside runs
      rw [readFromKeyboardBuffer] at runs ⊢
      split at runs
      · rename_i empty
        rw [if_pos empty]
        exact ⟨⟨[], rfl, by simp⟩, fun _ _ => rfl⟩
      · rename_i some
        rw [if_neg some]
        obtain ⟨length, fromInside'⟩ :=
          contents_drop fromInside toInside (Bool.eq_false_iff.mpr some)
        have few : k.keyboard.contents.length < keyboardBufferSize := by
          rw [Keyboard.contents, RingBuffer.contents_length, RingBuffer.span]
          split <;> omega
        dsimp only at runs ⊢
        generalize here : buffer + BitVec.ofNat 32 count = place at runs ⊢
        have stores : (k.kernelStore place k.keyboard.front).stuck = false := by
          apply Bool.eq_false_iff.mpr
          intro stuck
          have stays := stuck_readBuffer size { ((k.kernelStore place k.keyboard.front).note
            (.delivered k.current place k.keyboard.front)) with
            keyboard := (k.kernelStore place k.keyboard.front).keyboard.drop } buffer (count + 1)
            stuck
          exact absurd (stays.symm.trans runs) (by decide)
        have running : k.stuck = false := by
          apply Bool.eq_false_iff.mpr
          intro stuck
          exact absurd ((stuck_kernelStore stuck).symm.trans stores) (by decide)
        have allowed : k.mm.kernelWritable (place.toNat / pageSize) = true := by
          rw [kernelWritable_eq laid]
          by_contra missing
          have stuck := @kernelStore_missing k home place k.keyboard.front laid owner
            (Bool.eq_false_iff.mpr missing)
          exact absurd (stuck.symm.trans stores) (by decide)
        have minors := @minors_kernelStore k home laid owner place k.keyboard.front
        have laid' := laid.minors minors
        rw [kernelStore_eq running allowed] at runs laid' ⊢
        obtain ⟨recorded, kept⟩ := ih { ((k.stored place k.keyboard.front).note
          (.delivered k.current place k.keyboard.front)) with keyboard := k.keyboard.drop }
          buffer (count + 1) laid' owner fromInside' toInside runs
        obtain ⟨added, trace, bytes⟩ := recorded
        change ∀ other, (∀ i < k.keyboard.drop.contents.length, _) → _ at kept
        refine ⟨⟨added ++ [.delivered k.current place k.keyboard.front], ?_, ?_⟩, ?_⟩
        · rw [List.append_assoc]
          exact trace
        · intro note member
          rcases List.mem_append.mp member with later | first
          · exact bytes note later
          · refine ⟨place, k.keyboard.front, List.mem_singleton.mp first, ?_⟩
            have stays := kept place.toNat fun i below => by
              rw [Nat.add_assoc, BitVec.ofNat_add, ← BitVec.add_assoc, here, Nat.add_comm 1 i]
              exact (offset_apart (Nat.zero_lt_succ i) (by
                simp only [keyboardBufferSize] at few
                simp only [pageSize]
                omega)).symm
            exact stays.trans Mm.peek_poke
        · intro other apart
          have away := apart 0 (by omega)
          rw [Nat.add_zero, here] at away
          have stays := kept other fun i below => by
            rw [Nat.add_assoc, Nat.add_comm 1 i]
            exact apart (i + 1) (by omega)
          exact stays.trans (Mm.peek_poke_other away)

theorem ram_readLoop {buffer : DWord} {totalSize size : Int} :
    (k.readKeyboardLoop buffer totalSize size).1.mm.ram = k.mm.ram := by
  funext f o
  have wrote : Space.Wrote (fun _ => False) k.space
      (k.readKeyboardLoop buffer totalSize size).1.space := wrote_readLoop
  rcases wrote.ram f o with same | stored
  · exact same
  · obtain ⟨_, nowhere, _⟩ := stored
    exact nowhere.elim

/-- A round of `sys_read_keyboard` ends with what it has delivered in memory. -/
theorem round_recorded (laid : k.space.Laid) (owner : k.space.dir k.current = some home)
    (fromInside : k.keyboard.buffFrom < keyboardBufferSize)
    (toInside : k.keyboard.buffTo < keyboardBufferSize) {start buffer : DWord}
    {totalSize size : Int}
    (runs : (k.readFromKeyboardBuffer size.toNat start 0).1.stuck = false) :
    k.Recorded (k.readFromKeyboardBuffer size.toNat start 0).1 ∧
      ((k.readFromKeyboardBuffer size.toNat start 0).1.readKeyboardLoop buffer totalSize
        (size - (k.readFromKeyboardBuffer size.toNat start 0).2)).1.mm.ram =
      (k.readFromKeyboardBuffer size.toNat start 0).1.mm.ram :=
  ⟨(readBuffer_recorded size.toNat k start 0 laid owner fromInside toInside runs).1, ram_readLoop⟩

/-! ### Semaphores -/

theorem trace_updateStats {e : Event} : (k.updateStats task e).trace = k.trace :=
  congrArg View.trace view_updateStats

theorem trace_updateProcessState {dest : Option Node} {first : Bool} :
    (k.updateProcessState task dest first).trace = k.trace := by
  unfold updateProcessState
  dsimp only
  have taken : (if (k.links (.anchor task)).next ≠ none ∧ (k.links (.anchor task)).prev ≠ none then
      { k with links := listDel k.links (.anchor task) } else k).trace = k.trace := by
    split <;> rfl
  generalize (if (k.links (.anchor task)).next ≠ none ∧ (k.links (.anchor task)).prev ≠ none then
      { k with links := listDel k.links (.anchor task) } else k) = k₁ at taken ⊢
  cases dest with
  | none => exact taken
  | some dest =>
      cases first
      · simp only [Bool.false_eq_true, ↓reduceIte]
        split
        · exact taken
        · split <;> exact taken
      · simp only [↓reduceIte]
        split
        · exact taken
        · split <;> exact taken

theorem trace_schedNextRr {saved : Resume} : (k.schedNextRr saved).trace = k.trace := by
  unfold schedNextRr
  split
  · rfl
  · rename_i next _
    have switched : ∀ k₁ : Kernel, (k₁.taskSwitch next saved).trace = k₁.trace := by
      intro k₁
      unfold taskSwitch
      dsimp only
      split <;> rfl
    rw [switched, trace_updateStats]
    show ((k.updateProcessStateRr next none).updateStats next .readyToSys).trace = _
    rw [trace_updateStats]
    exact trace_updateProcessState

/-- `sys_sem_wait` notes that it took a unit or that the task waits, exactly when it does not
fail. -/
theorem sysSemWait_note :
    ((k.sysSemWait nSem).2 = 0 → ∃ sem, semAt nSem = some sem ∧
      ((k.sysSemWait nSem).1.trace = .semTaken sem k.current :: k.trace ∨
        (k.sysSemWait nSem).1.trace = .semBlocked sem k.current :: k.trace)) ∧
    ((k.sysSemWait nSem).2 ≠ 0 → (k.sysSemWait nSem).1 = k) := by
  have fails : (-EINVAL : Int) ≠ 0 := by decide
  unfold sysSemWait
  split
  · exact ⟨fun zero => absurd zero fails, fun _ => rfl⟩
  · rename_i sem found
    split
    · exact ⟨fun zero => absurd zero fails, fun _ => rfl⟩
    · split
      · refine ⟨fun _ => ⟨sem, found, Or.inr ?_⟩, fun other => absurd rfl other⟩
        rw [trace_schedNextRr, trace_updateStats]
        exact trace_updateProcessState
      · exact ⟨fun _ => ⟨sem, found, Or.inl rfl⟩, fun other => absurd rfl other⟩

/-- A task that waited notes the result that its call returns. -/
theorem semWaitResumed_note :
    k.semWaitResumed.1.trace = .waitReturned k.current k.semWaitResumed.2 :: k.trace := by
  unfold semWaitResumed
  split <;> rfl

/-- `sys_sem_signal` notes that it raised the counter or let a task go, exactly when it does
not fail. -/
theorem sysSemSignal_note :
    ((k.sysSemSignal nSem).2 = 0 → (k.sysSemSignal nSem).1.stuck = true ∨
      ∃ sem, semAt nSem = some sem ∧
        ((k.sysSemSignal nSem).1.trace = .semRaised sem :: k.trace ∨
          ∃ task, (k.sysSemSignal nSem).1.trace = .semGranted sem task :: k.trace)) ∧
    ((k.sysSemSignal nSem).2 ≠ 0 → (k.sysSemSignal nSem).1 = k) := by
  have fails : (-EINVAL : Int) ≠ 0 := by decide
  unfold sysSemSignal
  split
  · exact ⟨fun zero => absurd zero fails, fun _ => rfl⟩
  · rename_i sem found
    split
    · exact ⟨fun zero => absurd zero fails, fun _ => rfl⟩
    · split
      · exact ⟨fun _ => Or.inr ⟨sem, found, Or.inl rfl⟩, fun other => absurd rfl other⟩
      · split
        · exact ⟨fun _ => Or.inl rfl, fun other => absurd rfl other⟩
        · rename_i waiter _
          refine ⟨fun _ => Or.inr ⟨sem, found, Or.inr ⟨waiter, ?_⟩⟩, fun other => absurd rfl other⟩
          have ready : (k.addProcessToScheduling waiter .blockedToReady false).trace = k.trace := by
            unfold addProcessToScheduling
            rw [trace_updateStats]
            exact trace_updateProcessState
          exact congrArg (.semGranted sem waiter :: ·) ready

/-! ### Directories -/

/-- `free_DIR` notes a release exactly when it gives back the pages, for the last user. -/
theorem freeDIR_note :
    (k.dirCount (k.getPT task) = 1 ∧
      (k.freeDIR task).trace = .dirReleased (k.getPT task) :: k.trace ∧
      (k.freeDIR task).mm = k.mm.freeUserPages (k.getPT task) (k.tasks task).heapTop) ∨
    (k.dirCount (k.getPT task) ≠ 1 ∧ (k.freeDIR task).trace = k.trace ∧
      (k.freeDIR task).mm = k.mm) := by
  have count : (k.setDirCount (k.getPT task) (k.dirCount (k.getPT task) - 1)).dirCount
      (k.getPT task) = k.dirCount (k.getPT task) - 1 := Function.update_self ..
  unfold freeDIR
  dsimp only
  rw [count]
  by_cases last : k.dirCount (k.getPT task) - 1 = 0
  · rw [if_pos last]
    exact Or.inl ⟨by omega, rfl, rfl⟩
  · rw [if_neg last]
    exact Or.inr ⟨by omega, rfl, rfl⟩

end Kernel

end Zeos
