import Zeos.Refinement

set_option autoImplicit false

/-! Task switches, interrupts and reads from the keyboard, against the abstract
scheduler. -/

namespace Zeos

open CircularList (Heap Represents Loose)

variable {k k' : Kernel} {r r' : Roster} {task : TaskId} {q q' : Queue} {sem : SemId}

/-! ### Switching tasks -/

theorem listEmpty_queue (ref : Refines k r) (started : Started r q) :
    listEmpty k.links q.head = true ↔ r.queue q = [] := by
  rw [listEmpty_iff ref.lists (family_head started), List.map_eq_nil_iff]

theorem first_queue (ref : Refines k r) (started : Started r q) {rest : List TaskId}
    (some : r.queue q = task :: rest) :
    Kernel.listHeadToTaskStruct (listFirst k.links q.head) = Option.some task := by
  have stored := family_head started
  rw [some, List.map_cons] at stored
  rw [listFirst_cons ref.lists stored]
  rfl

theorem nextTask_eq (ref : Refines k r) :
    (if listEmpty k.links .readyqueue then some k.idleTask
      else Kernel.listHeadToTaskStruct (listFirst k.links .readyqueue)) = some r.nextTask := by
  have started : Started r .ready := by simp [Started]
  have empty : listEmpty k.links .readyqueue = true ↔ r.queue .ready = [] :=
    listEmpty_queue (q := .ready) ref started
  cases h : r.queue .ready with
  | nil =>
      rw [if_pos (empty.mpr h), ref.idle, Roster.nextTask, h]
      rfl
  | cons first rest =>
      have head : Kernel.listHeadToTaskStruct (listFirst k.links .readyqueue) = some first :=
        first_queue (q := .ready) ref started h
      rw [if_neg (by rw [empty, h]; simp), head, Roster.nextTask, h]
      rfl

/-- The chosen task leaves `readyqueue` and runs. -/
theorem Refines.choose (ref : Refines k r) (queues : r.QueueSound) :
    Refines (k.updateProcessStateRr r.nextTask none)
      ((r.setQueue .ready (r.queue .ready).tail).setState r.nextTask .run) := by
  have started : Started r .ready := by simp [Started]
  unfold Kernel.updateProcessStateRr Kernel.updateProcessState
  cases h : r.queue .ready with
  | nil =>
      have next : r.nextTask = r.idle := by simp [Roster.nextTask, h]
      have out : ¬ r.Queued r.nextTask := by
        rintro ⟨q, member⟩
        exact queues.idleOut q (next ▸ member)
      have unlinked : ¬ ((k.links (.anchor r.nextTask)).next ≠ none ∧
          (k.links (.anchor r.nextTask)).prev ≠ none) := by
        rw [linked_iff ref fun s inside => absurd ⟨_, inside⟩ out]
        exact out
      have same : r.setQueue .ready [] = r := by
        rw [Roster.setQueue, ← h, Function.update_eq_self]
      rw [if_neg unlinked, List.tail_nil, same]
      exact ref.state ref.lists
  | cons first rest =>
      have next : r.nextTask = first := by simp [Roster.nextTask, h]
      have inside : first ∈ r.queue .ready := by simp [h]
      have linked : (k.links (.anchor first)).next ≠ none ∧
          (k.links (.anchor first)).prev ≠ none := by
        rw [linked_iff ref]
        · exact ⟨.ready, inside⟩
        · intro s member
          cases queues.apart inside member
      have taken := represents_take ref started inside
      have same : r.take first .ready = r.setQueue .ready rest := by
        simp [Roster.take, h]
      rw [same] at taken
      rw [next, if_pos linked, List.tail_cons]
      exact ref.state taken

theorem Refines.switch (ref : Refines k r) (next : TaskId) (saved : Resume) :
    Refines (k.taskSwitch next saved)
      { r.setTask r.current { r.task r.current with resume := saved } with
        current := next, mode := .switching } := by
  unfold Kernel.taskSwitch
  have core : ∀ t, ((k.setTask k.current { k.currentTask with kernelEsp := saved }).tasks t).core =
      Function.update r.task r.current { r.task r.current with resume := saved } t := by
    intro t
    rw [core_setTask, ref.current]
    simp only [Function.update_apply, ref.core]
    split
    · rw [← ref.core r.current, Kernel.currentTask, ref.current]
      rfl
    · rfl
  dsimp only
  split
  · exact ⟨ref.lists, core, ref.sems, ref.dirCount, rfl, ref.idle, rfl, ref.lastPid, ref.trace,
      ref.fromInside, ref.toInside, ref.contents⟩
  · exact ⟨ref.lists, core, ref.sems, ref.dirCount, rfl, ref.idle, rfl, ref.lastPid, ref.trace,
      ref.fromInside, ref.toInside, ref.contents⟩

theorem Refines.schedNext (ref : Refines k r) (queues : r.QueueSound) (saved : Resume) :
    Refines (k.schedNextRr saved) (r.schedNext saved) := by
  unfold Kernel.schedNextRr
  rw [nextTask_eq ref]
  refine Refines.switch (Refines.of_view (ref.choose queues) ?_) r.nextTask saved
  rw [view_updateStats]
  change ((k.updateProcessStateRr r.nextTask none).updateStats r.nextTask .readyToSys).view = _
  exact view_updateStats

/-- `add_process_to_scheduling` is a move and a statistic. -/
theorem view_addProcess {e : Event} {first : Bool} :
    (k.addProcessToScheduling task e first).view =
      (k.updateProcessState task (some .readyqueue) first).view :=
  view_updateStats

theorem Refines.note (ref : Refines k r) (entry : Note) : Refines (k.note entry) (r.note entry) :=
  ⟨ref.lists, ref.core, ref.sems, ref.dirCount, ref.current, ref.idle, ref.mode, ref.lastPid,
    congrArg (entry :: ·) ref.trace, ref.fromInside, ref.toInside, ref.contents⟩

/-! ### Interrupts -/

/-- The running task, if it is not idle, goes to the back of `readyqueue`. -/
theorem Refines.yield (ref : Refines k r) (running : r.Running) :
    Refines (if k.current ≠ k.idleTask then
        k.updateProcessStateRr k.current (some .readyqueue) else k) r.yield := by
  rw [Roster.yield, ref.current, ref.idle]
  split
  · exact ref.place (q := .ready) (by simp [Started]) running.out false
  · exact ref

/-- Whether the slice is over, or idle has somebody to make room for. -/
theorem Refines.needsSched_iff {ticked : Kernel} (same : Refines ticked r)
    (left : ticked.currentTask.st.remainingTicks =
      k.updateSchedDataRr.currentTask.st.remainingTicks) :
    ticked.needsSchedRr = true ↔ ¬ r.Refuses k.seen .clock := by
  have empty : listEmpty ticked.links .readyqueue = true ↔ r.queue .ready = [] :=
    listEmpty_queue (q := .ready) same (by simp [Started])
  have spent : k.seen.sliceOver = (ticked.currentTask.st.remainingTicks == 0) := by
    rw [left]
    rfl
  rw [Roster.Refuses, spent, Kernel.needsSchedRr, same.current, same.idle, ← empty]
  simp only [Bool.or_eq_true, Bool.and_eq_true, beq_iff_eq, Bool.not_eq_true', not_and,
    Classical.not_imp, beq_eq_false_iff_ne, Bool.not_eq_true]
  tauto

/-- The clock leaves the running task alone, or takes the CPU from it. -/
theorem Refines.clock_cases (ref : Refines k r) (sound : Roster.Sound r) :
    (r.Refuses k.seen .clock ∧ Refines k.clockRoutine r) ∨
    (¬ r.Refuses k.seen .clock ∧ Refines k.clockRoutine (r.yield.schedNext .handler)) := by
  have running : k.currentTask.state = .run := by
    have state := sound.running.state
    rw [← ref.core, ← ref.current] at state
    exact state
  have ticked : Refines ({ k with zeosTicks := k.zeosTicks + 1 }.updateSchedDataRr) r := by
    refine ref.of_view ?_
    unfold Kernel.updateSchedDataRr
    dsimp only
    rw [view_updateStats]
    rfl
  have decided := @Refines.needsSched_iff k r _ ticked rfl
  unfold Kernel.clockRoutine Kernel.executeScheduling
  rw [if_pos running]
  dsimp only
  split
  · rename_i needed
    obtain ⟨queues, _⟩ := sound.running.yield sound.queues
    refine Or.inr ⟨decided.mp needed, ?_⟩
    refine Refines.schedNext (Refines.of_view (ticked.yield sound.running) ?_) queues _
    rw [view_updateStats]
  · rename_i unneeded
    exact Or.inl ⟨not_not.mp (mt decided.mpr unneeded), ticked⟩

theorem Refines.clock (ref : Refines k r) (sound : Roster.Sound r) (user : r.mode = .user) :
    ∃ r', Roster.Step k.seen r (some .clock) r' ∧ Refines k.clockRoutine r' := by
  rcases ref.clock_cases sound with ⟨refused, stayed⟩ | ⟨needed, left⟩
  · exact ⟨r, .quiet _ user refused, stayed⟩
  · exact ⟨_, .preempt user needed, left⟩

/-! ### The keyboard ring -/

theorem isBufferFull_iff {kb : Keyboard} (fromInside : kb.buffFrom < keyboardBufferSize)
    (toInside : kb.buffTo < keyboardBufferSize) :
    kb.isBufferFull = true ↔ kb.contents.length + 1 = keyboardBufferSize := by
  rw [Keyboard.contents, RingBuffer.contents_length, RingBuffer.full_iff fromInside toInside]
  simp only [Keyboard.isBufferFull, RingBuffer.next, Bool.or_eq_true, decide_eq_true_eq,
    Bool.and_eq_true, beq_iff_eq]
  have capacity : keyboardBufferSize = 10 := rfl
  split <;> omega

theorem isBufferEmpty_iff {kb : Keyboard} (fromInside : kb.buffFrom < keyboardBufferSize) :
    kb.isBufferEmpty = true ↔ kb.contents = [] := by
  rw [Keyboard.isBufferEmpty, beq_iff_eq, Keyboard.contents]
  constructor
  · intro same
    rw [same, RingBuffer.contents_self]
  · intro empty
    by_contra different
    have positive := RingBuffer.span_pos fromInside different
    have length := congrArg List.length empty
    rw [RingBuffer.contents_length, List.length_nil] at length
    omega

theorem Refines.full_iff (ref : Refines k r) :
    k.keyboard.isBufferFull = true ↔ r.pending.length + 1 = keyboardBufferSize := by
  rw [isBufferFull_iff ref.fromInside ref.toInside, ref.contents]

theorem Refines.put (ref : Refines k r) (room : r.pending.length + 1 < keyboardBufferSize)
    (key : Byte) : Refines ({ k with keyboard := k.keyboard.put key }.note (.accepted key))
      (r.accept key) := by
  have span : RingBuffer.span keyboardBufferSize k.keyboard.buffFrom k.keyboard.buffTo + 1 <
      keyboardBufferSize := by
    have length := congrArg List.length ref.contents
    rw [Keyboard.contents, RingBuffer.contents_length] at length
    omega
  refine ⟨ref.lists, ref.core, ref.sems, ref.dirCount, ref.current, ref.idle, ref.mode,
    ref.lastPid, congrArg (Note.accepted key :: ·) ref.trace, ref.fromInside, ?_, ?_⟩
  · exact RingBuffer.next_lt ref.toInside
  · change RingBuffer.contents keyboardBufferSize
      (Function.update k.keyboard.keyboardBuffer k.keyboard.buffTo key) k.keyboard.buffFrom
      (RingBuffer.next keyboardBufferSize k.keyboard.buffTo) = r.pending ++ [key]
    rw [RingBuffer.contents_push ref.fromInside ref.toInside span]
    exact congrArg (· ++ [key]) ref.contents

theorem Refines.wake (ref : Refines k r) (sound : Roster.Sound r) {reader : TaskId}
    {rest : List TaskId} (waiting : r.queue .readers = reader :: rest) :
    Refines k.wakeReader (r.wake reader) := by
  obtain ⟨queues, _⟩ := sound.running.yield sound.queues
  have yielded : Refines (if k.current ≠ k.idleTask then
      k.addProcessToScheduling k.current .sysToReady false else k) r.yield := by
    refine Refines.of_view (ref.yield sound.running) ?_
    split
    · exact view_addProcess
    · rfl
  have readers : r.yield.queue .readers = reader :: rest := Roster.yield_readers.trans waiting
  have inside : reader ∈ r.yield.queue .readers := by simp [readers]
  unfold Kernel.wakeReader
  generalize (if k.current ≠ k.idleTask then
      k.addProcessToScheduling k.current .sysToReady false else k) = k₁ at yielded ⊢
  have head : Kernel.listHeadToTaskStruct (listFirst k₁.links .keyboardqueue) = some reader :=
    first_queue (q := .readers) yielded (by simp [Started]) readers
  dsimp only
  rw [head]
  refine Refines.schedNext (Refines.of_view (yielded.move (q := .ready) queues
    (by simp [Started]) inside (by simp [Started]) true) view_addProcess)
    (Roster.move_sound queues inside) _

theorem Refines.keyboard (ref : Refines k r) (sound : Roster.Sound r) (user : r.mode = .user)
    (value : Byte) : ∃ r', Roster.Step k.seen r (some (.keyboard value)) r' ∧
      Refines (k.keyboardRoutine value) r' := by
  unfold Kernel.keyboardRoutine
  cases pressed : Kernel.pressedKey value with
  | none =>
      refine ⟨r, .quiet _ user fun key same => ?_, ref⟩
      rw [pressed] at same
      cases same
  | some key =>
      dsimp only
      split
      · rename_i full
        exact ⟨r, .quiet _ user fun _ _ => ref.full_iff.mp full, ref⟩
      · rename_i notFull
        have bounded := sound.reads.bounded
        have room : r.pending.length + 1 < keyboardBufferSize := by
          have := mt ref.full_iff.mpr notFull
          omega
        have stored := ref.put room key
        have accepted : Roster.Sound (r.accept key) := sound.accept room
        have empty : listEmpty k.links .keyboardqueue = true ↔ r.queue .readers = [] :=
          listEmpty_queue (q := .readers) ref (by simp [Started])
        split
        · rename_i none
          exact ⟨_, .press value key user pressed room (Or.inl (empty.mp none)), stored⟩
        · rename_i some
          obtain ⟨reader, rest, waiting⟩ := List.exists_cons_of_ne_nil (mt empty.mpr some)
          have filled : ({ k with keyboard := k.keyboard.put key }.note
              (.accepted key)).keyboard.isBufferFull = true ↔
                r.pending.length + 2 = keyboardBufferSize := by
            rw [stored.full_iff, Roster.accept, Roster.note, List.length_append]
            rfl
          split
          · rename_i enough
            refine ⟨_, .wake value key reader rest user pressed room waiting ?_,
              Refines.wake (Refines.of_view stored ?_) accepted waiting⟩
            · exact enough.imp decide_eq_true filled.mp
            · rfl
          · rename_i wait
            obtain ⟨unsatisfied, slack⟩ := not_or.mp wait
            have space := mt filled.mpr slack
            refine ⟨_, .press value key user pressed room (Or.inr ⟨?_, ?_⟩), stored.of_view rfl⟩
            · omega
            · exact decide_eq_false unsatisfied

/-! ### Reading -/

theorem Refines.store (ref : Refines k r) (addr : DWord) (value : Byte) :
    Refines (k.kernelStore addr value) r :=
  ref.of_view view_storeWith

/-- `keyboard_buffer[buff_from++]`. -/
theorem Refines.drop (ref : Refines k r) {key : Byte} {rest : List Byte}
    (some : r.pending = key :: rest) : k.keyboard.front = key ∧
      Refines { k with keyboard := k.keyboard.drop } { r with pending := rest } := by
  have contents := ref.contents
  have different : k.keyboard.buffFrom ≠ k.keyboard.buffTo := by
    intro same
    rw [some, Keyboard.contents, same, RingBuffer.contents_self] at contents
    cases contents
  rw [some, Keyboard.contents, RingBuffer.contents_pop ref.fromInside ref.toInside different,
    List.cons.injEq] at contents
  refine ⟨contents.1, ref.lists, ref.core, ref.sems, ref.dirCount, ref.current, ref.idle,
    ref.mode, ref.lastPid, ref.trace, ?_, ref.toInside, contents.2⟩
  exact RingBuffer.next_lt ref.fromInside

/-- The characters go to the caller's buffer; a fault on the way changes nothing
that the scheduler sees. -/
theorem Refines.popKeys (size : Nat) (buffer : DWord) : ∀ {k : Kernel} {r : Roster} (count : Nat),
    Refines k r →
      Refines (k.readFromKeyboardBuffer size buffer count).1 (r.popKeys size buffer count).1 ∧
      (k.readFromKeyboardBuffer size buffer count).2 = (r.popKeys size buffer count).2 := by
  induction size with
  | zero => exact fun count ref => ⟨ref, rfl⟩
  | succ size ih =>
      intro k r count ref
      have empty := isBufferEmpty_iff ref.fromInside
      rw [ref.contents] at empty
      rw [Kernel.readFromKeyboardBuffer]
      cases h : r.pending with
      | nil =>
          have popped : r.popKeys (size + 1) buffer count = (r, count) := by
            simp [Roster.popKeys, h]
          rw [if_pos (empty.mpr h), popped]
          exact ⟨ref, rfl⟩
      | cons key rest =>
          have front := (ref.drop h).1
          have popped : r.popKeys (size + 1) buffer count =
              ({ r with pending := rest }.note
                (.delivered r.current (buffer + BitVec.ofNat 32 count) key)).popKeys size buffer
                  (count + 1) := by
            simp [Roster.popKeys, h]
          rw [if_neg (by rw [empty, h]; simp), popped, front, ref.current]
          exact ih (count + 1) (((ref.store _ key).drop h).2.note _)

theorem Refines.blockInRead (ref : Refines k r) (running : r.Running) (queues : r.QueueSound)
    (busy : r.current ≠ r.idle) (first : Bool) (saved : Resume) :
    Refines (k.blockInRead first saved) ((r.place r.current .readers first).schedNext saved) := by
  unfold Kernel.blockInRead
  rw [ref.current]
  have placed := ref.place (q := .readers) (by simp [Started]) running.out first
  exact Refines.schedNext (Refines.of_view placed view_updateStats)
    (running.place queues busy).1 saved

/-- The round of the loop after the characters were taken. -/
theorem Refines.readLoop (ref : Refines k r) (running : r.Running) (queues : r.QueueSound)
    (busy : r.current ≠ r.idle) (buffer : DWord) (totalSize size : Int) :
    Refines (k.readKeyboardLoop buffer totalSize size).1 (r.readLoop buffer totalSize size) := by
  unfold Kernel.readKeyboardLoop Roster.readLoop
  split
  · refine Refines.blockInRead (Refines.of_view ref ?_) running queues busy true _
    rfl
  · rw [ref.current]
    exact ref.note _

/-- One round: take what there is, then return or block again. -/
theorem Refines.round (ref : Refines k r) (poised : Roster.Poised r)
    (busy : r.current ≠ r.idle) (start buffer : DWord) (totalSize size : Int) :
    Refines ((k.readFromKeyboardBuffer size.toNat start 0).1.readKeyboardLoop buffer totalSize
        (size - (k.readFromKeyboardBuffer size.toNat start 0).2)).1
      ((r.popKeys size.toNat start 0).1.readLoop buffer totalSize
        (size - (r.popKeys size.toNat start 0).2)) := by
  obtain ⟨popped, count⟩ := ref.popKeys size.toNat start 0
  have after := poised.popKeys size.toNat 0 start
  have busy' : (r.popKeys size.toNat start 0).1.current ≠ (r.popKeys size.toNat start 0).1.idle := by
    obtain ⟨pending, trace, shape, _⟩ := Roster.popKeys_shape size.toNat start 0 r
    rw [shape]
    exact busy
  rw [count]
  exact popped.readLoop after.running after.queues busy' buffer totalSize _

theorem Refines.sysReadKeyboard (ref : Refines k r) (poised : Roster.Poised r)
    (busy : r.current ≠ r.idle) (buffer : DWord) (size : Int) :
    Refines (k.sysReadKeyboard buffer size).1 (r.read buffer size) := by
  unfold Kernel.sysReadKeyboard Roster.read
  have noted := ref.note (.readCalled k.current buffer size.toNat)
  rw [ref.current] at noted ⊢
  have empty : listEmpty k.links .keyboardqueue = true ↔ r.queue .readers = [] :=
    listEmpty_queue (q := .readers) ref (by simp [Started])
  have after := poised.note_read buffer size.toNat
  dsimp only
  split
  · rename_i some
    have others : ¬ r.queue .readers = [] := by
      rw [← empty]
      simpa [Kernel.note] using some
    rw [if_neg (by exact others)]
    exact noted.blockInRead after.running after.queues busy false _
  · rename_i none
    have alone : r.queue .readers = [] := by
      rw [← empty]
      simpa [Kernel.note] using none
    rw [if_pos (by exact alone)]
    exact noted.round after busy buffer buffer size size

end Zeos
