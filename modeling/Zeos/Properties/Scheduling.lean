import Zeos.Properties.Queues
import Zeos.Turns

set_option autoImplicit false

/-! Who has the CPU: idle only when nobody is ready, one running task at a time, and
the ready tasks in turn. -/

namespace Zeos

open CircularList (Ring)

namespace Roster

variable {r r' : Roster} {label : Option Action} {task : TaskId}

/-! ### Idle -/

/-- Idle runs only while nobody is ready. -/
def Idling (r : Roster) : Prop := r.current = r.idle → r.queue .ready = []

theorem Turn.idling (turn : Turn r label r') (sound : Sound r) (idling : Idling r) :
    Idling r' := by
  intro idle
  cases turn with
  | stay more arrivals same user current queue state =>
      rw [current, same] at idle
      rw [queue, idling idle, arrivals.busy idle]
      rfl
  | next more arrivals same switching apart current queue state =>
      rw [current, same] at idle
      cases h : r.queue .ready ++ more with
      | nil => rw [queue, h, List.tail_nil]
      | cons first rest =>
          rw [h, List.headD_cons] at idle
          have member : r.idle ∈ r.queue .ready ++ more := by
            rw [h, idle]
            exact List.mem_cons_self
          rcases List.mem_append.mp member with inside | inside
          · exact absurd inside (sound.queues.idleOut .ready)
          · exact absurd inside arrivals.idleOut
  | wake value key reader rest same switching pressed current waiting queue state resume pending =>
      rw [current, same] at idle
      have member : r.idle ∈ r.queue .readers := by
        rw [waiting, idle]
        exact List.mem_cons_self
      exact absurd member (sound.queues.idleOut .readers)

/-! ### The running task -/

theorem popKeys_count (size : Nat) (buffer : DWord) : ∀ (count : Nat) (r : Roster),
    (r.popKeys size buffer count).2 = count + min size r.pending.length := by
  induction size with
  | zero => simp [popKeys]
  | succ size ih =>
      intro count r
      cases pending : r.pending with
      | nil => simp [popKeys, pending]
      | cons key rest =>
          simp only [popKeys, pending]
          rw [ih]
          simp only [note, List.length_cons]
          omega

/-- A reader that wants more characters than there are blocks again. -/
theorem readLoop_hungry {buffer start : DWord} {totalSize size : Int}
    (hungry : (r.pending.length : Int) < size) (none : r.queue .ready = []) :
    ((r.popKeys size.toNat start 0).1.readLoop buffer totalSize
      (size - (r.popKeys size.toNat start 0).2)).current = r.idle := by
  have left : size - (r.popKeys size.toNat start 0).2 > 0 := by
    rw [popKeys_count]
    omega
  obtain ⟨pending, trace, shape, _⟩ := popKeys_shape size.toNat start 0 r
  unfold Roster.readLoop
  rw [if_pos left, shape, schedNext_current, nextTask]
  simp [place, setState, setTask, setQueue, none]

/-- A reader that was woken too early gives the CPU back to idle. -/
theorem Step.hungry {seen : Seen} (step : Step seen r label r') (switching : r.mode = .switching)
    (hungry : (r.pending.length : Int) < (r.task r.current).resume.wanted)
    (none : r.queue .ready = []) : r'.current = r.idle := by
  have notUser : r.mode ≠ .user := by
    rw [switching]
    decide
  cases step with
  | resume _ resume =>
      simp only [List.mem_cons, List.not_mem_nil, or_false] at resume
      rcases resume with same | same | same | same | same <;>
        · rw [same] at hungry
          simp only [Resume.wanted] at hungry
          omega
  | resumeWait sem _ resume =>
      rw [resume] at hungry
      simp only [Resume.wanted] at hungry
      omega
  | resumeFirst buffer size _ resume =>
      rw [resume] at hungry
      exact readLoop_hungry (r := { r with mode := .user }) hungry none
  | resumeLoop buffer totalSize size _ resume =>
      rw [resume] at hungry
      exact readLoop_hungry (r := { r with mode := .user }) hungry none
  | _ => contradiction

/-- While idle is marked running it has the CPU, or a reader that will block at once. -/
def Lone (r : Roster) : Prop := (r.task r.idle).state = .run → r.current = r.idle ∨
  r.mode = .switching ∧ r.queue .ready = [] ∧
    (r.pending.length : Int) < (r.task r.current).resume.wanted

/-- No key press takes the CPU from idle for a reader that will not block at once. -/
theorem Lone.step (lone : Lone r) (sound : Sound r) (idling : Idling r)
    {seen : Seen} (step : Step seen r label r')
    (hungry : ∀ value reader rest, label = some (.keyboard value) → r.current = r.idle →
      r'.mode = .switching → r.queue .readers = reader :: rest →
      (r.pending.length : Int) + 1 < (r.task reader).resume.wanted) : Lone r' := by
  have early : r'.idle = r.idle → (r.task r.idle).state = .run → r.current ≠ r.idle →
      r'.current = r'.idle := by
    intro same state busy
    rcases lone state with idle | ⟨switching, none, wants⟩
    · exact absurd idle busy
    · rw [same]
      exact step.hungry switching wants none
  intro running
  cases sound.turn step with
  | stay more arrivals same user current queue state =>
      rw [same, state] at running
      by_cases idle : r.current = r.idle
      · exact Or.inl (by rw [current, same, idle])
      · exact Or.inl (early same running idle)
  | next more arrivals same switching apart current queue state =>
      rw [same, state] at running
      by_cases chosen : r'.current = r.idle
      · exact Or.inl (by rw [same, chosen])
      · rw [if_neg chosen] at running
        by_cases idle : r.current = r.idle
        · rw [current, idling idle, arrivals.busy idle] at chosen
          exact absurd rfl chosen
        · exact Or.inl (early same running idle)
  | wake value key reader rest same switching pressed current waiting queue state resume pending =>
      rw [same, state] at running
      by_cases idle : r.current = r.idle
      · refine Or.inr ⟨switching, ?_, ?_⟩
        · rw [queue, idling idle, if_neg (by simp [idle])]
          rfl
        · have wants := hungry value reader rest pressed idle switching waiting
          rw [current, resume, pending, List.length_append]
          simpa using wants
      · exact Or.inl (early same running idle)

end Roster

variable {k k' : Kernel} {r : Roster} {label : Option Action} {task : TaskId}

/-- One step, with what it does to the turns. -/
theorem Refines.turn (ref : Refines k r) (sound : Roster.Sound r)
    (stepped : k.step label = some k') :
    ∃ r', Roster.Step k.seen r label r' ∧ Refines k' r' ∧ Roster.Sound r' ∧ Roster.Turn r label r' := by
  obtain ⟨r', step, after, _⟩ := ref.step sound stepped
  exact ⟨r', step, after, sound.step step, sound.turn step⟩

/-! ### Idle, in the kernel -/

theorem reachable_idling {admits : Kernel → Option Action → Prop} (reached : Reachable admits k) :
    ∃ r, Refines k r ∧ Roster.Sound r ∧ r.Idling := by
  refine reached.invariant (fun k => ∃ r, Refines k r ∧ Roster.Sound r ∧ r.Idling) ?_ ?_
  · intro k started
    obtain ⟨image, rfl⟩ := started
    exact ⟨Roster.boot, boot_refines image, Roster.boot_sound, fun _ => rfl⟩
  · intro k label k' sound _ stepped
    obtain ⟨r, ref, sound, idling⟩ := sound
    obtain ⟨r', _, after, sound', turn⟩ := ref.turn sound stepped
    exact ⟨r', after, sound', turn.idling sound idling⟩

theorem Refines.readyqueue_iff (ref : Refines k r) {tasks : List TaskId} :
    Ring k.links .readyqueue (tasks.map .anchor) ↔ r.queue .ready = tasks := by
  rw [ref.ring_iff rfl]
  change some ((r.queue .ready).map Node.anchor) = some (tasks.map Node.anchor) ↔ _
  rw [Option.some.injEq, List.map_inj_right fun _ _ same => Node.anchor.inj same]

/-- While idle has the CPU, `readyqueue` is empty. -/
theorem idle_without_work {k : Kernel} (reached : Reachable anyAction k)
    (idle : k.current = k.idleTask) : Ring k.links .readyqueue [] := by
  obtain ⟨r, ref, _, idling⟩ := reachable_idling reached
  rw [ref.current, ref.idle] at idle
  exact (@Refines.readyqueue_iff k r ref []).mpr (idling idle)

/-- Task 1 waits for two characters, and the clock interrupts idle. -/
theorem idle_without_work_blocked :
    Ring (Kernel.after everyStep [some (.call (.read 0 0x108000 2)), none, some .clock]).links
      .readyqueue [] :=
  idle_without_work (reached_after (by decide +kernel)).any (by decide +kernel)

/-! ### One running task -/

/-- The test of `keyboard_routine` for a wake-up. -/
def Kernel.wakesReader (k : Kernel) (value : Byte) : Bool :=
  match Kernel.pressedKey value with
  | none => false
  | some key => !k.keyboard.isBufferFull && !listEmpty k.links .keyboardqueue &&
      (decide (k.keyboard.remainingToRead - 1 ≤ 0) || (k.keyboard.put key).isBufferFull)

/-- All steps but a key press that takes the CPU from idle and gives it to a reader
that wants no more than the characters in the ring and this one. -/
def keepsIdle (k : Kernel) : Option Action → Bool
  | some (.keyboard value) => !(k.current == k.idleTask && k.wakesReader value &&
      (Kernel.listHeadToTaskStruct (listFirst k.links .keyboardqueue)).any fun reader =>
        decide ((k.tasks reader).kernelEsp.wanted ≤ k.keyboard.contents.length + 1))
  | _ => true

/-- A key press switches tasks only when the test says so. -/
theorem keyboardRoutine_wakes {value : Byte} (user : k.mode = .user)
    (switched : (k.keyboardRoutine value).mode = .switching) : k.wakesReader value = true := by
  unfold Kernel.keyboardRoutine at switched
  unfold Kernel.wakesReader
  cases pressed : Kernel.pressedKey value with
  | none =>
      rw [pressed] at switched
      simp only [user] at switched
      cases switched
  | some key =>
      rw [pressed] at switched
      dsimp only at switched ⊢
      split at switched
      · rw [user] at switched
        cases switched
      · split at switched
        · simp only [Kernel.note, user] at switched
          cases switched
        · split at switched
          · rename_i room waiting due
            simp only [Kernel.note] at waiting due
            simp only [Bool.and_eq_true, Bool.not_eq_true', Bool.or_eq_true, decide_eq_true_eq]
            exact ⟨⟨by simpa using room, by simpa using waiting⟩, due⟩
          · simp only [Kernel.note, user] at switched
            cases switched

theorem keyboard_updateEnteringSys : k.updateEnteringSys.keyboard = k.keyboard ∧
    k.updateEnteringSys.links = k.links ∧ k.updateEnteringSys.mode = k.mode := by
  unfold Kernel.updateEnteringSys Kernel.updateStats
  rw [if_neg (by decide)]
  dsimp only
  rw [if_neg (by simp)]
  exact ⟨rfl, rfl, rfl⟩

/-- A step with a key press that switches tasks wakes the first reader. -/
theorem step_wakes {value : Byte} (stepped : k.step (some (.keyboard value)) = some k')
    (switched : k'.mode = .switching) : k.wakesReader value = true := by
  unfold Kernel.step at stepped
  split at stepped
  · cases stepped
  · split at stepped
    · rename_i action mode same
      cases same
      obtain ⟨keyboard, links, user⟩ := @keyboard_updateEnteringSys k
      have wakes : k.updateEnteringSys.wakesReader value = k.wakesReader value := by
        simp only [Kernel.wakesReader, keyboard, links]
      have left : (k.updateEnteringSys.keyboardRoutine value).leave.mode = .switching := by
        simp only [Kernel.enabled, ↓reduceIte, Option.some.injEq] at stepped
        rw [← switched, ← stepped]
        rfl
      rw [← wakes]
      apply keyboardRoutine_wakes (user.trans mode)
      unfold Kernel.leave at left
      split at left
      · exact left
      · cases left
    · cases ‹some _ = none›
    · cases stepped

/-- What `keepsIdle` says of a wake-up, of the first reader. -/
theorem Refines.keepsIdle (ref : Refines k r) (allowed : Zeos.keepsIdle k label = true)
    (stepped : k.step label = some k') (value : Byte) (reader : TaskId) (rest : List TaskId)
    (pressed : label = some (.keyboard value)) (idle : r.current = r.idle)
    (switched : k'.mode = .switching) (waiting : r.queue .readers = reader :: rest) :
    (r.pending.length : Int) + 1 < (r.task reader).resume.wanted := by
  subst pressed
  have wakes := step_wakes stepped switched
  have first : Kernel.listHeadToTaskStruct (listFirst k.links .keyboardqueue) = some reader :=
    first_queue (q := .readers) ref (by simp [Started]) waiting
  have resume : (k.tasks reader).kernelEsp = (r.task reader).resume :=
    congrArg TaskCore.resume (ref.core reader)
  have own : (k.current == k.idleTask) = true := by
    rw [ref.current, ref.idle, idle]
    exact beq_self_eq_true _
  simp only [Zeos.keepsIdle, own, wakes, first, resume, ref.contents, Option.any_some,
    Bool.true_and, Bool.not_eq_true', decide_eq_false_iff_not] at allowed
  omega

theorem reachable_lone (reached : Reachable (fun k label => keepsIdle k label = true) k) :
    ∃ r, Refines k r ∧ Roster.Sound r ∧ r.Idling ∧ r.Lone := by
  refine reached.invariant (fun k => ∃ r, Refines k r ∧ Roster.Sound r ∧ r.Idling ∧ r.Lone) ?_ ?_
  · intro k started
    obtain ⟨image, rfl⟩ := started
    refine ⟨Roster.boot, boot_refines image, Roster.boot_sound, fun _ => rfl, ?_⟩
    intro running
    cases running
  · intro k label k' sound allowed stepped
    obtain ⟨r, ref, sound, idling, lone⟩ := sound
    obtain ⟨r', step, after, sound', turn⟩ := ref.turn sound stepped
    refine ⟨r', after, sound', turn.idling sound idling, lone.step sound idling step ?_⟩
    intro value reader rest pressed idle switched waiting
    exact ref.keepsIdle allowed stepped value reader rest pressed idle
      (after.mode.trans switched) waiting

/-- In a run in which no key press takes the CPU from idle and completes a read, the
running task, and no other, is marked so whenever the machine is in user mode or in
the idle loop. -/
theorem one_task_running {k : Kernel}
    (reached : Reachable (fun k label => keepsIdle k label = true) k) (rest : k.atRest)
    (task : TaskId) : (k.tasks task).state = .run ↔ task = k.current := by
  obtain ⟨r, ref, sound, _, lone⟩ := reachable_lone reached
  rw [ref.state_eq, ref.current]
  constructor
  · intro running
    by_cases idle : task = r.idle
    · rw [idle] at running ⊢
      rcases lone running with own | ⟨switching, _⟩
      · exact own.symm
      · rw [← ref.mode, rest.1] at switching
        cases switching
    · by_contra different
      obtain ⟨q, member⟩ := sound.running.others task idle different
      rw [sound.queues.tagged member] at running
      cases q <;> cases running
  · intro same
    rw [same]
    exact sound.running.state

/-- Task 1 wants twenty characters. The ninth fills the ring and wakes it from idle,
and it blocks again. -/
def longRead : List (Option Action) :=
  [some (.call (.read 0 0x108000 20)), none] ++ List.replicate 9 (some (.keyboard 0x1e)) ++
    [none, none]

theorem one_task_running_long :
    ((Kernel.after keepsIdle longRead).tasks 0).state = .run ↔
      0 = (Kernel.after keepsIdle longRead).current :=
  one_task_running (reached_after (by decide +kernel)) ⟨by decide +kernel, by decide +kernel⟩ 0

/-- Task 1 waits for one character while idle runs, and gets it. -/
def shortRead : List (Option Action) :=
  [some (.call (.read 0 0x108000 1)), none, some (.keyboard 0x1e), none]

/-- Idle is still marked running after a key press gave the CPU to task 1. -/
theorem two_tasks_running : ∃ k, Reachable anyAction k ∧ k.atRest ∧
    ∃ task, task ≠ k.current ∧ (k.tasks task).state = .run :=
  ⟨Kernel.after everyStep shortRead, (reached_after (by decide +kernel)).any,
    ⟨by decide +kernel, by decide +kernel⟩, 0, by decide +kernel, by decide +kernel⟩

/-! ### Round robin -/

/-- The tasks on `readyqueue`, in order. -/
def Kernel.ready (k : Kernel) (tasks : List TaskId) : Prop :=
  Ring k.links .readyqueue (tasks.map .anchor)

/-- The task that `sched_next_rr` chose in a step to `k`, but for keyboard wake-ups. -/
def dispatched (label : Option Action) (k : Kernel) : List TaskId :=
  match label with
  | some (.keyboard _) => []
  | _ => if k.mode = .switching then [k.current] else []

/-- The tasks dispatched along a run, but for keyboard wake-ups. -/
def dispatches : Kernel → List (Option Action) → List TaskId
  | _, [] => []
  | k, label :: labels =>
      match k.step label with
      | none => []
      | some k' => dispatched label k' ++ dispatches k' labels

/-- Two lists of which one continues the other. -/
def Agree (first second : List TaskId) : Prop := first <+: second ∨ second <+: first

theorem Agree.cons {first second : List TaskId} (agree : Agree first second) (task : TaskId) :
    Agree (task :: first) (task :: second) :=
  agree.imp (List.cons_prefix_cons.mpr ⟨rfl, ·⟩) (List.cons_prefix_cons.mpr ⟨rfl, ·⟩)

/-- A step appends `more` to the tail of `readyqueue`, which was `before`, and then
dispatches at most one task: the first one in the queue; idle, if there is none; or,
after a key press, the first reader, and then `more` is the preempted task, if this
is not idle. -/
structure Kernel.QueueStep (k : Kernel) (label : Option Action) (k' : Kernel)
    (before more after : List TaskId) : Prop where
  ready : k'.ready after
  stay : k'.mode = .user → after = before ++ more
  next : k'.mode = .switching → (∀ value, label ≠ some (.keyboard value)) →
    before ++ more = k'.current :: after ∨
      before ++ more = [] ∧ after = [] ∧ k'.current = k.idleTask
  wake : k'.mode = .switching → ∀ value, label = some (.keyboard value) →
    Kernel.listHeadToTaskStruct (listFirst k.links .keyboardqueue) = some k'.current ∧
      more = (if k.current ≠ k.idleTask then [k.current] else []) ∧ after = before ++ more

theorem Refines.queueStep (ref : Refines k r) {r' : Roster} (after : Refines k' r')
    (turn : Roster.Turn r label r') :
    ∃ more, k.QueueStep label k' (r.queue .ready) more (r'.queue .ready) := by
  have ready : k'.ready (r'.queue .ready) := after.readyqueue_iff.mpr rfl
  cases turn with
  | stay more arrivals same user current queue state =>
      refine ⟨more, ready, fun _ => queue, ?_, ?_⟩
      · intro switching
        rw [after.mode, user] at switching
        cases switching
      · intro switching
        rw [after.mode, user] at switching
        cases switching
  | next more arrivals same switching apart current queue state =>
      refine ⟨more, ready, ?_, ?_, ?_⟩
      · intro user
        rw [after.mode, switching] at user
        cases user
      · intro _ _
        rw [after.current, current, ref.idle, queue]
        cases h : r.queue .ready ++ more with
        | nil => exact Or.inr ⟨rfl, rfl, rfl⟩
        | cons first rest => exact Or.inl rfl
      · intro _ value pressed
        exact absurd pressed (apart value)
  | wake value key reader rest same switching pressed current waiting queue state resume pending =>
      refine ⟨if r.current ≠ r.idle then [r.current] else [], ready, ?_, ?_, ?_⟩
      · intro user
        rw [after.mode, switching] at user
        cases user
      · intro _ apart
        exact absurd pressed (apart value)
      · intro _ _ _
        rw [ref.current, ref.idle, after.current, current]
        exact ⟨first_queue (q := .readers) ref (by simp [Started]) waiting, rfl, queue⟩

/-- What a step dispatches comes off the front of the queue. -/
theorem Kernel.QueueStep.line {before more after : List TaskId}
    (queued : k.QueueStep label k' before more after) (some : before ++ more ≠ []) :
    before ++ more = dispatched label k' ++ after := by
  unfold dispatched
  cases mode : k'.mode with
  | user =>
      rw [queued.stay mode]
      split <;> rfl
  | switching =>
      split
      · rename_i value
        rw [(queued.wake mode value rfl).2.2]
        rfl
      · rename_i apart
        rw [if_pos rfl]
        exact (queued.next mode fun value same => apart value same).resolve_right
          fun empty => some empty.1

theorem dispatched_single : dispatched label k = [] ∨ dispatched label k = [k.current] := by
  unfold dispatched
  split
  · exact Or.inl rfl
  · split
    · exact Or.inr rfl
    · exact Or.inl rfl

/-- A step leaves the order of the queue to the steps after it. -/
theorem agree_step {later line left : List TaskId}
    (queue : line = dispatched label k ++ left)
    (rest : ∀ ahead task behind, left = ahead ++ task :: behind → Agree later (ahead ++ [task]))
    (ahead : List TaskId) (task : TaskId) (behind : List TaskId)
    (place : line = ahead ++ task :: behind) :
    Agree (dispatched label k ++ later) (ahead ++ [task]) := by
  rw [place] at queue
  rcases @dispatched_single k label with none | one
  · rw [none, List.nil_append] at queue ⊢
    exact rest ahead task behind queue.symm
  · rw [one, List.singleton_append] at queue ⊢
    cases ahead with
    | nil =>
        have first : task = k.current := (List.cons.inj queue).1
        rw [first]
        exact Or.inr (List.cons_prefix_cons.mpr ⟨rfl, List.nil_prefix⟩)
    | cons first others =>
        obtain ⟨same, remaining⟩ := List.cons.inj queue
        rw [List.cons_append, ← same]
        exact (rest others task behind remaining.symm).cons first

/-- Whoever is in the queue gets the CPU after those ahead of it, and before those
behind. -/
theorem Refines.in_turn (labels : List (Option Action)) : ∀ {k : Kernel} {r : Roster},
    Refines k r → Roster.Sound r → ∀ ahead task behind,
    r.queue .ready = ahead ++ task :: behind → Agree (dispatches k labels) (ahead ++ [task]) := by
  induction labels with
  | nil => exact fun _ _ _ _ _ _ => Or.inl List.nil_prefix
  | cons label labels ih =>
      intro k r ref sound ahead task behind queue
      rw [dispatches]
      split
      · exact Or.inl List.nil_prefix
      · rename_i k' stepped
        obtain ⟨r', _, after, sound', turn⟩ := ref.turn sound stepped
        obtain ⟨more, queued⟩ := ref.queueStep after turn
        have line := queued.line (by simp [queue])
        apply agree_step line (ih after sound') ahead task (behind ++ more)
        rw [queue, List.append_assoc, List.cons_append]

/-- Round robin, for a step from any state reached: those it appends to `readyqueue`
come after all who are there, nobody else moves, and whoever is then in the queue is
dispatched after exactly those ahead of it, whatever happens next. -/
theorem round_robin {k : Kernel} (reached : Reachable anyAction k) {before : List TaskId}
    (ready : k.ready before) {label : Option Action} {k' : Kernel}
    (stepped : k.step label = some k') :
    ∃ more after, k.QueueStep label k' before more after ∧
      ∀ ahead task behind, before ++ more = ahead ++ task :: behind →
        ∀ labels, Agree (dispatches k (label :: labels)) (ahead ++ [task]) := by
  obtain ⟨r, ref, sound⟩ := reachable_sound reached
  obtain ⟨r', _, after, sound', turn⟩ := ref.turn sound stepped
  obtain ⟨more, queued⟩ := ref.queueStep after turn
  rw [ref.readyqueue_iff.mp ready] at queued
  refine ⟨more, r'.queue .ready, queued, ?_⟩
  intro ahead task behind place labels
  have line := queued.line (by simp [place])
  rw [dispatches, stepped]
  exact agree_step line (after.in_turn labels sound') ahead task behind place

/-- Two children are ready when task 1 exits. -/
theorem round_robin_exit :
    let k := Kernel.after everyStep [some (.call .fork), some (.call .fork)]
    let k' := Kernel.after everyStep
      [some (.call .fork), some (.call .fork), some (.call .exit)]
    ∃ more after, k.QueueStep (some (.call .exit)) k' [2, 3] more after ∧
      ∀ ahead task behind, [2, 3] ++ more = ahead ++ task :: behind →
        ∀ labels, Agree (dispatches k (some (.call .exit) :: labels)) (ahead ++ [task]) := by
  apply round_robin (reached_after (by decide +kernel)).any
  · exact ⟨by decide, by decide +kernel⟩
  · exact @step_after everyStep [some (.call .fork), some (.call .fork)] _ (by decide +kernel)

end Zeos
