import Zeos.Sound

set_option autoImplicit false

/-! Whose turn it is: what a step of the abstract scheduler does to `readyqueue` and
to the CPU. -/

namespace Zeos

namespace Roster

variable {r r' : Roster} {label : Option Action} {task : TaskId} {sem : SemId}

/-- The tasks that a step appends to `readyqueue`: none of them is idle, and none
comes while idle runs. -/
structure Arrivals (r : Roster) (more : List TaskId) : Prop where
  idleOut : r.idle ∉ more
  busy : r.current = r.idle → more = []

theorem arrivals_nil : Arrivals r [] := ⟨by simp, fun _ => rfl⟩

theorem arrivals_busy {more : List TaskId} (busy : r.current ≠ r.idle) (idleOut : r.idle ∉ more) :
    Arrivals r more :=
  ⟨idleOut, fun idling => absurd idling busy⟩

/-- The step appends the tasks `more` to `readyqueue`. Then the running task goes
on, or the first ready task gets the CPU, or a reader that a key press woke. -/
inductive Turn (r : Roster) (label : Option Action) (r' : Roster) : Prop where
  | stay (more : List TaskId) : Arrivals r more → r'.idle = r.idle → r'.mode = .user →
      r'.current = r.current → r'.queue .ready = r.queue .ready ++ more →
      (r'.task r.idle).state = (r.task r.idle).state → Turn r label r'
  | next (more : List TaskId) : Arrivals r more → r'.idle = r.idle → r'.mode = .switching →
      (∀ value, label ≠ some (.keyboard value)) →
      r'.current = (r.queue .ready ++ more).headD r.idle →
      r'.queue .ready = (r.queue .ready ++ more).tail →
      (r'.task r.idle).state =
        (if r'.current = r.idle then .run else (r.task r.idle).state) → Turn r label r'
  | wake (value key : Byte) (reader : TaskId) (rest : List TaskId) : r'.idle = r.idle →
      r'.mode = .switching → label = some (.keyboard value) → r'.current = reader →
      r.queue .readers = reader :: rest →
      r'.queue .ready = r.queue .ready ++ (if r.current ≠ r.idle then [r.current] else []) →
      (r'.task r.idle).state = (r.task r.idle).state →
      (r'.task reader).resume = (r.task reader).resume →
      r'.pending = r.pending ++ [key] → Turn r label r'

/-- Nothing happens to the queue. -/
theorem Turn.same (idle : r'.idle = r.idle) (user : r'.mode = .user)
    (current : r'.current = r.current) (queue : r'.queue .ready = r.queue .ready)
    (state : (r'.task r.idle).state = (r.task r.idle).state) : Turn r label r' :=
  .stay [] arrivals_nil idle user current (by rw [queue, List.append_nil]) state

/-- Some tasks were appended, and `sched_next_rr` is called. -/
theorem Turn.dispatch {s : Roster} {saved : Resume} (more : List TaskId)
    (arrivals : Arrivals r more) (apart : ∀ value, label ≠ some (.keyboard value))
    (idle : s.idle = r.idle) (queue : s.queue .ready = r.queue .ready ++ more)
    (state : (s.task r.idle).state = (r.task r.idle).state) :
    Turn r label (s.schedNext saved) := by
  have next : s.nextTask = (r.queue .ready ++ more).headD r.idle := by
    rw [nextTask, queue, idle]
  apply Turn.next more arrivals
  · exact idle
  · rfl
  · exact apart
  · exact next
  · rw [schedNext_queue, Function.update_self, queue]
  · rw [schedNext_state, schedNext_current, state]
    exact if_congr eq_comm rfl rfl

theorem place_idle_state {q : Queue} {first : Bool} (busy : task ≠ r.idle) :
    ((r.place task q first).task r.idle).state = (r.task r.idle).state := by
  rw [place_state, if_neg (Ne.symm busy)]

/-- The running task blocks. -/
theorem Turn.block {q : Queue} {first : Bool} {saved : Resume}
    (apart : ∀ value, label ≠ some (.keyboard value)) (busy : r.current ≠ r.idle)
    (blocks : q ≠ .ready) : Turn r label ((r.place r.current q first).schedNext saved) := by
  apply Turn.dispatch [] arrivals_nil
  · exact apart
  · rfl
  · simp only [place, setState, setTask, setQueue, List.append_nil]
    exact Function.update_of_ne (Ne.symm blocks) _ _
  · exact place_idle_state busy

/-- Characters go to the running task, and no one is scheduled. -/
theorem Turn.readLoop {buffer start : DWord} {totalSize left : Int} {size count : Nat}
    (apart : ∀ value, label ≠ some (.keyboard value)) (user : r'.mode = .user)
    (busy : r.current ≠ r.idle) (current : r'.current = r.current) (idle : r'.idle = r.idle)
    (queue : r'.queue .ready = r.queue .ready) (task : r'.task = r.task) :
    Turn r label ((r'.popKeys size start count).1.readLoop buffer totalSize left) := by
  obtain ⟨pending, trace, shape, _⟩ := popKeys_shape size start count r'
  rw [shape]
  unfold Roster.readLoop
  split
  · apply Turn.dispatch [] arrivals_nil
    · exact apart
    · exact idle
    · simp only [place, setState, setTask, setQueue, List.append_nil]
      rw [Function.update_of_ne (by simp)]
      exact queue
    · rw [place_state, current, if_neg (Ne.symm busy), task]
  · apply Turn.same
    · exact idle
    · exact user
    · exact current
    · exact queue
    change (r'.task r.idle).state = _
    rw [task]

/-- The destruction of a semaphore appends its waiters. -/
theorem semDestroy_ready (queues : r.QueueSound) {owner : TaskId} :
    (semDestroy owner r sem).queue .ready = r.queue .ready ++ r.queue (.waiters sem) ∧
      ((semDestroy owner r sem).task r.idle).state = (r.task r.idle).state := by
  rw [semDestroy_eq]
  constructor
  · simp
  · simp only
    rw [if_neg (queues.idleOut _)]

/-- An exit appends all who wait for a semaphore of the dying task. -/
theorem Sound.turn_exit (sound : Sound r) (user : r.mode = .user) (busy : r.current ≠ r.idle)
    (apart : ∀ value, label ≠ some (.keyboard value)) : Turn r label r.exit := by
  have start : Dying r r.retire ∧ ∃ more, r.retire.queue .ready = r.queue .ready ++ more ∧
      (r.retire.task r.idle).state = (r.task r.idle).state := by
    refine ⟨sound.dying user busy, [], ?_, ?_⟩
    · rw [retire_eq, List.append_nil]
      simp
    · rw [retire_eq]
      dsimp only
      rw [Function.update_of_ne (Ne.symm busy)]
  have owned : r.retire.owned r.current = r.owned r.current := by rw [retire_eq]
  obtain ⟨⟨dying, more, queue, state⟩, _⟩ := foldl_semDestroy
    (fun s => Dying r s ∧ ∃ more, s.queue .ready = r.queue .ready ++ more ∧
      (s.task r.idle).state = (r.task r.idle).state)
    (by
      intro s sem ⟨dying, more, queue, state⟩ member
      obtain ⟨ready, idle⟩ := @semDestroy_ready s sem dying.steady.queues r.current
      rw [dying.idle, state] at idle
      exact ⟨dying.semDestroy member, more ++ s.queue (.waiters sem),
        by rw [ready, queue, List.append_assoc], idle⟩)
    (r.owned r.current) r.retire start owned
  have arrivals : Arrivals r more := by
    apply arrivals_busy busy
    intro member
    apply dying.steady.queues.idleOut .ready
    rw [queue, dying.idle]
    exact List.mem_append_right _ member
  rw [exit_eq]
  apply Turn.dispatch more arrivals apart
  · exact dying.idle
  · exact queue
  · exact state

theorem yield_ready : r.yield.queue .ready =
    r.queue .ready ++ (if r.current ≠ r.idle then [r.current] else []) := by
  unfold yield
  split
  · simp [place, setState, setTask, setQueue]
  · rw [List.append_nil]

theorem yield_idle : r.yield.idle = r.idle := by
  unfold yield
  split <;> rfl

theorem yield_idle_state : (r.yield.task r.idle).state = (r.task r.idle).state := by
  unfold yield
  split
  · rename_i busy
    exact place_idle_state busy
  · rfl

/-- A key press wakes the first reader. -/
theorem Sound.turn_wake (sound : Sound r) {value key : Byte} {rest : List TaskId}
    (pressed : label = some (.keyboard value)) (waiting : r.queue .readers = task :: rest) :
    Turn r label ((r.accept key).wake task) := by
  have apart : task ≠ r.current := by
    rintro rfl
    exact sound.out .readers (by simp [waiting])
  have notIdle : r.idle ≠ task := by
    rintro same
    exact sound.queues.idleOut .readers (by simp [waiting, same])
  have shape : (r.accept key).wake task =
      (((r.accept key).yield.save .handler).take task .readers).run task := wake_eq apart
  have ready : (r.accept key).yield.queue .ready =
      r.queue .ready ++ (if r.current ≠ r.idle then [r.current] else []) :=
    @yield_ready (r.accept key)
  have idle : ((r.accept key).yield.task r.idle).state = (r.task r.idle).state :=
    @yield_idle_state (r.accept key)
  have who : (r.accept key).yield.current = r.current := yield_current
  apply Turn.wake value key task rest
  · rw [shape]
    exact @yield_idle (r.accept key)
  · rw [shape]
    rfl
  · exact pressed
  · rw [shape]
    rfl
  · exact waiting
  · rw [shape, ← ready]
    simp [run, take, setState, setTask, setQueue, save]
  · rw [shape, ← idle]
    simp only [run, take, setState, setTask, setQueue, save, Function.update_of_ne notIdle]
    rw [Function.update_apply]
    split
    · rename_i same
      rw [same]
    · rfl
  · have resume : ((r.accept key).yield.task task).resume = (r.task task).resume := by
      unfold yield
      split
      · exact congrArg TaskCore.resume (Function.update_of_ne apart _ _)
      · rfl
    rw [shape, ← resume]
    simp only [run, take, setState, setTask, setQueue, save, Function.update_self]
    rw [who, Function.update_of_ne apart]
  · rw [shape]
    have pending : (r.accept key).yield.pending = r.pending ++ [key] := by
      unfold yield
      split <;> rfl
    exact pending

/-- A new task is appended. -/
theorem Sound.turn_spawn (sound : Sound r) {s : Roster} {others : List TaskId} {dir : DirId}
    {start : Resume} (user : r.mode = .user) (busy : r.current ≠ r.idle)
    (pool : r.queue .free = task :: others) (queue : s.queue = r.queue) (core : s.task = r.task)
    (idle : s.idle = r.idle) (mode : s.mode = r.mode) (current : s.current = r.current) :
    Turn r label ((s.allocate task dir).launch task start) := by
  have dead : r.idle ≠ task := by
    rintro rfl
    exact sound.queues.idleOut .free (by simp [pool])
  rw [spawn_eq (queue ▸ pool), queue, core]
  apply Turn.stay [task]
  · exact arrivals_busy busy (by simpa using dead)
  · exact idle
  · exact mode.trans user
  · exact current
  · simp
  · simp only [Function.update_of_ne dead]

/-- Every step is a turn. -/
theorem Sound.turn (sound : Sound r) {seen : Seen} (step : Step seen r label r') :
    Turn r label r' := by
  cases step with
  | quiet action user => exact .same rfl user rfl rfl rfl
  | preempt user =>
      apply Turn.dispatch (if r.current ≠ r.idle then [r.current] else [])
      · split
        · rename_i busy
          exact arrivals_busy busy (by simpa using Ne.symm busy)
        · exact arrivals_nil
      · simp
      · exact yield_idle
      · exact yield_ready
      · exact yield_idle_state
  | press value key user => exact .same rfl user rfl rfl rfl
  | wake value key reader rest user pressed room waiting => exact sound.turn_wake rfl waiting
  | fork task dir others dirs user busy pool spare =>
      exact sound.turn_spawn user busy pool (s := r.newDir dir) rfl rfl rfl rfl rfl
  | clone function stack exitFunc task dir others user busy pool housed =>
      exact sound.turn_spawn user busy pool (s := r.shareDir dir) rfl rfl rfl rfl rfl
  | exit user busy => exact sound.turn_exit user busy (by simp)
  | read fd buffer size user busy positive =>
      unfold Roster.read
      dsimp only
      split
      · exact Turn.readLoop (by simp) user busy rfl rfl rfl rfl
      · apply Turn.dispatch [] arrivals_nil
        · simp
        · rfl
        · simp only [place, setState, setTask, setQueue, note, List.append_nil]
          exact Function.update_of_ne (by simp) _ _
        · exact place_idle_state busy
  | semInit nSem value sem user busy =>
      apply Turn.same
      · rfl
      · exact user
      · rfl
      · simp [Roster.semCreate, note]
      · rfl
  | semTake nSem sem user => exact .same rfl user rfl rfl rfl
  | semBlock nSem sem user busy =>
      apply Turn.dispatch [] arrivals_nil
      · simp
      · rfl
      · simp only [place, setState, setTask, setQueue, note, List.append_nil]
        exact Function.update_of_ne (by simp) _ _
      · exact place_idle_state busy
  | semRaise nSem sem user => exact .same rfl user rfl rfl rfl
  | semGrant nSem sem task rest user busy index used waiting =>
      have notIdle : task ≠ r.idle := by
        rintro rfl
        exact sound.queues.idleOut (.waiters sem) (by simp [waiting])
      apply Turn.stay [task]
      · exact arrivals_busy busy (by simpa using Ne.symm notIdle)
      · rfl
      · exact user
      · rfl
      · simp [Roster.semGrant, place, take, setState, setTask, setQueue, note]
      · exact place_idle_state (r := r.take task (.waiters sem)) notIdle
  | semDestroy nSem sem owner user busy =>
      obtain ⟨ready, idle⟩ := @semDestroy_ready r sem sound.queues owner
      have shape := semDestroy_eq owner r sem
      apply Turn.stay (r.queue (.waiters sem))
      · exact arrivals_busy busy (sound.queues.idleOut _)
      · rw [shape]
      · rw [shape]
        exact user
      · rw [shape]
      · exact ready
      · exact idle
  | resume => exact .same rfl rfl rfl rfl rfl
  | resumeWait sem =>
      unfold waitReturn
      split
      · apply Turn.same
        · rfl
        · rfl
        · rfl
        · rfl
        simp only [note, setTask, Function.update_apply]
        split
        · rename_i same
          rw [same]
        · rfl
      · exact .same rfl rfl rfl rfl rfl
  | resumeFirst buffer size switching resume =>
      have busy := sound.toPoised.reader_busy (by rw [resume]; rfl)
      exact Turn.readLoop (by simp) rfl busy rfl rfl rfl rfl
  | resumeLoop buffer totalSize size switching resume =>
      have busy := sound.toPoised.reader_busy (by rw [resume]; rfl)
      exact Turn.readLoop (by simp) rfl busy rfl rfl rfl rfl

end Roster

end Zeos
