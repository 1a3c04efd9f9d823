import Mathlib.Order.Fin.Basic
import Zeos.History
import Zeos.Queues

set_option autoImplicit false

/-! What the composite operations of the abstract scheduler change, and what all
of them but creation, death and ownership leave alone. -/

namespace Zeos

namespace Roster

variable {r r' r'' : Roster} {task other : TaskId} {q q' : Queue} {sem : SemId}

/-- Only the scheduling of existing tasks differs. -/
structure Frame (r r' : Roster) : Prop where
  sem : r'.sem = r.sem
  started : r'.started = r.started
  owned : r'.owned = r.owned
  born : r'.born = r.born
  freeDirs : r'.freeDirs = r.freeDirs
  dirCount : r'.dirCount = r.dirCount
  idle : r'.idle = r.idle
  lastPid : r'.lastPid = r.lastPid
  pid : ∀ t, (r'.task t).pid = (r.task t).pid
  dir : ∀ t, (r'.task t).dir = (r.task t).dir
  live : ∀ t, r'.live t ↔ r.live t
  drained : ∀ s, (r.sem s).used = false → r.queue (.waiters s) = [] →
    r'.queue (.waiters s) = []
  creator : ∀ s, History.creator s r'.trace = History.creator s r.trace

theorem Frame.refl (r : Roster) : Frame r r :=
  ⟨rfl, rfl, rfl, rfl, rfl, rfl, rfl, rfl, fun _ => rfl, fun _ => rfl, fun _ => Iff.rfl,
    fun _ _ empty => empty, fun _ => rfl⟩

theorem Frame.trans (first : Frame r r') (second : Frame r' r'') : Frame r r'' where
  sem := second.sem.trans first.sem
  started := second.started.trans first.started
  owned := second.owned.trans first.owned
  born := second.born.trans first.born
  freeDirs := second.freeDirs.trans first.freeDirs
  dirCount := second.dirCount.trans first.dirCount
  idle := second.idle.trans first.idle
  lastPid := second.lastPid.trans first.lastPid
  pid t := (second.pid t).trans (first.pid t)
  dir t := (second.dir t).trans (first.dir t)
  live t := (second.live t).trans (first.live t)
  drained s unused empty :=
    second.drained s (by rw [first.sem]; exact unused) (first.drained s unused empty)
  creator s := (second.creator s).trans (first.creator s)

/-- A note that creates no semaphore. -/
theorem frame_note {entry : Note} (harmless : ∀ s pid value, entry ≠ .semCreated s pid value) :
    Frame r (r.note entry) := by
  refine ⟨rfl, rfl, rfl, rfl, rfl, rfl, rfl, rfl, fun _ => rfl, fun _ => rfl,
    fun _ => Iff.rfl, fun _ _ empty => empty, ?_⟩
  intro s
  cases entry <;> first | rfl | exact absurd rfl (harmless _ _ _)

theorem frame_mode {mode : Mode} : Frame r { r with mode := mode } :=
  ⟨rfl, rfl, rfl, rfl, rfl, rfl, rfl, rfl, fun _ => rfl, fun _ => rfl, fun _ => Iff.rfl,
    fun _ _ empty => empty, fun _ => rfl⟩

/-- A live task joins a queue of live tasks, not that of an unused semaphore. -/
theorem frame_place {first : Bool} (alive : r.live task) (notFree : q ≠ .free)
    (used : ∀ s, q = .waiters s → (r.sem s).used = true) :
    Frame r (r.place task q first) := by
  refine ⟨rfl, rfl, rfl, rfl, rfl, rfl, rfl, rfl, ?_, ?_, ?_, ?_, fun _ => rfl⟩
  · intro t
    simp only [place, setState, setTask, setQueue, Function.update_apply]
    split
    · rename_i same
      rw [same]
    · rfl
  · intro t
    simp only [place, setState, setTask, setQueue, Function.update_apply]
    split
    · rename_i same
      rw [same]
    · rfl
  · intro t
    rw [live, place_state]
    split
    · rename_i same
      rw [same]
      refine iff_of_true ?_ alive
      cases q <;> simp [Queue.state] at notFree ⊢
    · exact Iff.rfl
  · intro s unused empty
    have different : Queue.waiters s ≠ q := by
      intro same
      rw [used s same.symm] at unused
      cases unused
    simp only [place, setState, setTask, setQueue, Function.update_of_ne different]
    exact empty

theorem frame_take : Frame r (r.take task q) := by
  refine ⟨rfl, rfl, rfl, rfl, rfl, rfl, rfl, rfl, fun _ => rfl, fun _ => rfl,
    fun _ => Iff.rfl, ?_, fun _ => rfl⟩
  intro s _ empty
  simp only [take, setQueue, Function.update_apply]
  split
  · rename_i same
    rw [← same, empty]
    rfl
  · exact empty

theorem live_of_mem (sound : r.QueueSound) (inside : task ∈ r.queue q) (notFree : q ≠ .free) :
    r.live task := by
  rw [live, sound.tagged inside]
  cases q <;> simp [Queue.state] at notFree ⊢

theorem live_of_running (running : r.Running) : r.live r.current := by
  rw [live, running.state]
  decide

theorem nextTask_live (sound : r.QueueSound) (idle : r.live r.idle) : r.live r.nextTask := by
  by_cases same : r.nextTask = r.idle
  · rw [same]
    exact idle
  · exact live_of_mem sound (nextTask_mem same) (by simp)

theorem frame_schedNext {saved : Resume} (sound : r.QueueSound) (idle : r.live r.idle) :
    Frame r (r.schedNext saved) := by
  refine ⟨rfl, rfl, rfl, rfl, rfl, rfl, rfl, rfl, ?_, ?_, ?_, ?_, fun _ => rfl⟩
  · intro t
    simp only [schedNext, setState, setTask, setQueue, Function.update_apply]
    grind
  · intro t
    simp only [schedNext, setState, setTask, setQueue, Function.update_apply]
    grind
  · intro t
    rw [live, schedNext_state]
    split
    · rename_i same
      rw [same]
      exact iff_of_true (by decide) (nextTask_live sound idle)
    · exact Iff.rfl
  · intro s _ empty
    rw [schedNext_queue, Function.update_of_ne (by simp)]
    exact empty

theorem frame_yield (running : r.Running) : Frame r r.yield := by
  rw [yield]
  split
  · exact frame_place (live_of_running running) (by simp) (by simp)
  · exact .refl r

/-- Moving a task between queues of live tasks. -/
theorem frame_move {first : Bool} (sound : r.QueueSound) (inside : task ∈ r.queue q)
    (wasLive : q ≠ .free) (notFree : q' ≠ .free)
    (used : ∀ s, q' = .waiters s → (r.sem s).used = true) :
    Frame r ((r.take task q).place task q' first) :=
  frame_take.trans
    (frame_place (show r.live task from live_of_mem sound inside wasLive) notFree used)

/-! ### Reading -/

/-- Delivering characters changes `pending` and the trace only. -/
theorem popKeys_shape (size : Nat) (buffer : DWord) : ∀ (count : Nat) (r : Roster),
    ∃ pending trace, (r.popKeys size buffer count).1 =
        { r with pending := pending, trace := trace } ∧
      ∀ s, History.creator s trace = History.creator s r.trace := by
  induction size with
  | zero => exact fun count r => ⟨r.pending, r.trace, rfl, fun _ => rfl⟩
  | succ size ih =>
      intro count r
      cases h : r.pending with
      | nil =>
          refine ⟨r.pending, r.trace, ?_, fun _ => rfl⟩
          simp only [popKeys, h]
          rw [← h]
      | cons key rest =>
          obtain ⟨pending, trace, shape, creator⟩ := ih (count + 1)
            ({ r with pending := rest }.note
              (.delivered r.current (buffer + BitVec.ofNat 32 count) key))
          refine ⟨pending, trace, ?_, creator⟩
          simp only [popKeys, h, shape]
          rfl

theorem frame_popKeys (size count : Nat) (buffer : DWord) :
    Frame r (r.popKeys size buffer count).1 := by
  obtain ⟨pending, trace, shape, creator⟩ := popKeys_shape size buffer count r
  rw [shape]
  exact ⟨rfl, rfl, rfl, rfl, rfl, rfl, rfl, rfl, fun _ => rfl, fun _ => rfl,
    fun _ => Iff.rfl, fun _ _ empty => empty, creator⟩

/-! ### Destruction -/

/-- Aborting all waiters of a semaphore, in order. -/
theorem foldl_abort (waiters : List TaskId) : ∀ r : Roster,
    r.queue (.waiters sem) = waiters → waiters.foldl (abort sem) r =
      { r with
        queue := Function.update (Function.update r.queue (.waiters sem) []) .ready
          (r.queue .ready ++ waiters)
        task := fun t => if t ∈ waiters then
          { r.task t with state := .ready, aborted := true } else r.task t
        trace := waiters.reverse.map (.semAborted sem) ++ r.trace } := by
  induction waiters with
  | nil =>
      intro r empty
      have queue : Function.update (Function.update r.queue (.waiters sem) []) .ready
          (r.queue .ready ++ []) = r.queue := by
        funext q
        simp only [Function.update_apply, List.append_nil]
        split
        · rename_i same
          rw [same]
        · split
          · rename_i same
            rw [same, empty]
          · rfl
      rw [List.foldl_nil, queue]
      simp
  | cons first rest ih =>
      intro r stored
      have taken : (abort sem r first).queue (.waiters sem) = rest := by
        simp [abort, note, place, take, setState, setTask, setQueue, stored]
      rw [List.foldl_cons, ih _ taken]
      have queue : Function.update (Function.update (abort sem r first).queue (.waiters sem) [])
          .ready ((abort sem r first).queue .ready ++ rest) =
          Function.update (Function.update r.queue (.waiters sem) []) .ready
            (r.queue .ready ++ first :: rest) := by
        funext q
        simp only [abort, note, place, take, setState, setTask, setQueue, Function.update_apply]
        grind
      have task : (fun t => if t ∈ rest then
            { (abort sem r first).task t with state := .ready, aborted := true }
            else (abort sem r first).task t) =
          fun t => if t ∈ first :: rest then
            { r.task t with state := .ready, aborted := true } else r.task t := by
        funext t
        simp only [abort, note, place, take, setState, setTask, setQueue, Function.update_apply]
        grind [Queue.state]
      rw [queue, task]
      simp [abort, note, place, take, setState, setTask, setQueue]

/-- The whole effect of a destruction. -/
theorem semDestroy_eq (owner : TaskId) (r : Roster) (sem : SemId) :
    semDestroy owner r sem =
      { r with
        sem := Function.update r.sem sem { r.sem sem with used := false }
        owned := Function.update r.owned owner ((r.owned owner).erase sem)
        queue := Function.update (Function.update r.queue (.waiters sem) []) .ready
          (r.queue .ready ++ r.queue (.waiters sem))
        task := fun t => if t ∈ r.queue (.waiters sem) then
          { r.task t with state := .ready, aborted := true } else r.task t
        trace := (r.queue (.waiters sem)).reverse.map (.semAborted sem) ++
          .semDestroyed sem :: r.trace } := by
  rw [semDestroy]
  exact foldl_abort _ _ rfl

/-- The loop of `exit` over the semaphores of a task: what each destruction
keeps holds at the end, and none is left. -/
theorem foldl_semDestroy (inv : Roster → Prop)
    (kept : ∀ r s, inv r → s ∈ r.owned task → inv (semDestroy task r s)) :
    ∀ (sems : List SemId) (r : Roster), inv r → r.owned task = sems →
      inv (sems.foldl (semDestroy task) r) ∧
        (sems.foldl (semDestroy task) r).owned task = [] := by
  intro sems
  induction sems with
  | nil => exact fun r holds empty => ⟨holds, empty⟩
  | cons first rest ih =>
      intro r holds stored
      rw [List.foldl_cons]
      apply ih
      · exact kept r first holds (by simp [stored])
      · simp [semDestroy_eq, stored]

/-! ### Creation and death -/

/-- A task struct taken from the pool and made ready. -/
theorem spawn_eq {others : List TaskId} {dir : DirId} {start : Resume}
    (pool : r.queue .free = task :: others) :
    (r.allocate task dir).launch task start =
      { r with
        queue := Function.update (Function.update r.queue .free others) .ready
          (r.queue .ready ++ [task])
        task := Function.update r.task task ⟨.ready, start, false, r.lastPid, some dir⟩
        lastPid := r.lastPid + 1
        owned := Function.update r.owned task []
        born := Function.update r.born task true } := by
  simp [launch, allocate, place, setState, setTask, setQueue, pool, Queue.state]

/-- The dying task on `free_queue`, without its directory. -/
def retire (r : Roster) : Roster := (r.place r.current .free false).releaseDir r.current

theorem retire_eq : r.retire =
    let dir := (r.task r.current).dir.getD 0
    { r with
      queue := Function.update r.queue .free (r.queue .free ++ [r.current])
      task := Function.update r.task r.current
        { r.task r.current with state := .invalid, dir := none }
      dirCount := Function.update r.dirCount dir (r.dirCount dir - 1)
      freeDirs := if r.dirCount dir - 1 = 0 then dir :: r.freeDirs else r.freeDirs
      trace := if r.dirCount dir - 1 = 0 then .dirReleased dir :: r.trace else r.trace } := by
  simp only [retire, releaseDir, note, place, setState, setTask, setQueue, Function.update_self,
    Queue.state, Bool.false_eq_true, ↓reduceIte]
  split <;> simp

/-- A reading of the history that does not concern directories. -/
theorem retire_trace {α : Type} (reading : List Note → α)
    (skips : ∀ dir trace, reading (.dirReleased dir :: trace) = reading trace) :
    reading r.retire.trace = reading r.trace := by
  rw [retire_eq]
  dsimp only
  split
  · exact skips _ _
  · rfl

theorem exit_eq : r.exit =
    { (r.owned r.current).foldl (semDestroy r.current) r.retire with
      owned := Function.update
        ((r.owned r.current).foldl (semDestroy r.current) r.retire).owned r.current [] }.schedNext
      .exited := by
  have same : r.retire.owned r.current = r.owned r.current := by rw [retire_eq]
  rw [← same]
  rfl

/-! ### Calls that leave the semaphores -/

theorem yield_sem : r.yield.sem = r.sem := by
  rw [yield]
  split
  · rfl
  · rfl

theorem readLoop_sem {buffer : DWord} {totalSize size : Int} :
    (r.readLoop buffer totalSize size).sem = r.sem := by
  rw [readLoop]
  split
  · rfl
  · rfl

end Roster

end Zeos
