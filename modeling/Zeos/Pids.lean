import Zeos.Identity
import Zeos.Reads

set_option autoImplicit false

/-! The PIDs of the task structs, live or not. -/

namespace Zeos

namespace Roster

variable {r r' r'' : Roster} {label : Option Action} {task : TaskId} {sem : SemId}

/-- No PID is issued: every struct keeps its own, and none joins a directory. -/
structure SamePids (r r' : Roster) : Prop where
  idle : r'.idle = r.idle
  lastPid : r'.lastPid = r.lastPid
  pid : ∀ t, (r'.task t).pid = (r.task t).pid
  dir : ∀ t, (r'.task t).dir = (r.task t).dir ∨ (r'.task t).dir = none

theorem SamePids.refl (r : Roster) : SamePids r r := ⟨rfl, rfl, fun _ => rfl, fun _ => Or.inl rfl⟩

theorem SamePids.trans (first : SamePids r r') (second : SamePids r' r'') : SamePids r r'' := by
  refine ⟨second.idle.trans first.idle, second.lastPid.trans first.lastPid,
    fun t => (second.pid t).trans (first.pid t), fun t => ?_⟩
  rcases second.dir t with kept | gone
  · rw [kept]
    exact first.dir t
  · exact Or.inr gone

/-- One struct changes, but not its PID. -/
theorem SamePids.setTask {core : TaskCore} (pid : core.pid = (r.task task).pid)
    (dir : core.dir = (r.task task).dir ∨ core.dir = none) :
    SamePids r (r.setTask task core) := by
  refine ⟨rfl, rfl, fun t => ?_, fun t => ?_⟩
  · simp only [Roster.setTask, Function.update_apply]
    split
    · rename_i same
      rw [same, pid]
    · rfl
  · simp only [Roster.setTask, Function.update_apply]
    split
    · rename_i same
      rw [same]
      exact dir
    · exact Or.inl rfl

/-- The tasks are left alone. -/
theorem SamePids.of_eq (idle : r'.idle = r.idle) (lastPid : r'.lastPid = r.lastPid)
    (same : r'.task = r.task) : SamePids r r' :=
  ⟨idle, lastPid, fun t => by rw [same], fun t => Or.inl (by rw [same])⟩

theorem samePids_place {q : Queue} {first : Bool} : SamePids r (r.place task q first) :=
  (SamePids.of_eq rfl rfl rfl : SamePids r (r.setQueue q _)).trans (.setTask rfl (Or.inl rfl))

theorem samePids_schedNext {saved : Resume} : SamePids r (r.schedNext saved) := by
  have chosen : SamePids r ((r.setQueue .ready (r.queue .ready).tail).setState r.nextTask .run) :=
    (SamePids.of_eq rfl rfl rfl : SamePids r (r.setQueue .ready _)).trans (.setTask rfl (Or.inl rfl))
  rw [schedNext]
  dsimp only
  generalize (r.setQueue .ready (r.queue .ready).tail).setState r.nextTask .run = chosenNext
    at chosen ⊢
  have saves : SamePids chosenNext (chosenNext.setTask chosenNext.current
      { chosenNext.task chosenNext.current with resume := saved }) := .setTask rfl (Or.inl rfl)
  exact (chosen.trans saves).trans (.of_eq rfl rfl rfl)

theorem samePids_yield : SamePids r r.yield := by
  rw [yield]
  split
  · exact samePids_place
  · exact .refl r

theorem samePids_popKeys (size count : Nat) (buffer : DWord) :
    SamePids r (r.popKeys size buffer count).1 := by
  obtain ⟨pending, trace, shape, _⟩ := popKeys_shape size buffer count r
  rw [shape]
  exact .of_eq rfl rfl rfl

theorem samePids_readLoop {buffer : DWord} {totalSize size : Int} :
    SamePids r (r.readLoop buffer totalSize size) := by
  rw [readLoop]
  split
  · exact samePids_place.trans samePids_schedNext
  · exact .of_eq rfl rfl rfl

theorem samePids_readFirst {buffer : DWord} {size : Int} : SamePids r (r.readFirst buffer size) :=
  (samePids_popKeys ..).trans samePids_readLoop

theorem samePids_readAgain {buffer : DWord} {totalSize size : Int} :
    SamePids r (r.readAgain buffer totalSize size) :=
  (samePids_popKeys ..).trans samePids_readLoop

theorem samePids_semDestroy {owner : TaskId} : SamePids r (semDestroy owner r sem) := by
  rw [semDestroy_eq]
  refine ⟨rfl, rfl, fun t => ?_, fun t => ?_⟩
  · dsimp only
    split
    · rfl
    · rfl
  · left
    dsimp only
    split
    · rfl
    · rfl

theorem samePids_exit : SamePids r r.exit := by
  have retired : SamePids r r.retire := by
    rw [retire_eq]
    refine ⟨rfl, rfl, fun t => ?_, fun t => ?_⟩
    · dsimp only
      rw [Function.update_apply]
      split
      · rename_i same
        rw [same]
      · rfl
    · dsimp only
      rw [Function.update_apply]
      split
      · exact Or.inr rfl
      · exact Or.inl rfl
  have owns : r.retire.owned r.current = r.owned r.current := by rw [retire_eq]
  have left := (foldl_semDestroy (SamePids r) (fun _ _ same _ => same.trans samePids_semDestroy)
    (r.owned r.current) r.retire retired owns).1
  rw [exit_eq]
  generalize (r.owned r.current).foldl (semDestroy r.current) r.retire = last at left ⊢
  have cleared : SamePids last { last with owned := Function.update last.owned r.current [] } :=
    .of_eq rfl rfl rfl
  exact (left.trans cleared).trans samePids_schedNext

theorem samePids_waitReturn : SamePids r r.waitReturn := by
  rw [waitReturn]
  split
  · have cleared : SamePids r (r.setTask r.current
        { r.task r.current with aborted := false }) := .setTask rfl (Or.inl rfl)
    exact cleared.trans (.of_eq rfl rfl rfl)
  · exact .of_eq rfl rfl rfl

/-- A struct from the pool becomes a live task with the next PID. -/
structure Spawns (r r' : Roster) (task : TaskId) : Prop where
  dead : ¬ r.live task
  idle : r'.idle = r.idle
  lastPid : r'.lastPid = r.lastPid + 1
  pid : (r'.task task).pid = r.lastPid
  others : ∀ t, t ≠ task → r'.task t = r.task t

theorem spawns_launch {dir : DirId} {start : Resume} {others : List TaskId}
    (queues : r.QueueSound) (pool : r.queue .free = task :: others) :
    Spawns r ((r.allocate task dir).launch task start) task := by
  have dead : ¬ r.live task := by
    have member : task ∈ r.queue .free := by
      rw [pool]
      exact List.mem_cons_self
    exact not_not_intro (queues.tagged member)
  rw [spawn_eq pool]
  refine ⟨dead, rfl, rfl, ?_, fun t different => ?_⟩
  · dsimp only
    rw [Function.update_self]
  · dsimp only
    rw [Function.update_of_ne different]

/-- A step issues no PID, or one. -/
theorem Step.pids (queues : r.QueueSound) {seen : Seen} (step : Step seen r label r') :
    SamePids r r' ∨ ∃ task, Spawns r r' task := by
  cases step with
  | quiet action user => exact Or.inl (.refl r)
  | preempt user => exact Or.inl (samePids_yield.trans samePids_schedNext)
  | press value key user pressed below room => exact Or.inl (.of_eq rfl rfl rfl)
  | wake value key reader rest user pressed below queue =>
      left
      have accepted : SamePids r (r.accept key) := .of_eq rfl rfl rfl
      have taken : SamePids (r.accept key).yield ((r.accept key).yield.take reader .readers) :=
        .of_eq rfl rfl rfl
      exact (((accepted.trans samePids_yield).trans taken).trans samePids_place).trans
        samePids_schedNext
  | fork task dir others dirs user busy pool free =>
      right
      have opened : (r.newDir dir).QueueSound := queues.congr rfl (fun _ => rfl) rfl
      have launched : Spawns (r.newDir dir)
          (((r.newDir dir).allocate task dir).launch task .retFromFork) task :=
        spawns_launch opened pool
      obtain ⟨dead, idle, lastPid, pid, same⟩ := launched
      exact ⟨task, dead, idle, lastPid, pid, same⟩
  | clone function stack exitFunc task dir others user busy pool own =>
      right
      have shared : (r.shareDir dir).QueueSound := queues.congr rfl (fun _ => rfl) rfl
      have launched : Spawns (r.shareDir dir)
          (((r.shareDir dir).allocate task dir).launch task .cloned) task :=
        spawns_launch shared pool
      obtain ⟨dead, idle, lastPid, pid, same⟩ := launched
      exact ⟨task, dead, idle, lastPid, pid, same⟩
  | exit user busy => exact Or.inl samePids_exit
  | read fd buffer size user busy positive =>
      left
      unfold Roster.read
      dsimp only
      have noted : SamePids r (r.note (.readCalled r.current buffer size.toInt.toNat)) :=
        .of_eq rfl rfl rfl
      split
      · exact noted.trans samePids_readFirst
      · exact (noted.trans samePids_place).trans samePids_schedNext
  | semInit nSem value sem user busy place unused => exact Or.inl (.of_eq rfl rfl rfl)
  | semTake nSem sem user busy place used some => exact Or.inl (.of_eq rfl rfl rfl)
  | semBlock nSem sem user busy place used none =>
      left
      have noted : SamePids r (r.note (.semBlocked sem r.current)) := .of_eq rfl rfl rfl
      exact (noted.trans samePids_place).trans samePids_schedNext
  | semRaise nSem sem user busy place used idle => exact Or.inl (.of_eq rfl rfl rfl)
  | semGrant nSem sem task rest user busy place used waiting =>
      left
      have taken : SamePids r (r.take task (.waiters sem)) := .of_eq rfl rfl rfl
      exact (taken.trans samePids_place).trans (.of_eq rfl rfl rfl)
  | semDestroy nSem sem owner user busy place used own same => exact Or.inl samePids_semDestroy
  | resume switching known => exact Or.inl (.of_eq rfl rfl rfl)
  | resumeWait sem switching saved =>
      left
      have entered : SamePids r { r with mode := .user } := .of_eq rfl rfl rfl
      exact entered.trans samePids_waitReturn
  | resumeFirst buffer size switching saved =>
      left
      have entered : SamePids r { r with mode := .user } := .of_eq rfl rfl rfl
      exact entered.trans samePids_readFirst
  | resumeLoop buffer totalSize size switching saved =>
      left
      have entered : SamePids r { r with mode := .user } := .of_eq rfl rfl rfl
      exact entered.trans samePids_readAgain

/-- Idle is in slot 0 with PID 0; no two other slots that were ever used have the same PID. -/
structure PidSound (r : Roster) : Prop where
  idle : r.idle = 0
  zero : (r.task 0).pid = 0
  fresh : ∀ t, 0 ≤ (r.task t).pid ∧ (r.task t).pid < r.lastPid
  unique : ∀ t t', (r.task t).pid = (r.task t').pid → (r.task t).pid ≠ 0 → t = t'

theorem PidSound.same (sound : PidSound r) (same : SamePids r r') : PidSound r' := by
  refine ⟨same.idle.trans sound.idle, (same.pid 0).trans sound.zero, fun t => ?_, fun t t' => ?_⟩
  · rw [same.pid, same.lastPid]
    exact sound.fresh t
  · rw [same.pid, same.pid]
    exact sound.unique t t'

theorem PidSound.spawn (sound : PidSound r) (alive : r.live r.idle) (spawns : Spawns r r' task) :
    PidSound r' := by
  have other : (0 : TaskId) ≠ task := by
    intro same
    rw [sound.idle, same] at alive
    exact spawns.dead alive
  have positive := (sound.fresh 0).2
  rw [sound.zero] at positive
  have zero : (r'.task 0).pid = 0 := by rw [spawns.others 0 other, sound.zero]
  have old : ∀ t, t ≠ task → (r'.task t).pid = (r.task t).pid := by
    intro t different
    rw [spawns.others t different]
  have newer : ∀ t, t ≠ task → (r'.task t).pid ≠ (r'.task task).pid := by
    intro t different same
    rw [old t different, spawns.pid] at same
    have := (sound.fresh t).2
    omega
  refine ⟨spawns.idle.trans sound.idle, zero, fun t => ?_, fun t t' same nonzero => ?_⟩
  · rw [spawns.lastPid]
    by_cases mine : t = task
    · rw [mine, spawns.pid]
      omega
    · rw [old t mine]
      have := sound.fresh t
      omega
  · by_cases mine : t = task
    · rw [mine] at same ⊢
      by_contra different
      exact newer t' (Ne.symm different) same.symm
    · by_cases mine' : t' = task
      · rw [mine'] at same
        exact absurd same (newer t mine)
      · rw [old t mine, old t' mine'] at same
        rw [old t mine] at nonzero
        exact sound.unique t t' same nonzero

theorem PidSound.step (sound : PidSound r) (queues : r.QueueSound) (alive : r.live r.idle)
    {seen : Seen} (step : Step seen r label r') : PidSound r' := by
  rcases step.pids queues with same | ⟨task, spawns⟩
  · exact sound.same same
  · exact sound.spawn alive spawns

end Roster

end Zeos
