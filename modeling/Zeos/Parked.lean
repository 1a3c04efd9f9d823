import Zeos.Pids
import Zeos.Sound

set_option autoImplicit false

/-! The arguments of a `sys_read` that was interrupted stay those of the call. -/

namespace Zeos

/-- The task is in the middle of `sys_read_keyboard` with these arguments. -/
def Resume.reads (resume : Resume) (buffer : DWord) (totalSize : Int) : Prop :=
  resume = .readFirst buffer totalSize ∨
    ∃ size, resume = .readLoop buffer totalSize size ∧ 0 ≤ size ∧ size ≤ totalSize

variable {resume : Resume} {buffer buffer' : DWord} {totalSize totalSize' : Int}

theorem Resume.reads.reading (reads : resume.reads buffer totalSize) : resume.reading = true := by
  rcases reads with first | loop
  · rw [first]
    rfl
  · obtain ⟨_, here, _⟩ := loop
    rw [here]
    rfl

/-- A saved read has one pair of arguments. -/
theorem Resume.reads.same (reads : resume.reads buffer totalSize)
    (reads' : resume.reads buffer' totalSize') : buffer = buffer' ∧ totalSize = totalSize' := by
  rcases reads with here | loop
  · rw [here] at reads'
    rcases reads' with here' | loop'
    · cases here'
      exact ⟨rfl, rfl⟩
    · obtain ⟨_, here', _⟩ := loop'
      cases here'
  · obtain ⟨_, here, _⟩ := loop
    rw [here] at reads'
    rcases reads' with here' | loop'
    · cases here'
    · obtain ⟨_, here', _⟩ := loop'
      cases here'
      exact ⟨rfl, rfl⟩

namespace Roster

variable {r r' r'' : Roster} {label : Option Action} {task : TaskId} {sem : SemId}

/-- The stack of the task says where it goes on: the task is not in user mode. -/
def Away (r : Roster) (task : TaskId) : Prop := task = r.current → r.mode = .switching

/-- Every task goes on where it did, in its directory. -/
structure Stays (r r' : Roster) : Prop where
  current : r'.current = r.current
  resume : ∀ t, (r'.task t).resume = (r.task t).resume
  dir : ∀ t, (r'.task t).dir = (r.task t).dir

theorem Stays.refl (r : Roster) : Stays r r := ⟨rfl, fun _ => rfl, fun _ => rfl⟩

theorem Stays.trans (first : Stays r r') (second : Stays r' r'') : Stays r r'' where
  current := second.current.trans first.current
  resume t := (second.resume t).trans (first.resume t)
  dir t := (second.dir t).trans (first.dir t)

/-- The tasks are left alone. -/
theorem Stays.of_eq (current : r'.current = r.current) (same : r'.task = r.task) : Stays r r' :=
  ⟨current, fun t => by rw [same], fun t => by rw [same]⟩

theorem Stays.setTask {core : TaskCore} (resume : core.resume = (r.task task).resume)
    (dir : core.dir = (r.task task).dir) : Stays r (r.setTask task core) := by
  refine ⟨rfl, fun t => ?_, fun t => ?_⟩
  · simp only [Roster.setTask, Function.update_apply]
    split
    · rename_i same
      rw [same, resume]
    · rfl
  · simp only [Roster.setTask, Function.update_apply]
    split
    · rename_i same
      rw [same, dir]
    · rfl

theorem stays_place {q : Queue} {first : Bool} : Stays r (r.place task q first) :=
  (Stays.of_eq rfl rfl : Stays r (r.setQueue q _)).trans (.setTask rfl rfl)

theorem stays_yield : Stays r r.yield := by
  rw [yield]
  split
  · exact stays_place
  · exact .refl r

theorem stays_semDestroy {owner : TaskId} : Stays r (semDestroy owner r sem) := by
  rw [semDestroy_eq]
  refine ⟨rfl, fun t => ?_, fun t => ?_⟩
  · dsimp only
    split
    · rfl
    · rfl
  · dsimp only
    split
    · rfl
    · rfl

theorem stays_waitReturn : Stays r r.waitReturn := by
  rw [waitReturn]
  split
  · have cleared : Stays r (r.setTask r.current
        { r.task r.current with aborted := false }) := .setTask rfl rfl
    exact cleared.trans (.of_eq rfl rfl)
  · exact .of_eq rfl rfl

/-- The running task gives up the CPU, to go on at `saved`. -/
structure Leaves (r r' : Roster) (saved : Resume) : Prop where
  own : (r'.task r.current).resume = saved
  others : ∀ t, t ≠ r.current → (r'.task t).resume = (r.task t).resume
  dir : ∀ t, (r'.task t).dir = (r.task t).dir ∨ t = r.current ∧ saved = .exited

theorem leaves_schedNext {saved : Resume} (before : Stays r r') :
    Leaves r (r'.schedNext saved) saved := by
  refine ⟨?_, fun t other => ?_, fun t => ?_⟩
  · rw [schedNext_resume, if_pos before.current.symm]
  · rw [schedNext_resume, before.current, if_neg other, before.resume]
  · left
    rw [← before.dir]
    simp only [schedNext, setState, setTask, setQueue, Function.update_apply]
    grind

theorem leaves_exit : Leaves r r.exit .exited := by
  have gone : ∀ t, (r.retire.task t).resume = (r.task t).resume ∧
      ((r.retire.task t).dir = (r.task t).dir ∨ t = r.current) := by
    intro t
    rw [retire_eq]
    dsimp only
    rw [Function.update_apply]
    split
    · rename_i same
      rw [same]
      exact ⟨rfl, Or.inr rfl⟩
    · exact ⟨rfl, Or.inl rfl⟩
  have owns : r.retire.owned r.current = r.owned r.current := by rw [retire_eq]
  have current : r.retire.current = r.current := by rw [retire_eq]
  have left := (foldl_semDestroy (Stays r.retire)
    (fun _ _ same _ => same.trans stays_semDestroy) (r.owned r.current) r.retire (.refl _) owns).1
  rw [exit_eq]
  generalize (r.owned r.current).foldl (semDestroy r.current) r.retire = last at left ⊢
  have cleared : Stays r.retire { last with owned := Function.update last.owned r.current [] } :=
    left.trans (.of_eq rfl rfl)
  obtain ⟨own, others, dir⟩ := @leaves_schedNext r.retire _ .exited cleared
  rw [current] at own others dir
  refine ⟨own, fun t other => ?_, fun t => ?_⟩
  · rw [others t other, (gone t).1]
  · rcases dir t with same | mine
    · rw [same]
      exact (gone t).2.imp_right fun mine => ⟨mine, rfl⟩
    · exact Or.inr mine

/-- What a task saves when it gives up the CPU in the middle of a read: the arguments of
its call. -/
def Saves (r : Roster) (label : Option Action) (saved : Resume) : Prop :=
  saved.reading = true → ∃ buffer totalSize, saved.reads buffer totalSize ∧
    ((∃ fd size, label = some (.call (.read fd buffer size)) ∧ totalSize = size.toInt) ∨
      label = none ∧ (r.task r.current).resume.reads buffer totalSize)

/-- A round of the reading loop ends with the task blocked, or in user mode. -/
theorem rounds {buffer start : DWord} {totalSize left : Int} {size count : Nat}
    (before : Stays r r') (user : r'.mode = .user) (most : left ≤ totalSize) :
    (Stays r ((r'.popKeys size start count).1.readLoop buffer totalSize left) ∧
      ((r'.popKeys size start count).1.readLoop buffer totalSize left).mode = .user) ∨
    ∃ saved, Leaves r ((r'.popKeys size start count).1.readLoop buffer totalSize left) saved ∧
      saved.reads buffer totalSize := by
  obtain ⟨pending, trace, shape, _⟩ := popKeys_shape size start count r'
  rw [shape]
  have popped : Stays r { r' with pending := pending, trace := trace } :=
    before.trans (.of_eq rfl rfl)
  unfold readLoop
  split
  · rename_i some
    right
    exact ⟨.readLoop buffer totalSize left, leaves_schedNext (popped.trans stays_place),
      Or.inr ⟨left, rfl, by omega, most⟩⟩
  · left
    exact ⟨popped.trans (.of_eq rfl rfl), user⟩

theorem launch_resume {start : Resume} : ((r.launch task start).task task).resume = start := by
  unfold launch
  rw [place_resume]
  simp [setTask]

/-- A step leaves the tasks where they are, or takes the CPU from the running task, or makes
a new task. -/
theorem Step.places (sound : Sound r) {seen : Seen} (step : Step seen r label r') :
    (Stays r r' ∧ r'.mode = .user) ∨ (∃ saved, Leaves r r' saved ∧ Saves r label saved) ∨
      ∃ task, Spawns r r' task ∧ (r'.task task).resume.reading = false ∧
        r'.current = r.current ∧ r'.mode = .user := by
  cases step with
  | quiet action user => exact Or.inl ⟨.refl r, user⟩
  | preempt user =>
      right; left
      exact ⟨.handler, leaves_schedNext stays_yield, nofun⟩
  | press value key user pressed below room => exact Or.inl ⟨.of_eq rfl rfl, user⟩
  | wake value key reader rest user pressed below queue =>
      right; left
      have accepted : Stays r (r.accept key) := .of_eq rfl rfl
      have taken : Stays (r.accept key).yield ((r.accept key).yield.take reader .readers) :=
        .of_eq rfl rfl
      refine ⟨.handler, leaves_schedNext ?_, nofun⟩
      exact ((accepted.trans stays_yield).trans taken).trans stays_place
  | fork task dir others dirs user busy pool free =>
      right; right
      have opened : (r.newDir dir).QueueSound := sound.queues.congr rfl (fun _ => rfl) rfl
      obtain ⟨dead, idle, lastPid, pid, same⟩ :=
        @spawns_launch _ task dir .retFromFork others opened pool
      refine ⟨task, ⟨dead, idle, lastPid, pid, same⟩, ?_, rfl, user⟩
      rw [launch_resume]
      rfl
  | clone function stack exitFunc task dir others user busy pool own =>
      right; right
      have shared : (r.shareDir dir).QueueSound := sound.queues.congr rfl (fun _ => rfl) rfl
      obtain ⟨dead, idle, lastPid, pid, same⟩ :=
        @spawns_launch _ task dir .cloned others shared pool
      refine ⟨task, ⟨dead, idle, lastPid, pid, same⟩, ?_, rfl, user⟩
      rw [launch_resume]
      rfl
  | exit user busy => exact Or.inr (Or.inl ⟨.exited, leaves_exit, nofun⟩)
  | read fd buffer size user busy positive =>
      unfold Roster.read
      dsimp only
      have noted : Stays r (r.note (.readCalled r.current buffer size.toInt.toNat)) :=
        .of_eq rfl rfl
      split
      · unfold readFirst
        rcases rounds noted user (Int.sub_le_self _ (Int.natCast_nonneg _)) with stays | leaves
        · exact Or.inl stays
        · obtain ⟨saved, leaves, reads⟩ := leaves
          exact Or.inr (Or.inl ⟨saved, leaves, fun _ => ⟨buffer, _, reads, Or.inl ⟨fd, size, rfl, rfl⟩⟩⟩)
      · right; left
        refine ⟨.readFirst buffer size.toInt, leaves_schedNext (noted.trans stays_place), ?_⟩
        exact fun _ => ⟨buffer, size.toInt, Or.inl rfl, Or.inl ⟨fd, size, rfl, rfl⟩⟩
  | semInit nSem value sem user busy place unused => exact Or.inl ⟨.of_eq rfl rfl, user⟩
  | semTake nSem sem user busy place used some => exact Or.inl ⟨.of_eq rfl rfl, user⟩
  | semBlock nSem sem user busy place used none =>
      right; left
      have noted : Stays r (r.note (.semBlocked sem r.current)) := .of_eq rfl rfl
      exact ⟨.semWait sem, leaves_schedNext (noted.trans stays_place), nofun⟩
  | semRaise nSem sem user busy place used idle => exact Or.inl ⟨.of_eq rfl rfl, user⟩
  | semGrant nSem sem task rest user busy place used waiting =>
      left
      have taken : Stays r (r.take task (.waiters sem)) := .of_eq rfl rfl
      exact ⟨(taken.trans stays_place).trans (.of_eq rfl rfl), user⟩
  | semDestroy nSem sem owner user busy place used own same =>
      left
      refine ⟨stays_semDestroy, ?_⟩
      rw [semDestroy_eq]
      exact user
  | resume switching known => exact Or.inl ⟨.of_eq rfl rfl, rfl⟩
  | resumeWait sem switching saved =>
      left
      have entered : Stays r { r with mode := .user } := .of_eq rfl rfl
      refine ⟨entered.trans stays_waitReturn, ?_⟩
      unfold waitReturn
      split <;> rfl
  | resumeFirst buffer size switching here =>
      have entered : Stays r { r with mode := .user } := .of_eq rfl rfl
      unfold readFirst
      rcases rounds entered rfl (Int.sub_le_self _ (Int.natCast_nonneg _)) with stays | leaves
      · exact Or.inl stays
      · obtain ⟨saved, leaves, reads⟩ := leaves
        exact Or.inr (Or.inl ⟨saved, leaves, fun _ => ⟨buffer, size, reads, Or.inr ⟨rfl, Or.inl here⟩⟩⟩)
  | resumeLoop buffer totalSize size switching here =>
      have entered : Stays r { r with mode := .user } := .of_eq rfl rfl
      have sane := sound.park.current switching
      rw [here] at sane
      obtain ⟨positive, part⟩ := sane
      unfold readAgain
      rcases rounds entered rfl ((Int.sub_le_self _ (Int.natCast_nonneg _)).trans part)
        with stays | leaves
      · exact Or.inl stays
      · obtain ⟨saved, leaves, reads⟩ := leaves
        refine Or.inr (Or.inl ⟨saved, leaves, fun _ => ⟨buffer, totalSize, reads, ?_⟩⟩)
        exact Or.inr ⟨rfl, Or.inr ⟨size, here, positive.le, part⟩⟩

/-- The arguments of a read that waits are those of a call, or waited before. -/
theorem Step.reads (sound : Sound r) {seen : Seen} (step : Step seen r label r') {buffer : DWord}
    {totalSize : Int} (alive : (r'.task task).dir ≠ none) (away : r'.Away task)
    (reads : (r'.task task).resume.reads buffer totalSize) :
    ((r.task task).dir ≠ none ∧ (task = r.current → label = none) ∧
      (r.task task).resume.reads buffer totalSize) ∨
    (task = r.current ∧ ∃ fd size, label = some (.call (.read fd buffer size)) ∧
      totalSize = size.toInt) := by
  rcases step.places sound with stays | leaves | spawns
  · obtain ⟨stays, user⟩ := stays
    left
    rw [stays.dir] at alive
    rw [stays.resume] at reads
    refine ⟨alive, ?_, reads⟩
    intro mine
    have switching := away (mine.trans stays.current.symm)
    rw [user] at switching
    cases switching
  · obtain ⟨saved, leaves, saves⟩ := leaves
    by_cases mine : task = r.current
    · rw [mine] at reads alive ⊢
      rw [leaves.own] at reads
      obtain ⟨buffer', totalSize', reads', source⟩ := saves reads.reading
      obtain ⟨rfl, rfl⟩ := reads'.same reads
      rcases source with called | resumed
      · exact Or.inr ⟨rfl, called⟩
      · left
        refine ⟨?_, fun _ => resumed.1, resumed.2⟩
        rcases leaves.dir r.current with kept | exited
        · rw [← kept]
          exact alive
        · rw [exited.2] at reads
          cases reads.reading
    · left
      rw [leaves.others task mine] at reads
      refine ⟨?_, fun here => absurd here mine, reads⟩
      rcases leaves.dir task with kept | exited
      · rw [← kept]
        exact alive
      · exact absurd exited.1 mine
  · obtain ⟨child, spawns, fresh, current, user⟩ := spawns
    left
    by_cases new : task = child
    · rw [new] at reads
      rw [reads.reading] at fresh
      cases fresh
    · rw [spawns.others task new] at reads alive
      refine ⟨alive, ?_, reads⟩
      intro mine
      have switching := away (mine.trans current.symm)
      rw [user] at switching
      cases switching

/-- Without calls of `sys_read` no task saves a read. -/
theorem Step.unread (sound : Sound r) {seen : Seen} (step : Step seen r label r')
    (unread : ∀ t, (r.task t).resume.reading = false)
    (others : ∀ fd buffer size, label ≠ some (.call (.read fd buffer size))) (t : TaskId) :
    (r'.task t).resume.reading = false := by
  rcases step.places sound with stays | leaves | spawns
  · rw [stays.1.resume]
    exact unread t
  · obtain ⟨saved, leaves, saves⟩ := leaves
    by_cases mine : t = r.current
    · rw [mine, leaves.own]
      by_contra reading
      obtain ⟨buffer, totalSize, reads, source⟩ := saves (Bool.eq_true_of_not_eq_false reading)
      rcases source with called | resumed
      · obtain ⟨fd, size, same, _⟩ := called
        exact others fd buffer size same
      · exact absurd (resumed.2.reading.symm.trans (unread r.current)) (by decide)
    · rw [leaves.others t mine]
      exact unread t
  · obtain ⟨child, spawns, fresh, _⟩ := spawns
    by_cases new : t = child
    · rw [new]
      exact fresh
    · rw [spawns.others t new]
      exact unread t

end Roster

end Zeos
