import Zeos.Effects

set_option autoImplicit false

/-! Where a task that is not running continues. A blocked reader is inside
`sys_read_keyboard`, a waiter inside `sys_sem_wait`, and nobody on `readyqueue`
or idle is in the middle of a read. -/

namespace Zeos

/-- The task is inside `sys_read_keyboard`. -/
def Resume.reading : Resume → Bool
  | .readFirst _ _ | .readLoop _ _ _ => true
  | _ => false

/-- The characters a reader still wants. -/
def Resume.wanted : Resume → Int
  | .readFirst _ size => size
  | .readLoop _ _ size => size
  | _ => 0

/-- A reader wants no negative amount, and after its first round it has got the
other part of its total. -/
def Resume.sane : Resume → Prop
  | .readFirst _ size => 0 ≤ size
  | .readLoop _ totalSize size => 0 < size ∧ size ≤ totalSize
  | _ => True

/-- What a task on a queue can be in the middle of. -/
def Queue.Fits : Queue → Resume → Prop
  | .free, _ => True
  | .ready, resume => resume.reading = false
  | .readers, resume => resume.reading = true ∧ resume.sane
  | .waiters sem, resume => resume = .semWait sem

/-- Idle is never inside a system call. -/
def Resume.calm : Resume → Bool
  | .cpuIdle | .handler => true
  | _ => false

namespace Roster

structure ParkSound (r : Roster) : Prop where
  fits : ∀ {q t}, t ∈ r.queue q → q.Fits (r.task t).resume
  idle : (r.task r.idle).resume.calm = true
  current : r.mode = .switching → (r.task r.current).resume.sane

variable {r r' : Roster} {task other : TaskId} {q q' : Queue} {sem : SemId}

/-- Remember where the running task will continue. -/
def save (r : Roster) (saved : Resume) : Roster :=
  r.setTask r.current { r.task r.current with resume := saved }

/-- Give the CPU to a task. -/
def run (r : Roster) (next : TaskId) : Roster :=
  { r.setState next .run with current := next, mode := .switching }

@[simp] theorem save_queue {saved : Resume} : (r.save saved).queue = r.queue := rfl

@[simp] theorem save_trace {saved : Resume} : (r.save saved).trace = r.trace := rfl

@[simp] theorem save_pending {saved : Resume} : (r.save saved).pending = r.pending := rfl

@[simp] theorem save_mode {saved : Resume} : (r.save saved).mode = r.mode := rfl

@[simp] theorem save_idle {saved : Resume} : (r.save saved).idle = r.idle := rfl

@[simp] theorem save_current {saved : Resume} : (r.save saved).current = r.current := rfl

theorem save_resume {saved : Resume} : ((r.save saved).task task).resume =
    if task = r.current then saved else (r.task task).resume := by
  simp only [save, setTask, Function.update_apply]
  split <;> rfl

@[simp] theorem save_aborted {saved : Resume} :
    ((r.save saved).task task).aborted = (r.task task).aborted := by
  simp only [save, setTask, Function.update_apply]
  split
  · rename_i same
    rw [same]
  · rfl

@[simp] theorem save_state {saved : Resume} :
    ((r.save saved).task task).state = (r.task task).state := by
  simp only [save, setTask, Function.update_apply]
  split
  · rename_i same
    rw [same]
  · rfl

theorem save_sound {saved : Resume} (sound : r.QueueSound) : (r.save saved).QueueSound :=
  sound.congr rfl (fun _ => save_state) rfl

@[simp] theorem run_queue : (r.run task).queue = r.queue := rfl

@[simp] theorem run_trace : (r.run task).trace = r.trace := rfl

@[simp] theorem run_pending : (r.run task).pending = r.pending := rfl

@[simp] theorem run_mode : (r.run task).mode = .switching := rfl

@[simp] theorem run_idle : (r.run task).idle = r.idle := rfl

@[simp] theorem run_current : (r.run task).current = task := rfl

@[simp] theorem run_resume : ((r.run task).task other).resume = (r.task other).resume := by
  simp only [run, setState, setTask, Function.update_apply]
  split
  · rename_i same
    rw [same]
  · rfl

@[simp] theorem run_aborted : ((r.run task).task other).aborted = (r.task other).aborted := by
  simp only [run, setState, setTask, Function.update_apply]
  split
  · rename_i same
    rw [same]
  · rfl

@[simp] theorem place_resume {first : Bool} :
    ((r.place task q first).task other).resume = (r.task other).resume := by
  simp only [place, setState, setTask, setQueue, Function.update_apply]
  split
  · rename_i same
    rw [same]
  · rfl

@[simp] theorem place_aborted {first : Bool} :
    ((r.place task q first).task other).aborted = (r.task other).aborted := by
  simp only [place, setState, setTask, setQueue, Function.update_apply]
  split
  · rename_i same
    rw [same]
  · rfl

@[simp] theorem place_trace {first : Bool} : (r.place task q first).trace = r.trace := rfl

@[simp] theorem place_pending {first : Bool} : (r.place task q first).pending = r.pending := rfl

@[simp] theorem place_mode {first : Bool} : (r.place task q first).mode = r.mode := rfl

@[simp] theorem place_current {first : Bool} : (r.place task q first).current = r.current := rfl

@[simp] theorem place_idle {first : Bool} : (r.place task q first).idle = r.idle := rfl

@[simp] theorem take_trace : (r.take task q).trace = r.trace := rfl

@[simp] theorem take_pending : (r.take task q).pending = r.pending := rfl

@[simp] theorem take_mode : (r.take task q).mode = r.mode := rfl

@[simp] theorem take_current : (r.take task q).current = r.current := rfl

@[simp] theorem take_idle : (r.take task q).idle = r.idle := rfl

/-- `sched_next_rr` runs the first ready task, or idle. -/
theorem schedNext_eq {saved : Resume} : r.schedNext saved =
    if r.queue .ready = [] then (r.save saved).run r.idle
    else ((r.save saved).take r.nextTask .ready).run r.nextTask := by
  have task : (r.schedNext saved).task = ((r.save saved).run r.nextTask).task := by
    funext t
    simp only [schedNext, save, run, setState, setTask, setQueue, Function.update_apply]
    grind
  split
  · rename_i empty
    have next : r.nextTask = r.idle := by simp [nextTask, empty]
    have queue : Function.update r.queue .ready (r.queue .ready).tail = r.queue := by
      rw [empty, List.tail_nil, ← empty, Function.update_eq_self]
    rw [next] at task
    simp only [schedNext, setState, setTask, setQueue, run, save, queue, next] at task ⊢
    rw [task]
  · rename_i some
    obtain ⟨first, rest, shape⟩ := List.exists_cons_of_ne_nil some
    have next : r.nextTask = first := by simp [nextTask, shape]
    rw [next] at task
    simp only [schedNext, setState, setTask, setQueue, run, save, take, next, shape,
      List.tail_cons, List.erase_cons_head] at task ⊢
    rw [task]

/-- Going through the front of `readyqueue` on the way to the CPU. -/
theorem run_from_front {saved : Resume} (apart : task ≠ r.current) :
    ((((r.take task q).place task .ready true).save saved).take task .ready).run task =
      ((r.save saved).take task q).run task := by
  have queue : Function.update (Function.update (Function.update r.queue q
      ((r.queue q).erase task)) .ready (task :: (Function.update r.queue q
        ((r.queue q).erase task)) .ready)) .ready
          ((Function.update r.queue q ((r.queue q).erase task)) .ready) =
      Function.update r.queue q ((r.queue q).erase task) := by
    rw [Function.update_idem, Function.update_eq_self]
  simp only [run, save, place, take, setState, setTask, setQueue, Function.update_self,
    List.erase_cons_head, ↓reduceIte, queue, Roster.mk.injEq, and_true, true_and]
  funext t
  simp only [Function.update_apply]
  grind

/-- A keyboard wake-up runs the reader at once. -/
theorem wake_eq (apart : task ≠ r.current) :
    r.wake task = ((r.yield.save .handler).take task .readers).run task := by
  have current : r.yield.current = r.current := by
    rw [yield]
    split <;> rfl
  have next : ((r.yield.take task .readers).place task .ready true).nextTask = task := by
    simp [nextTask, place, setState, setTask, setQueue]
  rw [wake, schedNext_eq, if_neg, next, run_from_front (current ▸ apart)]
  simp [place, setState, setTask, setQueue]

/-! ### What is kept -/

theorem Fits.sane {resume : Resume} (fits : Queue.ready.Fits resume) : resume.sane := by
  cases resume <;> trivial

theorem calm_sane {resume : Resume} (calm : resume.calm = true) : resume.sane := by
  cases resume <;> trivial

theorem ParkSound.congr (park : ParkSound r) (queue : r'.queue = r.queue)
    (resume : ∀ t, (r'.task t).resume = (r.task t).resume) (idle : r'.idle = r.idle)
    (current : r'.current = r.current) (mode : r'.mode = r.mode) : ParkSound r' := by
  refine ⟨?_, ?_, ?_⟩
  · intro q t member
    rw [queue] at member
    rw [resume]
    exact park.fits member
  · rw [resume, idle]
    exact park.idle
  · rw [resume, current, mode]
    exact park.current

theorem ParkSound.take (park : ParkSound r) (sound : r.QueueSound) : ParkSound (r.take task q) :=
  ⟨fun member => park.fits ((mem_take sound).mp member).1, park.idle, park.current⟩

theorem ParkSound.run (park : ParkSound r) (sane : (r.task task).resume.sane) :
    ParkSound (r.run task) := by
  refine ⟨?_, ?_, ?_⟩
  · intro q t member
    rw [run_resume]
    exact park.fits member
  · rw [run_resume]
    exact park.idle
  · intro _
    rw [run_resume]
    exact sane

/-- The running task joins a queue at a point that fits it. -/
theorem ParkSound.suspend {first : Bool} {saved : Resume} (park : ParkSound r)
    (running : r.Running) (user : r.mode = .user) (busy : r.current ≠ r.idle)
    (fits : q.Fits saved) : ParkSound ((r.place r.current q first).save saved) := by
  refine ⟨?_, ?_, ?_⟩
  · intro q' t member
    rw [save_queue, mem_place] at member
    rw [save_resume, place_current, place_resume]
    rcases member with ⟨rfl, rfl⟩ | member
    · rw [if_pos rfl]
      exact fits
    · rw [if_neg]
      · exact park.fits member
      · rintro rfl
        exact running.out ⟨q', member⟩
  · rw [save_idle, place_idle, save_resume, place_current, place_resume, if_neg (Ne.symm busy)]
    exact park.idle
  · intro switching
    rw [save_mode, place_mode, user] at switching
    cases switching

/-- Idle is interrupted. -/
theorem ParkSound.interrupt (park : ParkSound r) (sound : r.QueueSound) (user : r.mode = .user)
    (idling : r.current = r.idle) : ParkSound (r.save .handler) := by
  refine ⟨?_, ?_, ?_⟩
  · intro q t member
    rw [save_resume, if_neg]
    · exact park.fits member
    · rintro rfl
      exact sound.idleOut q (idling ▸ member)
  · rw [save_idle, save_resume, if_pos idling.symm]
    rfl
  · intro switching
    rw [save_mode, user] at switching
    cases switching

/-- The running task, or interrupted idle, is put aside. -/
theorem ParkSound.yield (park : ParkSound r) (sound : r.QueueSound) (running : r.Running)
    (user : r.mode = .user) : ParkSound (r.yield.save .handler) := by
  rw [Roster.yield]
  split
  · rename_i busy
    exact park.suspend running user busy rfl
  · rename_i idling
    exact park.interrupt sound user (not_not.mp idling)

theorem ParkSound.schedNext {saved : Resume} (park : ParkSound (r.save saved))
    (sound : r.QueueSound) : ParkSound (r.schedNext saved) := by
  rw [schedNext_eq]
  split
  · exact park.run (calm_sane park.idle)
  · rename_i some
    have inside : r.nextTask ∈ r.queue .ready := by
      obtain ⟨first, rest, shape⟩ := List.exists_cons_of_ne_nil some
      simp [nextTask, shape]
    exact (park.take (save_sound sound)).run (Fits.sane (park.fits inside))

theorem ParkSound.wake (park : ParkSound (r.yield.save .handler)) (sound : r.yield.QueueSound)
    (apart : task ≠ r.current) (inside : task ∈ r.yield.queue .readers) :
    ParkSound (r.wake task) := by
  rw [wake_eq apart]
  exact (park.take (save_sound sound)).run (park.fits inside).2

/-- A waiter becomes ready. -/
theorem ParkSound.grant {first : Bool} (park : ParkSound r) (sound : r.QueueSound)
    (inside : task ∈ r.queue (.waiters sem)) :
    ParkSound ((r.take task (.waiters sem)).place task .ready first) := by
  refine ⟨?_, ?_, ?_⟩
  · intro q t member
    rw [place_resume, take_task]
    rw [mem_place, mem_take sound] at member
    rcases member with ⟨rfl, rfl⟩ | member
    · rw [park.fits inside]
      rfl
    · exact park.fits member.1
  · rw [place_resume, take_task]
    exact park.idle
  · rw [place_resume, take_task]
    exact park.current

theorem ParkSound.semDestroy (park : ParkSound r) {owner : TaskId} :
    ParkSound (semDestroy owner r sem) := by
  have resume : ∀ t, (if t ∈ r.queue (.waiters sem) then
      { r.task t with state := .ready, aborted := true } else r.task t).resume =
      (r.task t).resume := by
    intro t
    split <;> rfl
  rw [semDestroy_eq]
  refine ⟨?_, ?_, ?_⟩
  · intro q t member
    rw [resume]
    simp only [Function.update_apply] at member
    split at member
    · rename_i ready
      rw [ready]
      rw [List.mem_append] at member
      rcases member with member | member
      · exact park.fits member
      · rw [park.fits member]
        rfl
    · split at member
      · cases member
      · exact park.fits member
  · rw [resume]
    exact park.idle
  · rw [resume]
    exact park.current

theorem ParkSound.spawn (park : ParkSound r) (user : r.mode = .user) (sound : r.QueueSound)
    {others : List TaskId} {dir : DirId} {start : Resume}
    (pool : r.queue .free = task :: others) (fits : start.reading = false) :
    ParkSound ((r.allocate task dir).launch task start) := by
  have inside : task ∈ r.queue .free := by simp [pool]
  have notIdle : r.idle ≠ task := by
    rintro same
    exact sound.idleOut .free (same ▸ inside)
  rw [spawn_eq pool]
  refine ⟨?_, ?_, ?_⟩
  · intro q t member
    by_cases same : t = task
    · subst same
      simp only [Function.update_self]
      simp only [Function.update_apply] at member
      split at member
      · rename_i ready
        rw [ready]
        exact fits
      · split at member
        · rename_i free
          rw [free]
          trivial
        · rename_i notFree
          exact absurd (sound.apart member inside) notFree
    · simp only [Function.update_of_ne same]
      apply park.fits
      simp only [Function.update_apply] at member
      split at member
      · rename_i ready
        rw [ready]
        simpa [same] using member
      · split at member
        · rename_i free
          rw [free, pool]
          exact List.mem_cons_of_mem _ member
        · exact member
  · simp only [Function.update_of_ne notIdle]
    exact park.idle
  · intro switching
    rw [user] at switching
    cases switching

theorem ParkSound.retire (park : ParkSound r) (user : r.mode = .user) : ParkSound r.retire := by
  have resume : ∀ t, (r.retire.task t).resume = (r.task t).resume := by
    intro t
    rw [retire_eq]
    simp only [Function.update_apply]
    split
    · rename_i same
      rw [same]
    · rfl
  refine ⟨?_, ?_, ?_⟩
  · intro q t member
    rw [resume]
    simp only [retire_eq, Function.update_apply] at member
    split at member
    · rename_i free
      rw [free]
      trivial
    · exact park.fits member
  · rw [resume, retire_eq]
    exact park.idle
  · intro switching
    rw [retire_eq, user] at switching
    cases switching

/-- What the dying task leaves behind on its stack does not matter. -/
theorem ParkSound.bury (park : ParkSound r) (sound : r.QueueSound)
    (dead : r.current ∈ r.queue .free) (user : r.mode = .user) {saved : Resume} :
    ParkSound (r.save saved) := by
  refine ⟨?_, ?_, ?_⟩
  · intro q t member
    rw [save_resume]
    split
    · rename_i same
      rw [sound.apart member (same ▸ dead)]
      trivial
    · exact park.fits member
  · rw [save_idle, save_resume, if_neg]
    · exact park.idle
    · intro same
      exact sound.idleOut .free (same ▸ dead)
  · intro switching
    rw [save_mode, user] at switching
    cases switching

end Roster

end Zeos
