import Zeos.Roster

set_option autoImplicit false

/-! The queues of the abstract scheduler: no task is on two of them, or twice on
one, and the state field names the queue. -/

namespace Zeos

namespace Roster

/-- `Sound`ness of the queues, whoever is running. -/
structure QueueSound (r : Roster) : Prop where
  nodup : ∀ q, (r.queue q).Nodup
  apart : ∀ {q q' t}, t ∈ r.queue q → t ∈ r.queue q' → q = q'
  tagged : ∀ {q t}, t ∈ r.queue q → (r.task t).state = q.state
  idleOut : ∀ q, r.idle ∉ r.queue q

def Queued (r : Roster) (task : TaskId) : Prop := ∃ q, task ∈ r.queue q

/-- Every task but idle is on a queue: nobody has the CPU. -/
def AllQueued (r : Roster) : Prop := ∀ task, task ≠ r.idle → r.Queued task

/-- The running task is on no queue, and it is the only one but idle. -/
structure Running (r : Roster) : Prop where
  out : ¬ r.Queued r.current
  state : (r.task r.current).state = .run
  others : ∀ task, task ≠ r.idle → task ≠ r.current → r.Queued task

variable {r r' : Roster} {task other : TaskId} {q q' : Queue}

/-- The queues, the states and idle are all that matters. -/
theorem QueueSound.congr (sound : r.QueueSound) (queue : r'.queue = r.queue)
    (state : ∀ t, (r'.task t).state = (r.task t).state) (idle : r'.idle = r.idle) :
    r'.QueueSound := by
  refine ⟨?_, ?_, ?_, ?_⟩
  · rw [queue]
    exact sound.nodup
  · rw [queue]
    exact sound.apart
  · intro q t member
    rw [queue] at member
    rw [state, sound.tagged member]
  · rw [queue, idle]
    exact sound.idleOut

theorem Running.congr (running : r.Running) (queue : r'.queue = r.queue)
    (state : ∀ t, (r'.task t).state = (r.task t).state) (idle : r'.idle = r.idle)
    (current : r'.current = r.current) : r'.Running := by
  refine ⟨?_, ?_, ?_⟩
  · rw [Queued, queue, current]
    exact running.out
  · rw [state, current, running.state]
  · intro t notIdle notCurrent
    rw [idle] at notIdle
    rw [current] at notCurrent
    rw [Queued, queue]
    exact running.others t notIdle notCurrent

/-! ### Placing and taking -/

theorem mem_place {first : Bool} : other ∈ (r.place task q first).queue q' ↔
    (q' = q ∧ other = task) ∨ other ∈ r.queue q' := by
  simp only [place, setState, setTask, setQueue, Function.update_apply]
  by_cases same : q' = q
  · subst same
    cases first <;> simp [or_comm]
  · simp [same]

theorem queued_place {first : Bool} :
    (r.place task q first).Queued other ↔ other = task ∨ r.Queued other := by
  simp only [Queued, mem_place, exists_or, exists_and_right, exists_eq, true_and]

@[simp] theorem place_state {first : Bool} : ((r.place task q first).task other).state =
    if other = task then q.state else (r.task other).state := by
  simp only [place, setState, setTask, setQueue, Function.update_apply]
  split <;> rfl

theorem place_sound {first : Bool} (sound : r.QueueSound) (out : ¬ r.Queued task)
    (notIdle : task ≠ r.idle) : (r.place task q first).QueueSound := by
  have outside : ∀ q, task ∉ r.queue q := fun q member => out ⟨q, member⟩
  refine ⟨?_, ?_, ?_, ?_⟩
  · intro q'
    simp only [place, setState, setTask, setQueue, Function.update_apply]
    by_cases same : q' = q
    · have distinct := sound.nodup q
      have outQ := outside q
      cases first
      · simp only [same, ↓reduceIte, Bool.false_eq_true]
        exact List.nodup_append.mpr ⟨distinct, by simp, by
          intro member inside other single equal
          rw [List.mem_singleton] at single
          exact outQ (single ▸ equal ▸ inside)⟩
      · simp only [same, ↓reduceIte, List.nodup_cons]
        exact ⟨outQ, distinct⟩
    · simp only [same, ↓reduceIte]
      exact sound.nodup q'
  · intro q₁ q₂ t inFirst inSecond
    rw [mem_place] at inFirst inSecond
    rcases inFirst with ⟨rfl, rfl⟩ | inFirst <;> rcases inSecond with ⟨same, equal⟩ | inSecond
    · exact same.symm
    · exact absurd inSecond (outside q₂)
    · exact absurd (equal ▸ inFirst) (outside q₁)
    · exact sound.apart inFirst inSecond
  · intro q' t member
    rw [mem_place] at member
    rw [place_state]
    rcases member with ⟨rfl, rfl⟩ | member
    · rw [if_pos rfl]
    · rw [if_neg, sound.tagged member]
      rintro rfl
      exact outside q' member
  · intro q' member
    rw [mem_place] at member
    rcases member with ⟨_, same⟩ | member
    · exact notIdle same.symm
    · exact sound.idleOut q' member

theorem mem_take (sound : r.QueueSound) : other ∈ (r.take task q).queue q' ↔
    other ∈ r.queue q' ∧ ¬ (q' = q ∧ other = task) := by
  simp only [take, setQueue, Function.update_apply]
  by_cases same : q' = q
  · subst same
    simp only [↓reduceIte, (sound.nodup q').mem_erase_iff, true_and]
    exact and_comm
  · simp [same]

theorem queued_take (sound : r.QueueSound) (inside : task ∈ r.queue q) :
    (r.take task q).Queued other ↔ r.Queued other ∧ other ≠ task := by
  constructor
  · rintro ⟨q', member⟩
    rw [mem_take sound] at member
    refine ⟨⟨q', member.1⟩, ?_⟩
    rintro rfl
    exact member.2 ⟨sound.apart member.1 inside, rfl⟩
  · rintro ⟨⟨q', member⟩, different⟩
    exact ⟨q', (mem_take sound).mpr ⟨member, fun same => different same.2⟩⟩

theorem take_sound (sound : r.QueueSound) : (r.take task q).QueueSound := by
  refine ⟨?_, ?_, ?_, ?_⟩
  · intro q'
    simp only [take, setQueue, Function.update_apply]
    split
    · exact (sound.nodup q).erase task
    · exact sound.nodup q'
  · intro q₁ q₂ t inFirst inSecond
    exact sound.apart ((mem_take sound).mp inFirst).1 ((mem_take sound).mp inSecond).1
  · intro q' t member
    exact sound.tagged ((mem_take sound).mp member).1
  · intro q' member
    exact sound.idleOut q' ((mem_take sound).mp member).1

/-- Moving a task from one queue to another. -/
theorem move_sound {first : Bool} (sound : r.QueueSound) (inside : task ∈ r.queue q) :
    ((r.take task q).place task q' first).QueueSound := by
  apply place_sound (take_sound sound)
  · intro queued
    exact ((queued_take sound inside).mp queued).2 rfl
  · intro same
    exact sound.idleOut q (same ▸ inside)

theorem queued_move {first : Bool} (sound : r.QueueSound) (inside : task ∈ r.queue q) :
    ((r.take task q).place task q' first).Queued other ↔ r.Queued other := by
  rw [queued_place, queued_take sound inside]
  constructor
  · rintro (rfl | ⟨queued, _⟩)
    · exact ⟨q, inside⟩
    · exact queued
  · intro queued
    by_cases same : other = task
    · exact Or.inl same
    · exact Or.inr ⟨queued, same⟩

@[simp] theorem take_task : (r.take task q).task = r.task := rfl

/-- Moving another task leaves the running one as it is. -/
theorem Running.move {first : Bool} (running : r.Running) (sound : r.QueueSound)
    (inside : task ∈ r.queue q) : ((r.take task q).place task q' first).Running := by
  have different : r.current ≠ task := by
    rintro same
    exact running.out ⟨q, same ▸ inside⟩
  refine ⟨?_, ?_, ?_⟩
  · rw [queued_move sound inside]
    exact running.out
  · change (((r.take task q).place task q' first).task r.current).state = .run
    rw [place_state, if_neg different]
    exact running.state
  · intro t notIdle notCurrent
    rw [queued_move sound inside]
    exact running.others t notIdle notCurrent

/-! ### The running task gives up the CPU -/

theorem Running.place {first : Bool} (running : r.Running) (sound : r.QueueSound)
    (busy : r.current ≠ r.idle) :
    (r.place r.current q first).QueueSound ∧ (r.place r.current q first).AllQueued := by
  refine ⟨place_sound sound running.out busy, ?_⟩
  intro t notIdle
  rw [queued_place]
  by_cases same : t = r.current
  · exact Or.inl same
  · exact Or.inr (running.others t notIdle same)

theorem Running.yield (running : r.Running) (sound : r.QueueSound) :
    r.yield.QueueSound ∧ r.yield.AllQueued := by
  rw [Roster.yield]
  split
  · rename_i busy
    exact running.place sound busy
  · rename_i idling
    refine ⟨sound, fun t notIdle => running.others t notIdle ?_⟩
    rintro rfl
    exact idling notIdle

theorem AllQueued.move {first : Bool} (all : r.AllQueued) (sound : r.QueueSound)
    (inside : task ∈ r.queue q) : ((r.take task q).place task q' first).AllQueued := by
  intro t notIdle
  rw [queued_move sound inside]
  exact all t notIdle

/-! ### The next task gets the CPU -/

theorem nextTask_mem (different : r.nextTask ≠ r.idle) : r.nextTask ∈ r.queue .ready := by
  rw [nextTask] at different ⊢
  cases h : r.queue .ready with
  | nil => simp [h] at different
  | cons first rest => simp

@[simp] theorem schedNext_queue {saved : Resume} : (r.schedNext saved).queue =
    Function.update r.queue .ready (r.queue .ready).tail := rfl

@[simp] theorem schedNext_current {saved : Resume} :
    (r.schedNext saved).current = r.nextTask := rfl

@[simp] theorem schedNext_mode {saved : Resume} :
    (r.schedNext saved).mode = .switching := rfl

theorem schedNext_state {saved : Resume} : ((r.schedNext saved).task task).state =
    if task = r.nextTask then .run else (r.task task).state := by
  simp only [schedNext, setState, setTask, setQueue, Function.update_apply]
  grind

theorem schedNext_resume {saved : Resume} : ((r.schedNext saved).task task).resume =
    if task = r.current then saved else (r.task task).resume := by
  simp only [schedNext, setState, setTask, setQueue, Function.update_apply]
  grind

theorem mem_schedNext {saved : Resume} (sound : r.QueueSound) :
    task ∈ (r.schedNext saved).queue q ↔ task ∈ r.queue q ∧ task ≠ r.nextTask := by
  rw [schedNext_queue, Function.update_apply]
  by_cases ready : q = .ready
  · subst ready
    have distinct := sound.nodup .ready
    have idleOut := sound.idleOut .ready
    simp only [↓reduceIte, nextTask]
    cases h : r.queue .ready with
    | nil => simp
    | cons first rest =>
        rw [h, List.nodup_cons] at distinct
        simp only [List.tail_cons, List.mem_cons, List.headD_cons]
        constructor
        · intro member
          exact ⟨Or.inr member, fun same => distinct.1 (same ▸ member)⟩
        · rintro ⟨same | member, different⟩
          · exact absurd same different
          · exact member
  · simp only [ready, ↓reduceIte, iff_self_and]
    intro member same
    by_cases idle : r.nextTask = r.idle
    · exact sound.idleOut q (idle ▸ same ▸ member)
    · exact ready (sound.apart member (same ▸ nextTask_mem idle))

theorem schedNext_sound {saved : Resume} (sound : r.QueueSound) :
    (r.schedNext saved).QueueSound := by
  refine ⟨?_, ?_, ?_, ?_⟩
  · intro q
    rw [schedNext_queue, Function.update_apply]
    split
    · exact (sound.nodup .ready).tail
    · exact sound.nodup q
  · intro q₁ q₂ t inFirst inSecond
    exact sound.apart ((mem_schedNext sound).mp inFirst).1 ((mem_schedNext sound).mp inSecond).1
  · intro q t member
    rw [mem_schedNext sound] at member
    rw [schedNext_state, if_neg member.2, sound.tagged member.1]
  · intro q member
    exact sound.idleOut q ((mem_schedNext sound).mp member).1

/-- With everybody queued, the chosen task becomes the running one. -/
theorem schedNext_running {saved : Resume} (sound : r.QueueSound) (all : r.AllQueued) :
    (r.schedNext saved).Running := by
  refine ⟨?_, ?_, ?_⟩
  · rintro ⟨q, member⟩
    exact ((mem_schedNext sound).mp member).2 rfl
  · rw [schedNext_state, schedNext_current, if_pos rfl]
  · intro t notIdle notCurrent
    obtain ⟨q, member⟩ := all t notIdle
    exact ⟨q, (mem_schedNext sound).mpr ⟨member, notCurrent⟩⟩

end Roster

end Zeos
