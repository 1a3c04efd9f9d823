import Zeos.Boot

set_option autoImplicit false

/-! No process is ever lost or queued twice. -/

namespace Zeos

open CircularList (Ring)

variable {k : Kernel} {r : Roster} {task : TaskId} {sem : SemId}

/-- The heads of lists; the other nodes are members. -/
def Node.isHead : Node → Bool
  | .anchor _ | .semAnchor _ | .dirAnchor _ => false
  | _ => true

/-- A node is on the list of a head exactly once. -/
def Kernel.onList (k : Kernel) (head node : Node) : Prop :=
  ∃ members, Ring k.links head members ∧ members.count node = 1

/-- Where a task struct can be. -/
inductive Situation where
  | free | ready | reading
  | waiting (sem : SemId)
  | running

/-- The state field that goes with it. -/
def Situation.state : Situation → TaskState
  | .free => .invalid
  | .ready => .ready
  | .reading | .waiting _ => .blocked
  | .running => .run

/-- Only the running task has null links in its anchor. -/
def Kernel.inSituation (k : Kernel) (task : TaskId) : Situation → Prop
  | .free => k.onList .freeQueue (.anchor task)
  | .ready => k.onList .readyqueue (.anchor task)
  | .reading => k.onList .keyboardqueue (.anchor task)
  | .waiting sem => k.onList (.blocked sem) (.anchor task)
  | .running => task = k.current ∧ k.links (.anchor task) = ⟨none, none⟩

/-- A list in memory is the abstract one. -/
theorem Refines.ring_iff (ref : Refines k r) {head : Node} (isHead : head.isHead = true)
    {members : List Node} : Ring k.links head members ↔ r.family head = some members := by
  refine ⟨fun ring => ref.lists.ring_started ring ?_, fun stored => ref.lists.ring stored⟩
  intro other others stored inside
  rcases family_member stored inside with ⟨_, _, _, rfl, _⟩ | ⟨_, _, rfl, _⟩ | ⟨_, _, _, rfl, _⟩ <;>
    cases isHead

theorem head_isHead (q : Queue) : q.head.isHead = true := by
  cases q <;> rfl

theorem Refines.onList_iff (ref : Refines k r) {head node : Node} (isHead : head.isHead = true) :
    k.onList head node ↔ ∃ members, r.family head = some members ∧ node ∈ members := by
  constructor
  · rintro ⟨members, ring, once⟩
    exact ⟨members, (ref.ring_iff isHead).mp ring, List.count_pos_iff.mp (by omega)⟩
  · rintro ⟨members, stored, inside⟩
    have ring := ref.lists.ring stored
    exact ⟨members, ring, List.count_eq_one_of_mem (List.nodup_cons.mp ring.nodup).2 inside⟩

theorem Refines.onQueue_iff (ref : Refines k r) (sound : Roster.Sound r) {q : Queue} :
    k.onList q.head (.anchor task) ↔ task ∈ r.queue q := by
  rw [ref.onList_iff (head_isHead q)]
  constructor
  · rintro ⟨members, stored, inside⟩
    rcases family_member stored inside with ⟨q', t, same, node, member⟩ | ⟨_, _, node, _⟩ |
      ⟨_, _, _, node, _⟩
    · cases node
      rw [head_injective same]
      exact member
    · cases node
    · cases node
  · intro member
    exact ⟨_, family_head (started_of_mem sound.owners member),
      List.mem_map.mpr ⟨task, member, rfl⟩⟩

/-- A situation is a queue, or the CPU. -/
def Situation.queue : Situation → Option Queue
  | .free => some .free
  | .ready => some .ready
  | .reading => some .readers
  | .waiting sem => some (.waiters sem)
  | .running => none

theorem Refines.inSituation_queue (ref : Refines k r) (sound : Roster.Sound r) {s : Situation}
    {q : Queue} (queue : s.queue = some q) : k.inSituation task s ↔ task ∈ r.queue q := by
  rw [← ref.onQueue_iff sound]
  cases s <;> cases queue <;> rfl

theorem Refines.inSituation_running (ref : Refines k r) (sound : Roster.Sound r) :
    k.inSituation task .running ↔ task = r.current := by
  rw [← ref.current]
  refine ⟨And.left, fun same => ⟨same, ?_⟩⟩
  refine ref.lists.detached (loose_anchor ?_)
  rw [same, ref.current]
  exact sound.running.out

def Queue.situation : Queue → Situation
  | .free => .free
  | .ready => .ready
  | .readers => .reading
  | .waiters sem => .waiting sem

theorem situation_queue (q : Queue) : q.situation.queue = some q := by
  cases q <;> rfl

theorem queue_situation {s : Situation} {q : Queue} (queue : s.queue = some q) :
    s = q.situation := by
  cases s <;> cases queue <;> rfl

theorem queue_none {s : Situation} (none : s.queue = none) : s = .running := by
  cases s <;> first | rfl | cases none

theorem situation_state (q : Queue) : q.situation.state = q.state := by
  cases q <;> rfl

/-- A task is in a situation and in no other, and its fields agree with it. -/
structure Kernel.Settled (k : Kernel) (task : TaskId) (s : Situation) : Prop where
  inside : k.inSituation task s
  only : ∀ s', k.inSituation task s' → s' = s
  state : (k.tasks task).state = s.state
  used : ∀ sem, s = .waiting sem → (k.semaphores sem).used = true

theorem Refines.state_eq (ref : Refines k r) : (k.tasks task).state = (r.task task).state :=
  congrArg TaskCore.state (ref.core task)

theorem Refines.settled_running (ref : Refines k r) (sound : Roster.Sound r)
    (mine : task = r.current) : k.Settled task .running where
  inside := (ref.inSituation_running sound).mpr mine
  only s' inside := by
    cases queue : s'.queue with
    | none => exact queue_none queue
    | some q =>
        have member := (ref.inSituation_queue sound queue).mp inside
        exact absurd ⟨q, mine ▸ member⟩ sound.running.out
  state := by
    rw [ref.state_eq, mine, sound.running.state]
    rfl
  used := nofun

theorem Refines.settled_queue (ref : Refines k r) (sound : Roster.Sound r) {q : Queue}
    (member : task ∈ r.queue q) : k.Settled task q.situation where
  inside := (ref.inSituation_queue sound (situation_queue q)).mpr member
  only s' inside := by
    cases queue : s'.queue with
    | none =>
        rw [queue_none queue] at inside
        have mine := (ref.inSituation_running sound).mp inside
        exact absurd ⟨q, mine ▸ member⟩ sound.running.out
    | some q' =>
        have member' := (ref.inSituation_queue sound queue).mp inside
        rw [queue_situation queue, sound.queues.apart member' member]
  state := by rw [ref.state_eq, sound.queues.tagged member, situation_state]
  used sem waits := by
    have waiters : q = .waiters sem := by
      have queue := situation_queue q
      rw [waits] at queue
      exact (Option.some.inj queue).symm
    rw [ref.sems]
    by_contra unused
    rw [Bool.not_eq_true] at unused
    rw [waiters, sound.owners.unused sem unused] at member
    cases member

/-- In every state reached, each task struct but idle is in exactly one situation,
and idle is on no queue. -/
theorem process_in_one_situation {k : Kernel} (reached : Reachable anyAction k) :
    (∀ task, task ≠ k.idleTask → ∃ s, k.Settled task s) ∧
      ∀ s, s ≠ .running → ¬ k.inSituation k.idleTask s := by
  obtain ⟨r, ref, sound⟩ := reachable_sound reached
  constructor
  · intro task notIdle
    rw [ref.idle] at notIdle
    by_cases mine : task = r.current
    · exact ⟨.running, ref.settled_running sound mine⟩
    · obtain ⟨q, member⟩ := sound.running.others task notIdle mine
      exact ⟨q.situation, ref.settled_queue sound member⟩
  · intro s queued inside
    cases queue : s.queue with
    | none => exact queued (queue_none queue)
    | some q =>
        have member := (ref.inSituation_queue sound queue).mp inside
        rw [ref.idle] at member
        exact sound.queues.idleOut q member

/-- Two forks, then task 1 blocks on its semaphore and a child in a read, and the
machine is back in user mode. -/
theorem process_in_one_situation_blocked :
    let k := Kernel.after everyStep [some (.call .fork), some (.call .fork),
      some (.call (.semInit 0 0)), some (.call (.semWait 0)), none,
      some (.call (.read 0 0x108000 1)), none]
    (∀ task, task ≠ k.idleTask → ∃ s, k.Settled task s) ∧
      ∀ s, s ≠ .running → ¬ k.inSituation k.idleTask s :=
  process_in_one_situation (reached_after (by decide +kernel)).any

end Zeos
