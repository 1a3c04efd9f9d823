import Zeos.RingBuffer
import Zeos.Sound

set_option autoImplicit false

/-! The kernel and the abstract scheduler, and the operations of the kernel that
move tasks. -/

namespace Zeos

open CircularList (Heap Represents Loose)

/-- The part of the kernel state the scheduler is about. -/
structure View where
  links : Heap Node
  core : TaskId → TaskCore
  semaphores : SemId → Semaphore
  dirCount : DirId → Int
  current : TaskId
  idleTask : TaskId
  mode : Mode
  lastPid : Int
  trace : List Note
  buffer : Nat → Byte
  buffFrom : Nat
  buffTo : Nat

def Kernel.view (k : Kernel) : View where
  links := k.links
  core t := (k.tasks t).core
  semaphores := k.semaphores
  dirCount := k.dirCount
  current := k.current
  idleTask := k.idleTask
  mode := k.mode
  lastPid := k.lastPid
  trace := k.trace
  buffer := k.keyboard.keyboardBuffer
  buffFrom := k.keyboard.buffFrom
  buffTo := k.keyboard.buffTo

def Keyboard.contents (kb : Keyboard) : List Byte :=
  RingBuffer.contents keyboardBufferSize kb.keyboardBuffer kb.buffFrom kb.buffTo

/-- The kernel state stores the abstract one. -/
structure Refines (k : Kernel) (r : Roster) : Prop where
  lists : Represents k.links r.family
  core : ∀ t, (k.tasks t).core = r.task t
  sems : k.semaphores = r.sem
  dirCount : k.dirCount = r.dirCount
  current : k.current = r.current
  idle : k.idleTask = r.idle
  mode : k.mode = r.mode
  lastPid : k.lastPid = r.lastPid
  trace : k.trace = r.trace
  fromInside : k.keyboard.buffFrom < keyboardBufferSize
  toInside : k.keyboard.buffTo < keyboardBufferSize
  contents : k.keyboard.contents = r.pending

variable {k k' : Kernel} {r r' : Roster} {task : TaskId} {q q' : Queue} {sem : SemId}

theorem Refines.of_view (ref : Refines k r) (same : k'.view = k.view) : Refines k' r := by
  simp only [Kernel.view, View.mk.injEq] at same
  obtain ⟨links, core, sems, dirCount, current, idle, mode, lastPid, trace, buffer, first, last⟩ :=
    same
  refine ⟨?_, ?_, ?_, ?_, ?_, ?_, ?_, ?_, ?_, ?_, ?_, ?_⟩
  · rw [links]
    exact ref.lists
  · intro t
    exact (congrFun core t).trans (ref.core t)
  · rw [sems, ref.sems]
  · rw [dirCount, ref.dirCount]
  · rw [current, ref.current]
  · rw [idle, ref.idle]
  · rw [mode, ref.mode]
  · rw [lastPid, ref.lastPid]
  · rw [trace, ref.trace]
  · rw [first]
    exact ref.fromInside
  · rw [last]
    exact ref.toInside
  · rw [Keyboard.contents, buffer, first, last]
    exact ref.contents

/-- Replacing the core of one task. -/
theorem core_setTask {struct : TaskStruct} {t : TaskId} :
    ((k.setTask task struct).tasks t).core =
      Function.update (fun t => (k.tasks t).core) task struct.core t := by
  simp only [Kernel.setTask, Function.update_apply]
  split <;> rfl

/-! ### What does not concern the scheduler -/

theorem view_setTask {struct : TaskStruct} (same : struct.core = (k.tasks task).core) :
    (k.setTask task struct).view = k.view := by
  have core : (fun t => ((k.setTask task struct).tasks t).core) =
      fun t => (k.tasks t).core := by
    funext t
    rw [core_setTask, same, Function.update_apply]
    split
    · rename_i mine
      rw [mine]
    · rfl
  simp only [Kernel.view, core]
  rfl

@[simp] theorem view_setStats {st : Stats} : (k.setStats task st).view = k.view :=
  view_setTask rfl

@[simp] theorem view_hang : k.hang.view = k.view := rfl

@[simp] theorem view_mm {mm : Mm} : { k with mm := mm }.view = k.view := rfl

@[simp] theorem view_text {message : String} : (k.text message).view = k.view := rfl

@[simp] theorem view_updateStats {e : Event} : (k.updateStats task e).view = k.view := by
  unfold Kernel.updateStats
  split
  · exact view_setStats
  · dsimp only
    split
    · rfl
    · change (Kernel.setStats { k with clockReads := k.clockReads + 1 } task _).view = _
      exact view_setStats

/-- Only a task that waits can be refreshed. -/
theorem stuck_updateStats {e : Event}
    (waits : e = .refresh → (k.tasks task).state = .ready ∨ (k.tasks task).state = .blocked) :
    (k.updateStats task e).stuck = k.stuck := by
  unfold Kernel.updateStats
  split
  · rfl
  · dsimp only
    rw [if_neg fun all => (waits all.1).elim all.2.1 all.2.2]
    rfl

theorem tasks_updateStats {e : Event} {other : TaskId} (different : other ≠ task) :
    (k.updateStats task e).tasks other = k.tasks other := by
  unfold Kernel.updateStats
  split
  · exact Function.update_of_ne different ..
  · dsimp only
    split
    · rfl
    · exact Function.update_of_ne different ..

@[simp] theorem view_updateEnteringSys : k.updateEnteringSys.view = k.view := view_updateStats

/-- The end of a handler gives user mode to the same task. -/
@[simp] theorem view_leave : k.leave.view = k.view := by
  unfold Kernel.leave
  split
  · rfl
  · rename_i notSwitching
    have user : k.mode = .user := by
      cases mode : k.mode with
      | user => rfl
      | switching => exact absurd mode notSwitching
    have same : { k.updateLeavingSys with mode := .user }.view = k.updateLeavingSys.view := by
      have mode : k.updateLeavingSys.mode = .user :=
        (congrArg View.mode (@view_updateStats k k.current .sysToUser)).trans user
      rw [← mode]
    rw [same]
    exact view_updateStats

@[simp] theorem view_pfRsi {address : DWord} : (k.pfRsi address).view = k.view := by
  unfold Kernel.pfRsi
  split
  · rfl
  · dsimp only
    split
    · exact view_mm
    · split
      · split
        · rfl
        · exact view_mm
      · rfl

@[simp] theorem view_withFault {addr : DWord} {allowed : Mm → Bool} :
    (k.withFault addr allowed).view = k.view := by
  unfold Kernel.withFault
  split
  · rfl
  · dsimp only
    split
    · exact view_pfRsi
    · exact view_pfRsi

@[simp] theorem view_storeWith {addr : DWord} {value : Byte} {allowed : Mm → Bool} :
    (k.storeWith addr value allowed).view = k.view := by
  unfold Kernel.storeWith
  dsimp only
  split
  · exact view_withFault
  · exact view_withFault

@[simp] theorem view_kernelStores {values : List Byte} : ∀ {k : Kernel} {addr : DWord},
    (k.kernelStores addr values).view = k.view := by
  induction values with
  | nil => exact fun {_ _} => rfl
  | cons value rest ih =>
      intro k addr
      rw [Kernel.kernelStores, ih]
      exact view_storeWith

/-! ### Lists of the family -/

theorem family_anchor {t : TaskId} : r.family (.anchor t) = none := rfl

theorem family_head (started : ∀ s, q = .waiters s → r.started s = true) :
    r.family q.head = some ((r.queue q).map .anchor) := by
  cases q with
  | waiters s => simp [Queue.head, Roster.family, started s rfl]
  | free => rfl
  | ready => rfl
  | readers => rfl

theorem head_injective (same : q.head = q'.head) : q = q' := by
  cases q <;> cases q' <;> simp [Queue.head] at same <;> first | rfl | rw [same]

theorem family_setQueue {members : List TaskId}
    (started : ∀ s, q = .waiters s → r.started s = true) :
    (r.setQueue q members).family =
      Function.update r.family q.head (some (members.map .anchor)) := by
  rw [Function.eq_update_iff]
  constructor
  · have stored : (r.setQueue q members).queue q = members := by simp [Roster.setQueue]
    rw [family_head (r := r.setQueue q members) started, stored]
  · intro node different
    have other : ∀ q', q'.head = node → (r.setQueue q members).queue q' = r.queue q' := by
      rintro q' rfl
      refine Function.update_of_ne ?_ _ _
      rintro rfl
      exact different rfl
    cases node with
    | freeQueue => exact congrArg (fun l => some (l.map Node.anchor)) (other .free rfl)
    | readyqueue => exact congrArg (fun l => some (l.map Node.anchor)) (other .ready rfl)
    | keyboardqueue => exact congrArg (fun l => some (l.map Node.anchor)) (other .readers rfl)
    | blocked s =>
        have same := other (.waiters s) rfl
        simp only [Roster.family, same]
        rfl
    | freeDirs => rfl
    | semaphores t => rfl
    | anchor t => rfl
    | semAnchor s => rfl
    | dirAnchor d => rfl

/-- What the lists have for members. -/
theorem family_member {head node : Node} {members : List Node}
    (stored : r.family head = some members) (inside : node ∈ members) :
    (∃ q t, head = q.head ∧ node = .anchor t ∧ t ∈ r.queue q) ∨
    (∃ d, head = .freeDirs ∧ node = .dirAnchor d ∧ d ∈ r.freeDirs) ∨
    ∃ t s, head = .semaphores t ∧ node = .semAnchor s ∧ s ∈ r.owned t := by
  have queued : ∀ q, head = q.head → members = (r.queue q).map .anchor →
      ∃ q t, head = q.head ∧ node = .anchor t ∧ t ∈ r.queue q := by
    intro q same listed
    rw [listed, List.mem_map] at inside
    obtain ⟨t, member, rfl⟩ := inside
    exact ⟨q, t, same, rfl, member⟩
  cases head <;> simp only [Roster.family, Option.some.injEq, reduceCtorEq] at stored
  case freeQueue => exact Or.inl (queued .free rfl stored.symm)
  case readyqueue => exact Or.inl (queued .ready rfl stored.symm)
  case keyboardqueue => exact Or.inl (queued .readers rfl stored.symm)
  case freeDirs =>
    rw [← stored, List.mem_map] at inside
    obtain ⟨d, member, rfl⟩ := inside
    exact Or.inr (Or.inl ⟨d, rfl, rfl, member⟩)
  case blocked s =>
    split at stored
    · exact Or.inl (queued (.waiters s) rfl (Option.some.inj stored).symm)
    · cases stored
  case semaphores t =>
    split at stored
    · cases stored
      rw [List.mem_map] at inside
      obtain ⟨s, member, rfl⟩ := inside
      exact Or.inr (Or.inr ⟨t, s, rfl, rfl, member⟩)
    · cases stored

/-- A task on no queue has loose anchors. -/
theorem loose_anchor (out : ¬ r.Queued task) : Loose r.family (.anchor task) := by
  refine ⟨rfl, fun head members stored inside => ?_⟩
  rcases family_member stored inside with ⟨q, t, _, same, member⟩ | ⟨d, _, same, _⟩ |
    ⟨t, s, _, same, _⟩
  · cases same
    exact out ⟨q, member⟩
  · cases same
  · cases same

/-- `update_process_state` sees by its links whether a task is on a list. -/
theorem linked_iff (ref : Refines k r)
    (started : ∀ s, task ∈ r.queue (.waiters s) → r.started s = true) :
    (k.links (.anchor task)).next ≠ none ∧ (k.links (.anchor task)).prev ≠ none ↔
      r.Queued task := by
  rw [ref.lists.linked_iff family_anchor]
  constructor
  · rintro ⟨head, members, stored, inside⟩
    by_contra out
    exact (loose_anchor out).2 head members stored inside
  · rintro ⟨q, inside⟩
    refine ⟨q.head, _, family_head ?_, List.mem_map.mpr ⟨task, inside, rfl⟩⟩
    rintro s rfl
    exact started s inside

/-! ### Moving a task -/

/-- The state of a task on the list `dest`, or on none. -/
def stateOn (dest : Option Node) : TaskState :=
  match dest with
  | none => .run
  | some dest =>
      if dest = .readyqueue then .ready else if dest = .freeQueue then .invalid else .blocked

/-- `update_process_state` relinks the anchor of the task and sets its state. -/
theorem updateProcessState_eq (k : Kernel) (task : TaskId) (dest : Option Node)
    (isFirst : Bool) : k.updateProcessState task dest isFirst =
      { k with links := relink k.links (.anchor task) dest isFirst }.setState task
        (stateOn dest) := by
  have unlinked : (if (k.links (.anchor task)).next ≠ none ∧ (k.links (.anchor task)).prev ≠ none then
      { k with links := listDel k.links (.anchor task) } else k) =
      { k with links := if (k.links (.anchor task)).next ≠ none ∧
        (k.links (.anchor task)).prev ≠ none then listDel k.links (.anchor task) else k.links } := by
    split
    · rfl
    · rfl
  unfold Kernel.updateProcessState relink
  dsimp only
  rw [unlinked]
  cases dest with
  | none => rfl
  | some dest =>
      cases isFirst
      · dsimp only [stateOn]
        split
        · rfl
        · split
          · rfl
          · rfl
      · dsimp only [stateOn]
        split
        · rfl
        · split
          · rfl
          · rfl

/-- Every queue that has members or is about to get one has its head initialised. -/
def Started (r : Roster) (q : Queue) : Prop := ∀ s, q = .waiters s → r.started s = true

theorem started_of_mem {allowed : TaskId → Prop} (owners : Roster.OwnerSound allowed r)
    (inside : task ∈ r.queue q) : Started r q := by
  rintro s rfl
  by_cases used : (r.sem s).used = true
  · exact owners.started s used
  · rw [Bool.not_eq_true] at used
    rw [owners.unused s used] at inside
    cases inside

theorem represents_take (ref : Refines k r) (started : Started r q) (inside : task ∈ r.queue q) :
    Represents (listDel k.links (.anchor task)) (r.take task q).family := by
  have taken := represents_listDel ref.lists (family_head started)
    (List.mem_map.mpr ⟨task, inside, rfl⟩)
  have members : ((r.queue q).map Node.anchor).erase (.anchor task) =
      ((r.queue q).erase task).map Node.anchor :=
    (List.map_erase (fun _ _ same => Node.anchor.inj same) _).symm
  rw [members] at taken
  rw [Roster.take, family_setQueue started]
  exact taken

/-- Putting a loose task at an end of a queue. -/
theorem represents_place {links : Heap Node} (lists : Represents links r.family)
    (started : Started r q) (out : ¬ r.Queued task) (first : Bool) :
    Represents (if first then listAdd links (.anchor task) q.head
      else listAddTail links (.anchor task) q.head) (r.place task q first).family := by
  have family : (r.place task q first).family =
      (r.setQueue q (if first then task :: r.queue q else r.queue q ++ [task])).family := rfl
  rw [family, family_setQueue started]
  cases first with
  | true =>
      simp only [↓reduceIte, List.map_cons]
      exact represents_listAdd lists (family_head started) (loose_anchor out)
  | false =>
      simp only [Bool.false_eq_true, ↓reduceIte, List.map_append, List.map_cons, List.map_nil]
      exact represents_listAddTail lists (family_head started) (loose_anchor out)

/-- Changing links and one task's state. -/
theorem Refines.state (ref : Refines k r) {links : Heap Node} {state : TaskState}
    {queue : Queue → List TaskId}
    (lists : Represents links ({ r with queue := queue } : Roster).family) :
    Refines ({ k with links := links }.setState task state)
      ({ r with queue := queue }.setState task state) where
  lists := lists
  core t := by
    rw [Kernel.setState, core_setTask]
    simp only [Roster.setState, Roster.setTask, Function.update_apply]
    split
    · rw [← ref.core task]
      rfl
    · exact ref.core t
  sems := ref.sems
  dirCount := ref.dirCount
  current := ref.current
  idle := ref.idle
  mode := ref.mode
  lastPid := ref.lastPid
  trace := ref.trace
  fromInside := ref.fromInside
  toInside := ref.toInside
  contents := ref.contents

/-- `update_process_state` of a task that is on no list. -/
theorem Refines.place (ref : Refines k r) (started : Started r q) (out : ¬ r.Queued task)
    (first : Bool) : Refines (k.updateProcessState task (some q.head) first)
      (r.place task q first) := by
  have unlinked : ¬ ((k.links (.anchor task)).next ≠ none ∧
      (k.links (.anchor task)).prev ≠ none) := by
    rw [linked_iff ref fun s inside => absurd ⟨_, inside⟩ out]
    exact out
  have placed := represents_place ref.lists started out first
  have shape : k.updateProcessState task (some q.head) first =
      { k with links := if first then listAdd k.links (.anchor task) q.head
          else listAddTail k.links (.anchor task) q.head }.setState task q.state := by
    unfold Kernel.updateProcessState
    rw [if_neg unlinked]
    cases first <;> cases q <;> rfl
  rw [shape]
  exact ref.state placed

/-- `update_process_state` of a task that is on a list. -/
theorem Refines.move (ref : Refines k r) (queues : r.QueueSound) {p : Queue} (from_ : Started r p)
    (inside : task ∈ r.queue p) (started : Started r q) (first : Bool) :
    Refines (k.updateProcessState task (some q.head) first)
      ((r.take task p).place task q first) := by
  have linked : (k.links (.anchor task)).next ≠ none ∧
      (k.links (.anchor task)).prev ≠ none := by
    rw [linked_iff ref]
    · exact ⟨p, inside⟩
    · intro s member
      exact from_ s (queues.apart inside member)
  have taken := represents_take ref from_ inside
  have out : ¬ (r.take task p).Queued task := by
    rw [Roster.queued_take queues inside]
    exact fun queued => queued.2 rfl
  have placed := represents_place taken started out first
  have shape : k.updateProcessState task (some q.head) first =
      { k with links := if first then
            listAdd (listDel k.links (.anchor task)) (.anchor task) q.head
          else listAddTail (listDel k.links (.anchor task)) (.anchor task) q.head }.setState
        task q.state := by
    unfold Kernel.updateProcessState
    rw [if_pos linked]
    cases first <;> cases q <;> rfl
  rw [shape]
  exact ref.state placed

end Zeos
