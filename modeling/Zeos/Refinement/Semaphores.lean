import Zeos.Refinement.Interrupts

set_option autoImplicit false

/-! The semaphore calls against the abstract scheduler. -/

namespace Zeos

open CircularList (Heap Represents Loose)

variable {k k' : Kernel} {r r' : Roster} {task : TaskId} {q q' : Queue} {sem : SemId}

/-! ### Semaphores -/

theorem Refines.setSem (ref : Refines k r) (sem : SemId) (value : Semaphore) :
    Refines (k.setSem sem value) { r with sem := Function.update r.sem sem value } :=
  ⟨ref.lists, ref.core, by rw [← ref.sems]; rfl, ref.dirCount,
    ref.current, ref.idle, ref.mode, ref.lastPid, ref.trace, ref.fromInside, ref.toInside,
    ref.contents⟩

/-- A semaphore that no task lists has a loose anchor. -/
theorem loose_semAnchor (unlisted : ∀ t, sem ∉ r.owned t) :
    Loose r.family (.semAnchor sem) := by
  refine ⟨rfl, fun head members stored inside => ?_⟩
  rcases family_member stored inside with ⟨q, t, _, same, _⟩ | ⟨d, _, same, _⟩ |
    ⟨t, s, _, same, member⟩
  · cases same
  · cases same
  · cases same
    exact unlisted t member

theorem loose_blocked (fresh : r.started sem = false) : Loose r.family (.blocked sem) := by
  refine ⟨by simp [Roster.family, fresh], fun head members stored inside => ?_⟩
  rcases family_member stored inside with ⟨q, t, _, same, _⟩ | ⟨d, _, same, _⟩ |
    ⟨t, s, _, same, _⟩ <;> cases same

/-- The list of the semaphores of a task. -/
theorem family_semaphores (born : r.born task = true) :
    r.family (.semaphores task) = some ((r.owned task).map .semAnchor) := by
  simp [Roster.family, born]

theorem family_setOwned {sems : List SemId} (born : r.born task = true) :
    ({ r with owned := Function.update r.owned task sems } : Roster).family =
      Function.update r.family (.semaphores task) (some (sems.map .semAnchor)) := by
  rw [Function.eq_update_iff]
  constructor
  · simp [Roster.family, born]
  · intro node different
    cases node with
    | semaphores t =>
        have other : t ≠ task := fun same => different (by rw [same])
        simp [Roster.family, Function.update_of_ne other]
    | _ => rfl

/-- The list of waiters of a semaphore, initialised. -/
def Roster.initWaiters (r : Roster) (sem : SemId) : Roster :=
  { r with started := Function.update r.started sem true
           queue := Function.update r.queue (.waiters sem) [] }

/-- The head of the waiters of an unused semaphore is initialised again. -/
theorem Refines.initWaiters (ref : Refines k r) (sound : Roster.Sound r)
    (unused : (r.sem sem).used = false) :
    Refines { k with links := initListHead k.links (.blocked sem) } (r.initWaiters sem) := by
  have empty := sound.owners.unused sem unused
  have family : (r.initWaiters sem).family =
      Function.update r.family (.blocked sem) (some []) := by
    rw [Function.eq_update_iff]
    constructor
    · simp [Roster.family, Roster.initWaiters]
    · intro node different
      cases node with
      | blocked s =>
          have other : s ≠ sem := fun same => different (by rw [same])
          simp [Roster.family, Roster.initWaiters, other]
      | freeQueue => simp [Roster.family, Roster.initWaiters]
      | readyqueue => simp [Roster.family, Roster.initWaiters]
      | keyboardqueue => simp [Roster.family, Roster.initWaiters]
      | freeDirs => rfl
      | anchor t => rfl
      | semAnchor s => rfl
      | semaphores t => rfl
      | dirAnchor d => rfl
  refine ⟨?_, ref.core, ref.sems, ref.dirCount, ref.current, ref.idle, ref.mode, ref.lastPid,
    ref.trace, ref.fromInside, ref.toInside, ref.contents⟩
  rw [family]
  apply represents_initListHead ref.lists
  by_cases started : r.started sem = true
  · right
    simp [Roster.family, started, empty]
  · left
    exact loose_blocked (by simpa using started)

theorem Refines.currentTask_pid (ref : Refines k r) :
    k.currentTask.pid = (r.task r.current).pid := by
  rw [← ref.core, Kernel.currentTask, ref.current]
  rfl

/-- `sys_sem_init` of an unused semaphore. -/
theorem Refines.semCreate (ref : Refines k r) (sound : Roster.Sound r)
    {nSem : Int} {value : DWord} (index : semAt nSem = some sem)
    (unused : (r.sem sem).used = false) :
    Refines (k.sysSemInit nSem value).1 (r.semCreate sem value) := by
  have born : r.born r.current = true :=
    sound.identity.born _ (Roster.live_of_running sound.running)
  have unlisted : ∀ t, sem ∉ r.owned t := by
    intro t member
    rw [sound.owners.listed, unused] at member
    exact absurd member.1 (by decide)
  have opened := ref.initWaiters sound unused
  have listed := represents_listAdd opened.lists (family_semaphores (r := r.initWaiters sem) born)
    (loose_semAnchor (r := r.initWaiters sem) unlisted)
  rw [← List.map_cons, ← family_setOwned (r := r.initWaiters sem) born] at listed
  have lists : Represents (listAdd (initListHead k.links (.blocked sem)) (.semAnchor sem)
      (.semaphores k.current)) (r.semCreate sem value).family := by
    rw [ref.current]
    exact listed
  unfold Kernel.sysSemInit
  rw [index]
  dsimp only
  rw [if_neg (by simp), ref.sems, unused, if_neg (by simp)]
  refine ⟨lists, ref.core, ?_, ref.dirCount, ref.current, ref.idle, ref.mode, ref.lastPid, ?_,
    ref.fromInside, ref.toInside, ref.contents⟩
  · change Function.update k.semaphores sem _ = Function.update r.sem sem _
    rw [ref.sems, ref.current]
  · change Note.semCreated sem k.currentTask.pid value :: k.trace = _
    rw [ref.currentTask_pid, ref.trace]
    rfl

theorem Refines.semCount (ref : Refines k r) (sem : SemId) (count : Int) :
    Refines (k.setSem sem { k.semaphores sem with count := count }) (r.semCount sem count) := by
  rw [ref.sems]
  exact ref.setSem sem { r.sem sem with count := count }

/-- No semaphore of that number. -/
theorem refuses_none {index : Option SemId} {P : SemId → Prop} (none : index = .none) :
    ∀ sem, index = some sem → P sem := by
  intro sem same
  rw [none] at same
  cases same

theorem refuses_some {index : Option SemId} {P : SemId → Prop} (found : index = some sem)
    (refused : P sem) : ∀ sem', index = some sem' → P sem' := by
  intro sem' same
  rw [found] at same
  cases same
  exact refused

theorem Refines.sysSemInit (ref : Refines k r) (sound : Roster.Sound r) (user : r.mode = .user)
    (busy : r.current ≠ r.idle) (nSem value : DWord) :
    ∃ r', Roster.Step k.seen r (some (.call (.semInit nSem value))) r' ∧
      Refines (k.sysSemInit nSem.toInt value).1 r' := by
  cases index : semAt nSem.toInt with
  | none =>
      refine ⟨r, .quiet _ user (refuses_none index), ?_⟩
      unfold Kernel.sysSemInit
      rw [index]
      exact ref
  | some sem =>
      by_cases used : (r.sem sem).used = true
      · refine ⟨r, .quiet _ user (refuses_some index used), ?_⟩
        unfold Kernel.sysSemInit
        rw [index]
        dsimp only
        rw [if_neg (by simp), ref.sems, if_pos used]
        exact ref
      · rw [Bool.not_eq_true] at used
        exact ⟨_, .semInit nSem value sem user busy index used,
          ref.semCreate sound index used⟩

/-- `sys_sem_wait` when no unit is left. -/
theorem Refines.semBlock (ref : Refines k r) (sound : Roster.Sound r)
    (busy : r.current ≠ r.idle) {nSem : Int} (index : semAt nSem = some sem)
    (used : (r.sem sem).used = true) (none : (r.sem sem).count = 0) :
    Refines (k.sysSemWait nSem).1 (r.semBlock sem) := by
  unfold Kernel.sysSemWait
  rw [index]
  dsimp only
  rw [ref.sems, used, if_neg (by decide), if_pos none]
  have noted := ref.note (.semBlocked sem k.current)
  have running : (r.note (.semBlocked sem r.current)).Running :=
    sound.running.congr rfl (fun _ => rfl) rfl rfl
  have queues : (r.note (.semBlocked sem r.current)).QueueSound :=
    sound.queues.congr rfl (fun _ => rfl) rfl
  have started : Started r (.waiters sem) := by
    rintro s same
    cases same
    exact sound.owners.started sem used
  rw [ref.current] at noted ⊢
  have placed := noted.place (q := .waiters sem) started running.out false
  refine Refines.schedNext (Refines.of_view placed ?_) (running.place queues busy).1 _
  rw [view_updateStats]
  change (Kernel.updateProcessStateRr _ k.current _).view = _
  rw [ref.current]
  rfl

theorem Refines.sysSemWait (ref : Refines k r) (sound : Roster.Sound r) (user : r.mode = .user)
    (busy : r.current ≠ r.idle) (nSem : DWord) :
    ∃ r', Roster.Step k.seen r (some (.call (.semWait nSem))) r' ∧
      Refines (k.sysSemWait nSem.toInt).1 r' := by
  cases index : semAt nSem.toInt with
  | none =>
      unfold Kernel.sysSemWait
      rw [index]
      exact ⟨r, .quiet _ user (refuses_none index), ref⟩
  | some sem =>
      by_cases used : (r.sem sem).used = true
      · by_cases none : (r.sem sem).count = 0
        · exact ⟨_, .semBlock nSem sem user busy index used none,
            ref.semBlock sound busy index used none⟩
        · refine ⟨_, .semTake nSem sem user busy index used none, ?_⟩
          unfold Kernel.sysSemWait
          rw [index]
          dsimp only
          rw [ref.sems, if_neg (by simp [used]), if_neg none, ← ref.sems]
          have taken := (ref.semCount sem ((k.semaphores sem).count - 1)).note
            (.semTaken sem k.current)
          rw [Roster.semTake, ← ref.sems, ← ref.current]
          exact taken.of_view rfl
      · unfold Kernel.sysSemWait
        rw [index]
        dsimp only
        rw [ref.sems, if_pos (by simpa using used)]
        exact ⟨r, .quiet _ user (refuses_some index (Bool.not_eq_true _ ▸ used)), ref⟩

theorem Refines.sysSemSignal (ref : Refines k r) (sound : Roster.Sound r) (user : r.mode = .user)
    (busy : r.current ≠ r.idle) (nSem : DWord) :
    ∃ r', Roster.Step k.seen r (some (.call (.semSignal nSem))) r' ∧
      Refines (k.sysSemSignal nSem.toInt).1 r' := by
  unfold Kernel.sysSemSignal
  cases index : semAt nSem.toInt with
  | none => exact ⟨r, .quiet _ user (refuses_none index), ref⟩
  | some sem =>
      dsimp only
      rw [ref.sems]
      split
      · rename_i unused
        exact ⟨r, .quiet _ user (refuses_some index (by simpa using unused)), ref⟩
      · rename_i notUnused
        have used : (r.sem sem).used = true := by simpa using notUnused
        have started : Started r (.waiters sem) := by
          rintro s same
          cases same
          exact sound.owners.started sem used
        have empty : listEmpty k.links (.blocked sem) = true ↔ r.queue (.waiters sem) = [] :=
          listEmpty_queue ref started
        split
        · rename_i none
          refine ⟨_, .semRaise nSem sem user busy index used (empty.mp none), ?_⟩
          rw [← ref.sems]
          have raised := (ref.semCount sem ((k.semaphores sem).count + 1)).note (.semRaised sem)
          rw [Roster.semRaise, ← ref.sems]
          exact raised.of_view rfl
        · rename_i some
          obtain ⟨task, rest, waiting⟩ := List.exists_cons_of_ne_nil (mt empty.mpr some)
          have head : Kernel.listHeadToTaskStruct (listFirst k.links (.blocked sem)) =
              Option.some task := first_queue ref started waiting
          rw [head]
          refine ⟨_, .semGrant nSem sem task rest user busy index used waiting, ?_⟩
          have moved := ref.move (q := .ready) sound.queues started
            (show task ∈ r.queue (.waiters sem) by simp [waiting]) (by simp [Started]) false
          exact (Refines.of_view moved view_addProcess).note _

/-! ### Destruction -/

/-- The rule for `list_for_each_safe` when every round takes the first member off
the list: `inv` may speak of the members left. -/
theorem listForEachSafe_rule {head : Node} {body : Node → Kernel → Kernel}
    {inv : List Node → Kernel → Prop}
    (ring : ∀ members k, inv members k → CircularList.Ring k.links head members)
    (round : ∀ node rest k, inv (node :: rest) k → inv rest (body node k)) :
    ∀ (members : List Node) (fuel : Nat) (k : Kernel), inv members k → members.length < fuel →
      inv [] (Kernel.listForEachSafe head body fuel (some (members.headD head))
        (nextOf k.links (some (members.headD head))) k) := by
  intro members
  induction members with
  | nil =>
      intro fuel k holds enough
      cases fuel with
      | zero => cases enough
      | succ fuel =>
          rw [Kernel.listForEachSafe, List.headD_nil, if_pos rfl]
          exact holds
  | cons node rest ih =>
      intro fuel k holds enough
      cases fuel with
      | zero => cases enough
      | succ fuel =>
          have distinct := (ring _ _ holds).nodup
          have different : node ≠ head := by
            rintro rfl
            simp at distinct
          have next : nextOf k.links (some node) = some (rest.headD head) :=
            (ring _ _ holds).next_first
          have after := round node rest k holds
          rw [Kernel.listForEachSafe, List.headD_cons, next,
            if_neg (by simpa using different)]
          exact ih fuel _ after (by simpa using enough)

theorem forEachSafe_rule {head : Node} {body : Node → Kernel → Kernel}
    {inv : List Node → Kernel → Prop} {members : List Node} {k : Kernel}
    (ring : ∀ members k, inv members k → CircularList.Ring k.links head members)
    (round : ∀ node rest k, inv (node :: rest) k → inv rest (body node k))
    (holds : inv members k) (short : members.length < Kernel.nodeCount) :
    inv [] (k.forEachSafe head body) := by
  have first : listFirst k.links head = some (members.headD head) :=
    (ring _ _ holds).next_head
  unfold Kernel.forEachSafe
  dsimp only
  rw [first]
  exact listForEachSafe_rule ring round members _ k holds short

theorem nodup_short {n : Nat} {members : List (Fin n)} (distinct : members.Nodup) :
    members.length ≤ n := by
  simpa using distinct.length_le_card

/-- A loop over a list refines the fold over what the list stands for, when each round does what
`act` does to the first of them. -/
theorem forEachSafe_fold {n : Nat} {head : Node} {body : Node → Kernel → Kernel}
    {node : Fin n → Node} {items : Roster → List (Fin n)} {act : Roster → Fin n → Roster}
    {inv : Kernel → Roster → Prop}
    (ring : ∀ k r, inv k r → CircularList.Ring k.links head ((items r).map node))
    (round : ∀ k r first others, inv k r → items r = first :: others →
      inv (body (node first) k) (act r first) ∧ items (act r first) = others)
    (holds : inv k r) (distinct : (items r).Nodup) (small : n < Kernel.nodeCount) :
    inv (k.forEachSafe head body) ((items r).foldl act r) := by
  have rule := @forEachSafe_rule head body
    (fun members k' => ∃ r', inv k' r' ∧ members = (items r').map node ∧
      (items r').foldl act r' = (items r).foldl act r)
    ((items r).map node) k ?_ ?_ ⟨r, holds, rfl, rfl⟩ ?_
  · obtain ⟨r', holds', none, same⟩ := rule
    rw [eq_comm, List.map_eq_nil_iff] at none
    rw [none, List.foldl_nil] at same
    rw [← same]
    exact holds'
  · rintro members k' ⟨r', holds', rfl, _⟩
    exact ring k' r' holds'
  · rintro place rest k' ⟨r', holds', shape, same⟩
    cases listed : items r' with
    | nil => simp [listed] at shape
    | cons first others =>
        rw [listed, List.map_cons, List.cons.injEq] at shape
        obtain ⟨rfl, rfl⟩ := shape
        obtain ⟨after, left⟩ := round k' r' first others holds' listed
        refine ⟨act r' first, after, ?_, ?_⟩
        · rw [left]
        · rw [left, ← same, listed, List.foldl_cons]
  · rw [List.length_map]
    exact Nat.lt_of_le_of_lt (nodup_short distinct) small

/-- The state of one task's core changes. -/
theorem Refines.setTask (ref : Refines k r) (task : TaskId) (struct : TaskStruct) :
    Refines (k.setTask task struct) (r.setTask task struct.core) where
  lists := ref.lists
  core t := by
    rw [core_setTask]
    simp only [Roster.setTask, Function.update_apply, ref.core]
  sems := ref.sems
  dirCount := ref.dirCount
  current := ref.current
  idle := ref.idle
  mode := ref.mode
  lastPid := ref.lastPid
  trace := ref.trace
  fromInside := ref.fromInside
  toInside := ref.toInside
  contents := ref.contents

/-- One round of the loop of `sys_sem_destroy`. -/
theorem Refines.abort (ref : Refines k r) (queues : r.QueueSound)
    (started : Started r (.waiters sem)) (inside : task ∈ r.queue (.waiters sem)) :
    Refines (Kernel.abortWaiter sem (.anchor task) k) (Roster.abort sem r task) := by
  have moved : Refines (k.addProcessToScheduling task .blockedToReady false)
      ((r.take task (.waiters sem)).place task .ready false) :=
    Refines.of_view (ref.move (q := .ready) queues started inside (by simp [Started]) false)
      view_addProcess
  have core := moved.core task
  have set := moved.setTask task
    { (k.addProcessToScheduling task .blockedToReady false).tasks task with semDeleted := true }
  have same : ({ (k.addProcessToScheduling task .blockedToReady false).tasks task with
      semDeleted := true } : TaskStruct).core =
      { ((r.take task (.waiters sem)).place task .ready false).task task with aborted := true } := by
    rw [← core]
    rfl
  rw [same] at set
  exact set.note _

/-- `sys_sem_destroy` after its checks, before the loop. -/
def Kernel.unusedSem (k : Kernel) (sem : SemId) : Kernel :=
  ({ (k.setSem sem { k.semaphores sem with used := false }) with
    links := listDel k.links (.semAnchor sem) }).note (.semDestroyed sem)

/-- What the destruction of semaphores keeps. -/
structure Outlasts (inv : Kernel → Prop) : Prop where
  relinked : ∀ {k : Kernel} (links : Heap Node), inv k → inv { k with links := links }
  unused : ∀ {k : Kernel} (sem : SemId), inv k → inv (k.unusedSem sem)
  abort : ∀ {k : Kernel} {r : Roster} {sem : SemId} {task : TaskId}, Refines k r →
    r.QueueSound → task ∈ r.queue (.waiters sem) → inv k →
    inv (Kernel.abortWaiter sem (.anchor task) k)

/-- Nothing in particular. -/
theorem outlasts_true : Outlasts fun _ => True := 
  ⟨fun _ _ => trivial, fun _ _ => trivial, fun _ _ _ _ => trivial⟩

/-- The waiters are aborted in the order of the queue. -/
theorem Refines.abortAll (ref : Refines k r) (queues : r.QueueSound)
    (started : Started r (.waiters sem)) {inv : Kernel → Prop} (kept : Outlasts inv)
    (holds : inv k) :
    Refines (k.forEachSafe (.blocked sem) (Kernel.abortWaiter sem))
      ((r.queue (.waiters sem)).foldl (Roster.abort sem) r) ∧
    inv (k.forEachSafe (.blocked sem) (Kernel.abortWaiter sem)) := by
  have loop := @forEachSafe_fold k r nrTasks (.blocked sem) (Kernel.abortWaiter sem) .anchor
    (fun r' => r'.queue (.waiters sem)) (Roster.abort sem)
    (fun k' r' => Refines k' r' ∧ r'.QueueSound ∧ Started r' (.waiters sem) ∧ inv k') ?_ ?_
    ⟨ref, queues, started, holds⟩ (queues.nodup (.waiters sem)) (by decide)
  · exact ⟨loop.1, loop.2.2.2⟩
  · rintro k' r' ⟨ref', _, started', _⟩
    exact ref'.lists.ring (family_head started')
  · rintro k' r' first others ⟨ref', queues', started', holds'⟩ waiting
    have inside : first ∈ r'.queue (.waiters sem) := by simp [waiting]
    have moved := @Roster.move_sound _ _ _ .ready false queues' inside
    refine ⟨⟨ref'.abort queues' started' inside, moved.congr rfl ?_ rfl, started',
      kept.abort ref' queues' inside holds'⟩, ?_⟩
    · intro t
      simp only [Roster.abort, Roster.note, Roster.setTask, Function.update_apply]
      split
      · rename_i mine
        rw [mine]
      · rfl
    · simp [Roster.abort, Roster.note, Roster.place, Roster.take, Roster.setState,
        Roster.setTask, Roster.setQueue, waiting]

/-- The body of `sys_sem_destroy` after its checks. -/
theorem Refines.destroy (ref : Refines k r) {allowed : TaskId → Prop} {owner : TaskId}
    (queues : r.QueueSound) (owners : Roster.OwnerSound allowed r) (born : r.born owner = true)
    (member : sem ∈ r.owned owner) {inv : Kernel → Prop} (kept : Outlasts inv) (holds : inv k) :
    Refines ((k.unusedSem sem).forEachSafe (.blocked sem) (Kernel.abortWaiter sem))
      (Roster.semDestroy owner r sem) ∧
    inv ((k.unusedSem sem).forEachSafe (.blocked sem) (Kernel.abortWaiter sem)) := by
  have used := ((owners.listed sem owner).mp member).1
  have removed := represents_listDel ref.lists (family_semaphores born)
    (List.mem_map.mpr ⟨sem, member, rfl⟩)
  have erased : ((r.owned owner).map Node.semAnchor).erase (.semAnchor sem) =
      ((r.owned owner).erase sem).map .semAnchor :=
    (List.map_erase (fun _ _ same => Node.semAnchor.inj same) _).symm
  rw [erased, ← family_setOwned born] at removed
  have started : r.started sem = true := owners.started sem used
  have unlinked : Refines { (k.setSem sem { k.semaphores sem with used := false }) with
      links := listDel k.links (.semAnchor sem) }
      { r with
        sem := Function.update r.sem sem { r.sem sem with used := false }
        owned := Function.update r.owned owner ((r.owned owner).erase sem) } := by
    refine ⟨removed, ref.core, ?_, ref.dirCount, ref.current, ref.idle, ref.mode,
      ref.lastPid, ref.trace, ref.fromInside, ref.toInside, ref.contents⟩
    change Function.update k.semaphores sem _ = Function.update r.sem sem _
    rw [ref.sems]
  refine (unlinked.note (.semDestroyed sem)).abortAll (queues.congr rfl (fun _ => rfl) rfl) ?_
    kept (kept.unused sem holds)
  rintro s same
  cases same
  exact started

theorem semAt_val (sem : SemId) : semAt (sem.val : Int) = some sem := by
  have below := sem.isLt
  rw [semAt, dif_pos ⟨by omega, by exact_mod_cast below⟩]
  rfl

/-- `sys_sem_destroy` by the owner. -/
theorem Refines.destroyOwn (ref : Refines k r) {allowed : TaskId → Prop}
    (queues : r.QueueSound) (owners : Roster.OwnerSound allowed r)
    (born : r.born r.current = true) (member : sem ∈ r.owned r.current) {nSem : Int}
    (index : semAt nSem = some sem) {inv : Kernel → Prop} (kept : Outlasts inv) (holds : inv k) :
    Refines (k.sysSemDestroy nSem).1 (Roster.semDestroy r.current r sem) ∧
    inv (k.sysSemDestroy nSem).1 := by
  obtain ⟨used, owner⟩ := (owners.listed sem r.current).mp member
  have pid : k.ownerPid sem = some k.currentTask.pid := by
    rw [Kernel.ownerPid, ref.sems, owner, Kernel.currentTask, ref.current]
    rfl
  unfold Kernel.sysSemDestroy
  rw [index]
  dsimp only
  rw [if_neg (by rw [ref.sems, used]; decide), if_neg (by rw [pid]; simp)]
  exact ref.destroy queues owners born member kept holds

theorem Refines.sysSemDestroy (ref : Refines k r) (sound : Roster.Sound r) (user : r.mode = .user)
    (busy : r.current ≠ r.idle) (nSem : DWord) :
    ∃ r', Roster.Step k.seen r (some (.call (.semDestroy nSem))) r' ∧
      Refines (k.sysSemDestroy nSem.toInt).1 r' := by
  unfold Kernel.sysSemDestroy
  cases index : semAt nSem.toInt with
  | none =>
      refine ⟨r, .quiet _ user fun sem owner same => ?_, ref⟩
      rw [index] at same
      cases same
  | some sem =>
      dsimp only
      split
      · rename_i unused
        refine ⟨r, .quiet _ user fun sem' owner same used => ?_, ref⟩
        rw [index] at same
        cases same
        simp [ref.sems, used] at unused
      · rename_i notUnused
        have used : (r.sem sem).used = true := by simpa [ref.sems] using notUnused
        split
        · rename_i otherPid
          refine ⟨r, .quiet _ user fun sem' owner same _ owned pid => ?_, ref⟩
          rw [index] at same
          cases same
          rw [Kernel.ownerPid, ref.sems, owned, Option.map_some, ref.currentTask_pid, ← pid,
            ← ref.core] at otherPid
          exact otherPid rfl
        · rename_i samePid
          obtain ⟨owner, owned, fine, _⟩ := sound.owners.owner sem used
          rw [Kernel.ownerPid, ref.sems, owned, Option.map_some, not_not, Option.some.injEq,
            ref.currentTask_pid] at samePid
          have pid : (r.task owner).pid = (r.task r.current).pid := by
            rw [samePid, ← ref.core]
            rfl
          refine ⟨_, .semDestroy nSem sem owner user busy index used owned pid, ?_⟩
          exact (ref.destroy sound.queues sound.owners (sound.identity.born owner fine.1)
            ((sound.owners.listed sem owner).mpr ⟨used, owned⟩) outlasts_true trivial).1

end Zeos
