import Zeos.Boot

set_option autoImplicit false

/-! The pointer lists are sequences, and the loops that unlink the node they stand on
visit every node once. -/

namespace Zeos

open CircularList (Heap Represents Loose Ring)

universe u

/-! ### Sequences -/

section

variable {α : Type u} [DecidableEq α] {links : Heap α} {family : α → Option (List α)}

/-- The operations on a heap of links, as operations on the family of sequences it
represents. -/
structure ListsAsSequences (links : Heap α) (family : α → Option (List α)) : Prop where
  add : ∀ {head node members}, family head = some members → Loose family node →
    Represents (listAdd links node head) (Function.update family head (some (node :: members)))
  addTail : ∀ {head node members}, family head = some members → Loose family node →
    Represents (listAddTail links node head)
      (Function.update family head (some (members ++ [node])))
  del : ∀ {head node members}, family head = some members → node ∈ members →
    Represents (listDel links node) (Function.update family head (some (members.erase node))) ∧
      Loose (Function.update family head (some (members.erase node))) node ∧
      listDel links node node = ⟨none, none⟩
  empty : ∀ {head members}, family head = some members →
    (listEmpty links head = true ↔ members = [])
  first : ∀ {head first rest}, family head = some (first :: rest) →
    listFirst links head = some first
  move : ∀ {node dest members} (isFirst : Bool), family node = none →
    family dest = some members →
    Represents (relink links node (some dest) isFirst) (moved family node dest isFirst)
  leave : ∀ {node}, family node = none →
    Represents (relink links node none false) (without family node)

theorem updateProcessState_links (k : Kernel) (task : TaskId) (dest : Option Node)
    (isFirst : Bool) : (k.updateProcessState task dest isFirst).links =
      relink k.links (.anchor task) dest isFirst := by
  rw [updateProcessState_eq]
  rfl

/-- The lists implement sequences: each operation on a heap that represents a family of
disjoint lists gives a heap that represents the changed family. -/
theorem lists_implement_sequences (rep : Represents links family) :
    ListsAsSequences links family ∧
    ∀ (k : Kernel) (task : TaskId) (dest : Option Node) (isFirst : Bool),
      (k.updateProcessState task dest isFirst).links =
        relink k.links (.anchor task) dest isFirst := by
  refine ⟨?_, updateProcessState_links⟩
  constructor
  · exact represents_listAdd rep
  · exact represents_listAddTail rep
  · intro head node members stored inside
    have removed := represents_listDel rep stored inside
    have plain : family node = none := rep.plain stored inside
    have loose : Loose (Function.update family head (some (members.erase node))) node := by
      rw [← without_member rep stored inside]
      exact loose_without rep plain
    exact ⟨removed, loose, removed.detached loose⟩
  · exact listEmpty_iff rep
  · exact listFirst_cons rep
  · intro node dest members isFirst plain stored
    exact represents_relink rep plain stored isFirst
  · exact represents_detach rep

/-- The lists of a machine that has just booted. -/
theorem lists_implement_sequences_boot :
    ListsAsSequences (Kernel.boot Image.empty).links Roster.boot.family :=
  (lists_implement_sequences boot_lists).1

end

/-! ### The loop of `sys_sem_destroy` -/

variable {k k' : Kernel} {family : Node → Option (List Node)} {sem : SemId} {task : TaskId}
  {ready waiters done rest : List TaskId}

/-- The waiters `done` have been visited, in this order, and `rest` have not. -/
structure Aborting (k k' : Kernel) (sem : SemId) (family : Node → Option (List Node))
    (ready done rest : List TaskId) : Prop where
  lists : Represents k'.links
    (Function.update (Function.update family (.blocked sem) (some (rest.map .anchor))) .readyqueue
      (some ((ready ++ done).map .anchor)))
  visits : k'.trace = (done.map (Note.semAborted sem)).reverse ++ k.trace
  flags : ∀ t, (k'.tasks t).semDeleted = (decide (t ∈ done) || (k.tasks t).semDeleted)
  returns : k'.stuck = k.stuck
  semaphores : k'.semaphores = k.semaphores
  current : k'.current = k.current
  pids : ∀ t, (k'.tasks t).pid = (k.tasks t).pid

/-- The state in which the body of the loop sets the flag. -/
theorem addProcess_view : (k.addProcessToScheduling task .blockedToReady false).view =
    ({ k with links := relink k.links (.anchor task) (some .readyqueue) false }.setState task
      .ready).view := by
  rw [view_addProcess, updateProcessState_eq]
  rfl

theorem abortWaiter_links : (Kernel.abortWaiter sem (.anchor task) k).links =
    relink k.links (.anchor task) (some .readyqueue) false :=
  congrArg View.links (@addProcess_view k task)

theorem abortWaiter_trace : (Kernel.abortWaiter sem (.anchor task) k).trace =
    .semAborted sem task :: k.trace :=
  congrArg (List.cons (Note.semAborted sem task)) (congrArg View.trace (@addProcess_view k task))

theorem abortWaiter_pid {t : TaskId} :
    ((Kernel.abortWaiter sem (.anchor task) k).tasks t).pid = (k.tasks t).pid := by
  have core := congrArg TaskCore.pid (core_of_view (@addProcess_view k task) t)
  have kept : ((Kernel.abortWaiter sem (.anchor task) k).tasks t).pid =
      ((k.addProcessToScheduling task .blockedToReady false).tasks t).pid := by
    show (Function.update (k.addProcessToScheduling task .blockedToReady false).tasks task _ t).pid = _
    rw [Function.update_apply]
    split
    · rename_i same
      rw [same]
    · rfl
  rw [kept]
  apply core.trans
  show (Function.update k.tasks task _ t).pid = _
  rw [Function.update_apply]
  split
  · rename_i same
    rw [same]
  · rfl

theorem abortWaiter_flag {t : TaskId} :
    ((Kernel.abortWaiter sem (.anchor task) k).tasks t).semDeleted =
      (decide (t = task) || (k.tasks t).semDeleted) := by
  have core := congrArg TaskCore.aborted (core_of_view (@addProcess_view k task) t)
  show (Function.update (k.addProcessToScheduling task .blockedToReady false).tasks task _
    t).semDeleted = _
  rw [Function.update_apply]
  by_cases same : t = task
  · rw [if_pos same, decide_eq_true same, Bool.true_or]
  · rw [if_neg same, decide_eq_false same, Bool.false_or]
    apply core.trans
    show (Function.update k.tasks task _ t).semDeleted = _
    rw [Function.update_of_ne same]

theorem abortWaiter_stuck : (Kernel.abortWaiter sem (.anchor task) k).stuck = k.stuck := by
  have stats := @stuck_updateStats (k.updateProcessState task (some .readyqueue) false) task
    .blockedToReady nofun
  have placed : (k.updateProcessState task (some .readyqueue) false).stuck = k.stuck := by
    rw [updateProcessState_eq]
    rfl
  exact stats.trans placed

/-- One round of the loop. -/
theorem Aborting.round
    (aborting : Aborting k k' sem family ready done (task :: rest)) :
    Aborting k (Kernel.abortWaiter sem (.anchor task) k') sem family ready (done ++ [task])
      rest := by
  have view := @addProcess_view k' task
  constructor
  · have rep := aborting.lists
    have apart : Node.blocked sem ≠ .readyqueue := nofun
    have here : Function.update (Function.update family (.blocked sem)
        (some ((task :: rest).map .anchor))) .readyqueue (some ((ready ++ done).map .anchor))
        (.blocked sem) = some ((task :: rest).map .anchor) := by
      rw [Function.update_of_ne apart, Function.update_self]
    have inside : Node.anchor task ∈ (task :: rest).map Node.anchor := by simp
    have relinked := represents_relink rep (rep.plain here inside) (Function.update_self ..) false
    rw [abortWaiter_links]
    rw [moved, without_member rep here inside] at relinked
    rw [List.map_cons, List.erase_cons_head, Function.update_of_ne apart.symm,
      Function.update_self, Option.map_some] at relinked
    have same : Function.update (Function.update (Function.update (Function.update family
        (.blocked sem) (some ((task :: rest).map .anchor))) .readyqueue
        (some ((ready ++ done).map .anchor))) (.blocked sem) (some (rest.map .anchor)))
        .readyqueue (some ((ready ++ done).map .anchor ++ [.anchor task])) =
        Function.update (Function.update family (.blocked sem) (some (rest.map .anchor)))
          .readyqueue (some ((ready ++ (done ++ [task])).map .anchor)) := by
      have longer : (ready ++ (done ++ [task])).map Node.anchor =
          (ready ++ done).map .anchor ++ [.anchor task] := by
        rw [← List.append_assoc, List.map_append]
        rfl
      rw [Function.update_comm apart.symm, Function.update_idem, Function.update_idem, longer]
    rw [← same]
    exact relinked
  · rw [abortWaiter_trace, aborting.visits, List.map_append, List.reverse_append]
    rfl
  · intro t
    rw [abortWaiter_flag, aborting.flags, ← Bool.or_assoc]
    simp only [List.mem_append, List.mem_singleton, Bool.decide_or, Bool.or_comm]
  · rw [abortWaiter_stuck, aborting.returns]
  · exact (congrArg View.semaphores view).trans aborting.semaphores
  · exact (congrArg View.current view).trans aborting.current
  · intro t
    rw [abortWaiter_pid, aborting.pids]

/-- The loop of `sys_sem_destroy`, on any list of waiters. -/
theorem aborting_all (rep : Represents k.links family)
    (queue : family .readyqueue = some (ready.map .anchor))
    (blocked : family (.blocked sem) = some (waiters.map .anchor)) :
    Aborting k (k.forEachSafe (.blocked sem) (Kernel.abortWaiter sem)) sem family ready waiters
      [] := by
  have apart : Node.blocked sem ≠ .readyqueue := nofun
  have start : Aborting k k sem family ready [] waiters := by
    refine ⟨?_, rfl, fun t => rfl, rfl, rfl, rfl, fun t => rfl⟩
    rw [List.append_nil, ← blocked, ← queue, Function.update_eq_self, Function.update_eq_self]
    exact rep
  have distinct : waiters.Nodup := (List.nodup_cons.mp (rep.ring blocked).nodup).2.of_map _
  have rule := @forEachSafe_rule (.blocked sem) (Kernel.abortWaiter sem)
    (fun members k' => ∃ done rest, waiters = done ++ rest ∧ members = rest.map .anchor ∧
      Aborting k k' sem family ready done rest) (waiters.map .anchor) k ?_ ?_
    ⟨[], waiters, rfl, rfl, start⟩ ?_
  · obtain ⟨done, rest, whole, none, aborting⟩ := rule
    rw [eq_comm, List.map_eq_nil_iff] at none
    rw [none, List.append_nil] at whole
    rw [whole]
    rw [none] at aborting
    exact aborting
  · intro members k' holds
    obtain ⟨done, rest, _, shape, aborting⟩ := holds
    apply aborting.lists.ring
    rw [Function.update_of_ne apart, Function.update_self, shape]
  · intro node others k' holds
    obtain ⟨done, rest, whole, shape, aborting⟩ := holds
    cases rest with
    | nil => cases shape
    | cons task rest =>
        rw [List.map_cons, List.cons.injEq] at shape
        obtain ⟨rfl, rfl⟩ := shape
        refine ⟨done ++ [task], rest, ?_, rfl, aborting.round⟩
        rw [whole, List.append_assoc]
        rfl
  · have short := nodup_short distinct
    rw [List.length_map]
    exact Nat.lt_of_le_of_lt short (by decide)

/-! ### The loop of `free_semaphores` -/

variable {owned gone left : List SemId} {waiting : SemId → List TaskId} {owner : TaskId}

/-- The family once the semaphores `gone` of `owner` are destroyed, and `left` are not. -/
def destroyedFamily (family : Node → Option (List Node)) (owner : TaskId) (ready : List TaskId)
    (waiting : SemId → List TaskId) (gone left : List SemId) : Node → Option (List Node)
  | .semaphores t => if t = owner then some (left.map .semAnchor) else family (.semaphores t)
  | .blocked s => if s ∈ gone then some [] else family (.blocked s)
  | .readyqueue => some ((ready ++ gone.flatMap waiting).map .anchor)
  | node => family node

/-- What a destroyed semaphore leaves in the history. -/
def destroyNotes (waiting : SemId → List TaskId) (sem : SemId) : List Note :=
  .semDestroyed sem :: (waiting sem).map (.semAborted sem)

/-- The semaphores `gone` have been destroyed, in this order, and `left` have not. -/
structure Destroying (k k' : Kernel) (owner : TaskId) (family : Node → Option (List Node))
    (ready : List TaskId) (waiting : SemId → List TaskId) (gone left : List SemId) : Prop where
  lists : Represents k'.links (destroyedFamily family owner ready waiting gone left)
  visits : k'.trace = (gone.flatMap (destroyNotes waiting)).reverse ++ k.trace
  semaphores : ∀ s, k'.semaphores s =
    if s ∈ gone then { k.semaphores s with used := false } else k.semaphores s
  flags : ∀ t, (k'.tasks t).semDeleted =
    (decide (t ∈ gone.flatMap waiting) || (k.tasks t).semDeleted)
  returns : k'.stuck = k.stuck
  current : k'.current = k.current
  pids : ∀ t, (k'.tasks t).pid = (k.tasks t).pid

/-- The state in which the loop of `sys_sem_destroy` starts. -/
structure Unlinked (k k₁ : Kernel) (sem : SemId) : Prop where
  links : k₁.links = listDel k.links (.semAnchor sem)
  trace : k₁.trace = .semDestroyed sem :: k.trace
  semaphores : ∀ s, k₁.semaphores s =
    if s = sem then { k.semaphores s with used := false } else k.semaphores s
  tasks : k₁.tasks = k.tasks
  current : k₁.current = k.current
  stuck : k₁.stuck = k.stuck

/-- The body of the loop of `free_semaphores`, when the checks of `sys_sem_destroy` pass. -/
theorem destroyOwned_eq (used : (k.semaphores sem).used = true)
    (mine : k.ownerPid sem = some k.currentTask.pid) : ∃ k₁, Unlinked k k₁ sem ∧
      Kernel.destroyOwned (.semAnchor sem) k =
        k₁.forEachSafe (.blocked sem) (Kernel.abortWaiter sem) := by
  refine ⟨({ (k.setSem sem { k.semaphores sem with used := false }) with
    links := listDel k.links (.semAnchor sem) }).note (.semDestroyed sem), ?_, ?_⟩
  · refine ⟨rfl, rfl, fun s => ?_, rfl, rfl, rfl⟩
    show Function.update k.semaphores sem { k.semaphores sem with used := false } s = _
    rw [Function.update_apply]
    split
    · rename_i same
      rw [same]
    · rfl
  · show (k.sysSemDestroy sem.val).1 = _
    unfold Kernel.sysSemDestroy
    rw [semAt_val]
    dsimp only
    rw [used, if_neg (by decide), if_neg (by rw [mine]; exact not_not_intro rfl)]
    rfl

/-- One semaphore is destroyed. -/
theorem Destroying.round (blocked : family (.blocked sem) = some ((waiting sem).map .anchor))
    (fresh : sem ∉ gone) (used : (k.semaphores sem).used = true)
    (mine : k.ownerPid sem = some k.currentTask.pid)
    (destroying : Destroying k k' owner family ready waiting gone (sem :: left)) :
    Destroying k (Kernel.destroyOwned (.semAnchor sem) k') owner family ready waiting
      (gone ++ [sem]) left := by
  have here := destroying.semaphores sem
  rw [if_neg fresh] at here
  have held : (k'.semaphores sem).used = true := by rw [here, used]
  have allowed : k'.ownerPid sem = some k'.currentTask.pid := by
    have own : k'.ownerPid sem = k.ownerPid sem := by
      unfold Kernel.ownerPid
      rw [here]
      cases (k.semaphores sem).owner with
      | none => rfl
      | some t => exact congrArg some (destroying.pids t)
    rw [own, mine, Kernel.currentTask, Kernel.currentTask, destroying.current, destroying.pids]
  obtain ⟨k₁, unlinked, shape⟩ := destroyOwned_eq held allowed
  have listed : destroyedFamily family owner ready waiting gone (sem :: left) (.semaphores owner) =
      some ((sem :: left).map .semAnchor) := if_pos rfl
  have inside : Node.semAnchor sem ∈ (sem :: left).map Node.semAnchor := by simp
  have lists := represents_listDel destroying.lists listed inside
  rw [List.map_cons, List.erase_cons_head, ← unlinked.links] at lists
  have apartReady : Node.readyqueue ≠ .semaphores owner := by simp
  have apartBlocked : ∀ s, Node.blocked s ≠ .semaphores owner := by simp
  have queue : Function.update (destroyedFamily family owner ready waiting gone (sem :: left))
      (.semaphores owner) (some (left.map .semAnchor)) .readyqueue =
      some ((ready ++ gone.flatMap waiting).map .anchor) := by
    rw [Function.update_of_ne apartReady]
    rfl
  have waiters : Function.update (destroyedFamily family owner ready waiting gone (sem :: left))
      (.semaphores owner) (some (left.map .semAnchor)) (.blocked sem) =
      some ((waiting sem).map .anchor) := by
    rw [Function.update_of_ne (apartBlocked sem)]
    exact (if_neg fresh).trans blocked
  have aborted := aborting_all lists queue waiters
  rw [shape]
  generalize k₁.forEachSafe (.blocked sem) (Kernel.abortWaiter sem) = k₂ at aborted ⊢
  have grown : ∀ {β : Type} (f : SemId → List β),
      (gone ++ [sem]).flatMap f = gone.flatMap f ++ f sem := by
    intro β f
    rw [List.flatMap_append, List.flatMap_singleton]
  constructor
  · have same : Function.update (Function.update (Function.update
        (destroyedFamily family owner ready waiting gone (sem :: left)) (.semaphores owner)
        (some (left.map .semAnchor))) (.blocked sem) (some (([] : List TaskId).map .anchor)))
        .readyqueue (some ((ready ++ gone.flatMap waiting ++ waiting sem).map .anchor)) =
        destroyedFamily family owner ready waiting (gone ++ [sem]) left := by
      funext node
      cases node with
      | readyqueue =>
          rw [Function.update_self, List.append_assoc, ← grown]
          rfl
      | blocked s =>
          have onward : Node.blocked s ≠ .readyqueue := by simp
          rw [Function.update_of_ne onward]
          by_cases same : s = sem
          · rw [same, Function.update_self]
            exact (if_pos (by simp)).symm
          · have other : Node.blocked s ≠ .blocked sem := fun eq => same (Node.blocked.inj eq)
            rw [Function.update_of_ne other, Function.update_of_ne (apartBlocked s)]
            apply if_congr _ rfl rfl
            rw [List.mem_append, List.mem_singleton, or_iff_left same]
      | semaphores t =>
          have onward : Node.semaphores t ≠ .readyqueue := by simp
          have across : Node.semaphores t ≠ .blocked sem := by simp
          rw [Function.update_of_ne onward, Function.update_of_ne across]
          by_cases same : t = owner
          · rw [same, Function.update_self]
            exact (if_pos rfl).symm
          · have other : Node.semaphores t ≠ .semaphores owner := fun eq =>
              same (Node.semaphores.inj eq)
            rw [Function.update_of_ne other]
            exact (if_neg same).trans (if_neg same).symm
      | _ => rfl
    rw [← same]
    exact aborted.lists
  · rw [aborted.visits, unlinked.trace, destroying.visits, grown, List.reverse_append]
    simp [destroyNotes]
  · intro s
    rw [aborted.semaphores, unlinked.semaphores, destroying.semaphores]
    by_cases mine : s = sem
    · rw [if_pos mine, mine, if_neg fresh, if_pos (by simp)]
    · rw [if_neg mine]
      apply if_congr _ rfl rfl
      rw [List.mem_append, List.mem_singleton, or_iff_left mine]
  · intro t
    rw [aborted.flags, unlinked.tasks, destroying.flags, grown, ← Bool.or_assoc]
    simp only [List.mem_append, Bool.decide_or, Bool.or_comm]
  · rw [aborted.returns, unlinked.stuck, destroying.returns]
  · rw [aborted.current, unlinked.current, destroying.current]
  · intro t
    rw [aborted.pids, unlinked.tasks, destroying.pids]

/-- The loop of `free_semaphores`, on any list of owned semaphores. -/
theorem destroying_all (rep : Represents k.links family)
    (queue : family .readyqueue = some (ready.map .anchor))
    (stored : family (.semaphores owner) = some (owned.map .semAnchor))
    (blocked : ∀ sem ∈ owned, family (.blocked sem) = some ((waiting sem).map .anchor))
    (used : ∀ sem ∈ owned, (k.semaphores sem).used = true)
    (mine : ∀ sem ∈ owned, k.ownerPid sem = some k.currentTask.pid) :
    Destroying k (k.freeSemaphores owner) owner family ready waiting owned [] := by
  have distinct : owned.Nodup := (List.nodup_cons.mp (rep.ring stored).nodup).2.of_map _
  have start : Destroying k k owner family ready waiting [] owned := by
    have same : destroyedFamily family owner ready waiting [] owned = family := by
      funext node
      cases node with
      | readyqueue =>
          rw [queue]
          show some ((ready ++ []).map Node.anchor) = _
          rw [List.append_nil]
      | semaphores t =>
          by_cases here : t = owner
          · rw [here, stored]
            exact if_pos rfl
          · exact if_neg here
      | _ => rfl
    refine ⟨?_, rfl, fun s => rfl, fun t => rfl, rfl, rfl, fun t => rfl⟩
    rw [same]
    exact rep
  have rule := @forEachSafe_rule (.semaphores owner) Kernel.destroyOwned
    (fun members k' => ∃ gone left, owned = gone ++ left ∧ members = left.map .semAnchor ∧
      Destroying k k' owner family ready waiting gone left) (owned.map .semAnchor) k ?_ ?_
    ⟨[], owned, rfl, rfl, start⟩ ?_
  · obtain ⟨gone, left, whole, none, destroying⟩ := rule
    rw [eq_comm, List.map_eq_nil_iff] at none
    rw [none, List.append_nil] at whole
    rw [none, ← whole] at destroying
    have empty : destroyedFamily family owner ready waiting owned [] (.semaphores owner) =
        some [] := if_pos rfl
    have again := represents_initListHead destroying.lists (Or.inr empty)
    rw [← empty, Function.update_eq_self] at again
    exact { destroying with lists := again }
  · intro members k' holds
    obtain ⟨gone, left, _, shape, destroying⟩ := holds
    apply destroying.lists.ring
    rw [shape]
    exact if_pos rfl
  · intro node others k' holds
    obtain ⟨gone, left, whole, shape, destroying⟩ := holds
    cases left with
    | nil => cases shape
    | cons sem left =>
        rw [List.map_cons, List.cons.injEq] at shape
        obtain ⟨rfl, rfl⟩ := shape
        have member : sem ∈ owned := by
          rw [whole]
          simp
        have fresh : sem ∉ gone := by
          rw [whole] at distinct
          intro inside
          exact List.disjoint_of_nodup_append distinct inside (List.mem_cons_self ..)
        refine ⟨gone ++ [sem], left, ?_, rfl, ?_⟩
        · rw [whole, List.append_assoc]
          rfl
        · exact destroying.round (blocked sem member) fresh (used sem member) (mine sem member)
  · have short := nodup_short distinct
    rw [List.length_map]
    exact Nat.lt_of_le_of_lt short (by decide)

/-- What destroying semaphores does to the lists, whatever their lengths. -/
structure DestroysOnce (k : Kernel) (family : Node → Option (List Node))
    (ready : List TaskId) : Prop where
  waiters : ∀ sem waiters, family (.blocked sem) = some (waiters.map .anchor) →
    Aborting k (k.forEachSafe (.blocked sem) (Kernel.abortWaiter sem)) sem family ready waiters []
  owned : ∀ owner owned waiting, family (.semaphores owner) = some (owned.map .semAnchor) →
    (∀ sem ∈ owned, family (.blocked sem) = some ((waiting sem).map .anchor) ∧
      (k.semaphores sem).used = true ∧ k.ownerPid sem = some k.currentTask.pid) →
    Destroying k (k.freeSemaphores owner) owner family ready waiting owned []

/-- Both loops end, and visit the nodes of their list once each and in order, although
they unlink the node they stand on. -/
theorem destroy_loops_visit_once (rep : Represents k.links family)
    (queue : family .readyqueue = some (ready.map .anchor)) : DestroysOnce k family ready := by
  constructor
  · intro sem waiters blocked
    exact aborting_all rep queue blocked
  · intro owner owned waiting stored each
    apply destroying_all rep queue stored
    · exact fun sem member => (each sem member).1
    · exact fun sem member => (each sem member).2.1
    · exact fun sem member => (each sem member).2.2

/-- A semaphore with one waiter, after boot. -/
def waiterLinks : Heap Node :=
  let links := initListHead (Kernel.boot Image.empty).links (.blocked 0)
  let links := listAdd links (.semAnchor 0) (.semaphores 1)
  listAddTail links (.anchor 1) (.blocked 0)

def oneWaiter : Kernel :=
  { Kernel.boot Image.empty with
    links := waiterLinks
    semaphores := fun _ => { used := true, count := 0, owner := some 1 } }

def waiterFamily : Node → Option (List Node) :=
  Function.update (Function.update (Function.update Roster.boot.family (.blocked 0) (some []))
    (.semaphores 1) (some [.semAnchor 0])) (.blocked 0) (some [.anchor 1])

theorem waiter_lists : Represents oneWaiter.links waiterFamily := by
  have unused : Loose Roster.boot.family (.semAnchor 0) := by
    refine ⟨rfl, fun head members stored inside => ?_⟩
    rcases family_member stored inside with ⟨_, _, _, node, _⟩ | ⟨_, _, node, _⟩ | ⟨_, _, _, _, own⟩
    · cases node
    · cases node
    · cases own
  have running : Loose Roster.boot.family (.anchor 1) := by
    apply loose_anchor
    intro queued
    obtain ⟨q, member⟩ := queued
    exact absurd (Roster.boot_free member).2 (by decide)
  have fresh : Loose Roster.boot.family (.blocked 0) := loose_blocked rfl
  have started := represents_initListHead boot_lists (Or.inl fresh)
  have owned := @represents_listAdd _ _ _ _ (.semaphores 1) (.semAnchor 0) [] started rfl
    (loose_update unused nofun nofun)
  exact @represents_listAddTail _ _ _ _ (.blocked 0) (.anchor 1) [] owned rfl
    (loose_update (loose_update running nofun nofun) nofun (by decide))

/-- The wait of task 1 is aborted, and semaphore 0 destroyed. -/
theorem destroy_loops_visit_once_waiter :
    Aborting oneWaiter (oneWaiter.forEachSafe (.blocked 0) (Kernel.abortWaiter 0)) 0
      waiterFamily [] [1] [] ∧
    Destroying oneWaiter (oneWaiter.freeSemaphores 1) 1 waiterFamily [] (fun _ => [1]) [0] [] := by
  have once : DestroysOnce oneWaiter waiterFamily [] := destroy_loops_visit_once waiter_lists rfl
  refine ⟨once.waiters 0 [1] rfl, once.owned 1 [0] (fun _ => [1]) rfl fun sem member => ?_⟩
  rw [List.mem_singleton] at member
  rw [member]
  exact ⟨rfl, rfl, by decide +kernel⟩

end Zeos
