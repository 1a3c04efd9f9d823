import Zeos.CircularList

set_option autoImplicit false

/-! `list.c` and `list.h`. -/

namespace Zeos

open CircularList

variable {α : Type*} [DecidableEq α]

/-- `INIT_LIST_HEAD`. -/
def initListHead (links : Heap α) (list : α) : Heap α :=
  setPrev (setNext links (some list) (some list)) (some list) (some list)

/-- `__list_add`. -/
def listAddBetween (links : Heap α) (new : α) (prev next : Option α) : Heap α :=
  let links := setPrev links next (some new)
  let links := setNext links (some new) next
  let links := setPrev links (some new) prev
  setNext links prev (some new)

def listAdd (links : Heap α) (new head : α) : Heap α :=
  listAddBetween links new (some head) (links head).next

def listAddTail (links : Heap α) (new head : α) : Heap α :=
  listAddBetween links new (links head).prev (some head)

/-- `__list_del`. -/
def listDelBetween (links : Heap α) (prev next : Option α) : Heap α :=
  let links := setPrev links next prev
  setNext links prev next

def listDel (links : Heap α) (entry : α) : Heap α :=
  let links := listDelBetween links (links entry).prev (links entry).next
  let links := setNext links (some entry) none
  setPrev links (some entry) none

def listEmpty (links : Heap α) (head : α) : Bool :=
  (links head).next == some head

def listFirst (links : Heap α) (head : α) : Option α :=
  (links head).next

/-- `pos->next`; following the null pointer gives null. -/
def nextOf (links : Heap α) (pos : Option α) : Option α :=
  pos.bind fun node => (links node).next

variable {links : Heap α} {family : α → Option (List α)} {head node : α} {members : List α}

theorem represents_initListHead (rep : Represents links family)
    (unused : Loose family head ∨ family head = some []) :
    Represents (initListHead links head) (Function.update family head (some [])) :=
  rep.init unused

theorem represents_listAdd (rep : Represents links family) (stored : family head = some members)
    (loose : Loose family node) :
    Represents (listAdd links node head)
      (Function.update family head (some (node :: members))) :=
  rep.pushFront stored loose

theorem represents_listAddTail (rep : Represents links family)
    (stored : family head = some members) (loose : Loose family node) :
    Represents (listAddTail links node head)
      (Function.update family head (some (members ++ [node]))) :=
  rep.pushBack stored loose

theorem represents_listDel (rep : Represents links family) (stored : family head = some members)
    (inside : node ∈ members) :
    Represents (listDel links node)
      (Function.update family head (some (members.erase node))) :=
  rep.remove stored inside

theorem listEmpty_iff (rep : Represents links family) (stored : family head = some members) :
    listEmpty links head = true ↔ members = [] := by
  rw [listEmpty, beq_iff_eq]
  exact rep.empty_iff stored

omit [DecidableEq α] in
theorem listFirst_cons {first : α} {rest : List α} (rep : Represents links family)
    (stored : family head = some (first :: rest)) : listFirst links head = some first :=
  rep.first stored

/-- A node that is loose stays loose when it does not join. -/
theorem loose_update (loose : Loose family node) (different : node ≠ head)
    (outside : node ∉ members) : Loose (Function.update family head (some members)) node := by
  refine ⟨by rw [Function.update_of_ne different, loose.1], ?_⟩
  intro other others stored
  rw [Function.update_apply] at stored
  split at stored
  · cases stored
    exact outside
  · exact loose.2 other others stored

/-! ### From one list to another -/

/-- What `update_process_state` does to the pointers: the node leaves the list it is on,
if its pointers are set, and joins `dest`. -/
def relink (links : Heap α) (node : α) (dest : Option α) (isFirst : Bool) : Heap α :=
  let links := if (links node).next ≠ none ∧ (links node).prev ≠ none then listDel links node
    else links
  match dest with
  | none => links
  | some dest => if isFirst then listAdd links node dest else listAddTail links node dest

/-- The family with the node on no list. -/
def without (family : α → Option (List α)) (node : α) : α → Option (List α) :=
  fun head => (family head).map (·.erase node)

/-- The family with the node at an end of `dest`. -/
def moved (family : α → Option (List α)) (node dest : α) (isFirst : Bool) :
    α → Option (List α) :=
  Function.update (without family node) dest ((without family node dest).map fun members =>
    if isFirst then node :: members else members ++ [node])

theorem without_loose (loose : Loose family node) : without family node = family := by
  funext head
  rw [without]
  cases stored : family head with
  | none => rfl
  | some members =>
      rw [Option.map_some, List.erase_of_not_mem (loose.2 head members stored)]

/-- Only the list of the node changes. -/
theorem without_member (rep : Represents links family) (stored : family head = some members)
    (inside : node ∈ members) :
    without family node = Function.update family head (some (members.erase node)) := by
  funext other
  rw [Function.update_apply, without]
  split
  · rename_i same
    rw [same, stored, Option.map_some]
  · rename_i different
    cases here : family other with
    | none => rfl
    | some others =>
        have outside : node ∉ others := fun member =>
          different (rep.apart here stored member inside)
        rw [Option.map_some, List.erase_of_not_mem outside]

theorem loose_without (rep : Represents links family) (plain : family node = none) :
    Loose (without family node) node := by
  refine ⟨by rw [without, plain, Option.map_none], ?_⟩
  intro head members stored
  rw [without, Option.map_eq_some_iff] at stored
  obtain ⟨before, here, same⟩ := stored
  rw [← same]
  exact (List.nodup_cons.mp (rep.ring here).nodup).2.not_mem_erase

/-- A node is taken off its list, whichever it is. -/
theorem represents_detach (rep : Represents links family) (plain : family node = none) :
    Represents (relink links node none false) (without family node) := by
  show Represents (if (links node).next ≠ none ∧ (links node).prev ≠ none then listDel links node
    else links) (without family node)
  by_cases linked : (links node).next ≠ none ∧ (links node).prev ≠ none
  · obtain ⟨head, members, stored, inside⟩ := (rep.linked_iff plain).mp linked
    rw [if_pos linked, without_member rep stored inside]
    exact represents_listDel rep stored inside
  · have loose : Loose family node := by
      refine ⟨plain, fun head members stored inside => linked ?_⟩
      exact (rep.linked_iff plain).mpr ⟨head, members, stored, inside⟩
    rw [if_neg linked, without_loose loose]
    exact rep

theorem represents_relink (rep : Represents links family) (plain : family node = none)
    {dest : α} (stored : family dest = some members) (isFirst : Bool) :
    Represents (relink links node (some dest) isFirst) (moved family node dest isFirst) := by
  have detached := represents_detach rep plain
  have here : without family node dest = some (members.erase node) := by
    rw [without, stored, Option.map_some]
  have loose := loose_without rep plain
  rw [moved, here, Option.map_some]
  cases isFirst
  · exact represents_listAddTail detached here loose
  · exact represents_listAdd detached here loose

end Zeos
