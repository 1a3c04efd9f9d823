import Mathlib.Data.List.Chain
import Mathlib.Data.List.Nodup
import Mathlib.Logic.Function.Basic

set_option autoImplicit false

/-! Circular doubly linked lists on a heap of `next`/`prev` pointers, read as a
family of disjoint sequences. Nothing here depends on what the nodes are. -/

namespace CircularList

/-- The two pointers stored in a node; `none` is the null pointer. -/
@[ext] structure Link (α : Type*) where
  next : Option α
  prev : Option α
  deriving DecidableEq

structure Heap (α : Type*) where
  link : α → Link α

instance {α : Type*} : CoeFun (Heap α) fun _ => α → Link α := ⟨Heap.link⟩

variable {α : Type*} [DecidableEq α]

/-- A store through the null pointer is dropped. -/
def setNext (heap : Heap α) (place value : Option α) : Heap α :=
  match place with
  | none => heap
  | some node =>
      let link := { heap node with next := value }
      ⟨fun other => if other = node then link else heap other⟩

def setPrev (heap : Heap α) (place value : Option α) : Heap α :=
  match place with
  | none => heap
  | some node =>
      let link := { heap node with prev := value }
      ⟨fun other => if other = node then link else heap other⟩

@[simp] theorem setNext_next (heap : Heap α) (place node : α) (value : Option α) :
    (setNext heap (some place) value node).next =
      if node = place then value else (heap node).next := by
  simp only [setNext]
  split <;> rfl

@[simp] theorem setNext_prev (heap : Heap α) (place value : Option α) (node : α) :
    (setNext heap place value node).prev = (heap node).prev := by
  cases place with
  | none => rfl
  | some place =>
      simp only [setNext]
      split
      · rename_i same
        rw [same]
      · rfl

@[simp] theorem setPrev_prev (heap : Heap α) (place node : α) (value : Option α) :
    (setPrev heap (some place) value node).prev =
      if node = place then value else (heap node).prev := by
  simp only [setPrev]
  split <;> rfl

@[simp] theorem setPrev_next (heap : Heap α) (place value : Option α) (node : α) :
    (setPrev heap place value node).next = (heap node).next := by
  cases place with
  | none => rfl
  | some place =>
      simp only [setPrev]
      split
      · rename_i same
        rw [same]
      · rfl

/-- Link `new` between two adjacent nodes. -/
def insertBetween (heap : Heap α) (new : α) (before after : Option α) : Heap α :=
  setNext (setPrev (setNext (setPrev heap after (some new)) (some new) after) (some new) before)
    before (some new)

/-- Make the two neighbours of a node point at each other and clear its own
pointers. -/
def unlink (heap : Heap α) (entry : α) : Heap α :=
  setPrev (setNext (setNext (setPrev heap (heap entry).next (heap entry).prev)
    (heap entry).prev (heap entry).next) (some entry) none) (some entry) none

def initHead (heap : Heap α) (head : α) : Heap α :=
  setPrev (setNext heap (some head) (some head)) (some head) (some head)

def Adjacent (heap : Heap α) (left right : α) : Prop :=
  (heap left).next = some right ∧ (heap right).prev = some left

/-- The nodes `members`, read forwards from `head`, and back to it. -/
structure Ring (heap : Heap α) (head : α) (members : List α) : Prop where
  nodup : (head :: members).Nodup
  chain : List.IsChain (Adjacent heap) (head :: (members ++ [head]))

omit [DecidableEq α] in
/-- A chain reads `next` of all nodes but the last and `prev` of all but the
first. -/
theorem chain_congr {heap heap' : Heap α} {nodes : List α}
    (chain : List.IsChain (Adjacent heap) nodes)
    (next : ∀ node ∈ nodes.dropLast, (heap' node).next = (heap node).next)
    (prev : ∀ node ∈ nodes.tail, (heap' node).prev = (heap node).prev) :
    List.IsChain (Adjacent heap') nodes := by
  induction nodes with
  | nil => exact .nil
  | cons first rest ih =>
      cases rest with
      | nil => exact .singleton first
      | cons second rest =>
          rw [List.isChain_cons_cons] at chain ⊢
          have link := chain.1
          have nextFirst := next first (by simp)
          have prevSecond := prev second (by simp)
          refine ⟨⟨nextFirst.trans link.1, prevSecond.trans link.2⟩, ih chain.2 ?_ ?_⟩
          · intro node member
            exact next node (List.mem_cons_of_mem first member)
          · intro node member
            exact prev node (List.mem_cons_of_mem second member)

omit [DecidableEq α] in
theorem Ring.congr {heap heap' : Heap α} {head : α} {members : List α}
    (ring : Ring heap head members)
    (same : ∀ node ∈ head :: members, heap' node = heap node) : Ring heap' head members := by
  refine ⟨ring.nodup, chain_congr ring.chain ?_ ?_⟩
  · intro node member
    rw [← List.cons_append, List.dropLast_concat] at member
    rw [same node member]
  · intro node member
    have inRing : node ∈ head :: members := by
      simp only [List.tail_cons, List.mem_append, List.mem_singleton] at member
      simp only [List.mem_cons]
      exact member.symm
    rw [same node inRing]

theorem insertBetween_next (heap : Heap α) (new before after node : α) :
    (insertBetween heap new (some before) (some after) node).next =
      if node = before then some new else if node = new then some after else
        (heap node).next := by
  simp only [insertBetween, setNext_next, setPrev_next]

theorem insertBetween_prev (heap : Heap α) (new before after node : α) :
    (insertBetween heap new (some before) (some after) node).prev =
      if node = new then some before else if node = after then some new else
        (heap node).prev := by
  simp only [insertBetween, setNext_prev, setPrev_prev]

theorem unlink_next {heap : Heap α} {entry before after : α}
    (prev : (heap entry).prev = some before) (next : (heap entry).next = some after)
    (node : α) : (unlink heap entry node).next =
      if node = entry then none else if node = before then some after else
        (heap node).next := by
  simp only [unlink, prev, next, setNext_next, setPrev_next]

theorem unlink_prev {heap : Heap α} {entry before after : α}
    (prev : (heap entry).prev = some before) (next : (heap entry).next = some after)
    (node : α) : (unlink heap entry node).prev =
      if node = entry then none else if node = after then some before else
        (heap node).prev := by
  simp only [unlink, prev, next, setNext_prev, setPrev_prev]

omit [DecidableEq α] in
/-- A split of the ring at any two neighbours, as nodes of one linear chain. -/
theorem Ring.split {heap : Heap α} {head before after : α} {front back left right : List α}
    (ring : Ring heap head (front ++ back)) (lefts : head :: front = left ++ [before])
    (rights : back ++ [head] = after :: right) :
    List.IsChain (Adjacent heap) (left ++ [before]) ∧ Adjacent heap before after ∧
      List.IsChain (Adjacent heap) (after :: right) := by
  have chain := ring.chain
  rw [List.append_assoc, ← List.cons_append, lefts, rights, List.isChain_append] at chain
  refine ⟨chain.1, chain.2.2 before ?_ after ?_, chain.2.1⟩
  · simp only [List.getLast?_append, List.getLast?_singleton, Option.some_or,
      Option.mem_def]
  · simp only [List.head?_cons, Option.mem_def]

/-- Linking a fresh node between two neighbours of a ring inserts it there. -/
theorem Ring.insert {heap : Heap α} {head before after new : α}
    {front back left right : List α} (ring : Ring heap head (front ++ back))
    (lefts : head :: front = left ++ [before]) (rights : back ++ [head] = after :: right)
    (fresh : new ∉ head :: (front ++ back)) :
    Ring (insertBetween heap new (some before) (some after)) head (front ++ new :: back) := by
  have pieces := ring.split lefts rights
  have distinct := ring.nodup
  have frontNodup : (left ++ [before]).Nodup := by
    rw [← lefts]
    exact distinct.sublist (by simp)
  have backNodup : (after :: right).Nodup := by
    rw [← rights, List.nodup_append]
    simp only [List.nodup_cons, List.mem_append, not_or, List.nodup_append] at distinct
    refine ⟨distinct.2.2.1, by simp, ?_⟩
    intro node member other single same
    rw [List.mem_singleton] at single
    exact distinct.1.2 (single ▸ same ▸ member)
  have freshLeft : new ∉ left ++ [before] := by
    rw [← lefts]
    intro member
    exact fresh (by simp only [List.mem_cons, List.mem_append] at member ⊢; tauto)
  have freshRight : new ∉ after :: right := by
    rw [← rights]
    intro member
    exact fresh (by simp only [List.mem_cons, List.mem_append, List.not_mem_nil,
      or_false] at member ⊢; tauto)
  have apart : ∀ node ∈ (left ++ [before]).tail, node ≠ after := by
    rw [← lefts, List.tail_cons]
    intro node member same
    have afterMem : after ∈ back ++ [head] := by simp [rights]
    rw [← same, List.mem_append, List.mem_singleton] at afterMem
    simp only [List.nodup_cons, List.mem_append, not_or, List.nodup_append] at distinct
    rcases afterMem with inBack | isHead
    · exact distinct.2.2.2 node member node inBack rfl
    · exact distinct.1.1 (isHead ▸ member)
  have beforeRight : ∀ node ∈ (after :: right).dropLast, node ≠ before := by
    rw [← rights, List.dropLast_concat]
    intro node member same
    have beforeMem : before ∈ head :: front := by simp [lefts]
    rw [← same, List.mem_cons] at beforeMem
    simp only [List.nodup_cons, List.mem_append, not_or, List.nodup_append] at distinct
    rcases beforeMem with isHead | inFront
    · exact distinct.1.2 (isHead ▸ member)
    · exact distinct.2.2.2 node inFront node member rfl
  refine ⟨?_, ?_⟩
  · have arranged : (head :: (front ++ new :: back)).Perm (new :: head :: (front ++ back)) :=
      (List.Perm.cons head List.perm_middle).trans (List.Perm.swap new head _)
    rw [arranged.nodup_iff, List.nodup_cons]
    exact ⟨fresh, distinct⟩
  · rw [List.append_assoc, List.cons_append, ← List.cons_append, lefts, rights,
      List.append_assoc, List.singleton_append, List.isChain_split]
    refine ⟨?_, ?_⟩
    · apply chain_congr pieces.1
      · intro node member
        rw [List.dropLast_concat] at member
        rw [insertBetween_next, if_neg, if_neg]
        · rintro rfl
          exact freshLeft (List.mem_append_left _ member)
        · rintro rfl
          rw [List.nodup_append] at frontNodup
          exact frontNodup.2.2 node member node (by simp) rfl
      · intro node member
        rw [insertBetween_prev, if_neg, if_neg (apart node member)]
        rintro rfl
        exact freshLeft (List.mem_of_mem_tail member)
    · rw [List.isChain_cons_cons, List.isChain_cons_cons]
      refine ⟨⟨?_, ?_⟩, ⟨?_, ?_⟩, ?_⟩
      · rw [insertBetween_next, if_pos rfl]
      · rw [insertBetween_prev, if_pos rfl]
      · rw [insertBetween_next, if_neg, if_pos rfl]
        rintro rfl
        exact freshLeft (by simp)
      · rw [insertBetween_prev, if_neg, if_pos rfl]
        rintro rfl
        exact freshRight (by simp)
      · apply chain_congr pieces.2.2
        · intro node member
          rw [insertBetween_next, if_neg (beforeRight node member), if_neg]
          rintro rfl
          exact freshRight ((List.dropLast_sublist _).subset member)
        · intro node member
          rw [List.tail_cons] at member
          rw [insertBetween_prev, if_neg, if_neg]
          · rintro rfl
            exact (List.nodup_cons.mp backNodup).1 member
          · rintro rfl
            exact freshRight (List.mem_cons_of_mem _ member)

/-- Unlinking a member of a ring removes it from the sequence. -/
theorem Ring.remove {heap : Heap α} {head before after entry : α}
    {front back left right : List α} (ring : Ring heap head (front ++ entry :: back))
    (lefts : head :: front = left ++ [before]) (rights : back ++ [head] = after :: right) :
    Ring (unlink heap entry) head (front ++ back) := by
  have chain := ring.chain
  rw [List.append_assoc, List.cons_append, ← List.cons_append, lefts, rights,
    List.append_assoc, List.singleton_append, List.isChain_split, List.isChain_cons_cons,
    List.isChain_cons_cons] at chain
  obtain ⟨leftChain, entering, leaving, rightChain⟩ := chain
  have arranged : (head :: (front ++ entry :: back)).Perm (entry :: head :: (front ++ back)) :=
    (List.Perm.cons head List.perm_middle).trans (List.Perm.swap entry head _)
  have distinct := ring.nodup
  rw [arranged.nodup_iff, List.nodup_cons] at distinct
  have leftNodup : (left ++ [before]).Nodup := by
    rw [← lefts]
    exact distinct.2.sublist (by simp)
  have notLeft : entry ∉ left ++ [before] := by
    rw [← lefts]
    intro member
    exact distinct.1 (by simp only [List.mem_cons, List.mem_append] at member ⊢; tauto)
  have notRight : entry ∉ after :: right := by
    rw [← rights]
    intro member
    exact distinct.1 (by simp only [List.mem_cons, List.mem_append, List.not_mem_nil,
      or_false] at member ⊢; tauto)
  have parts := distinct.2
  simp only [List.nodup_cons, List.mem_append, not_or, List.nodup_append] at parts
  have rightNodup : (after :: right).Nodup := by
    rw [← rights, List.nodup_append]
    refine ⟨parts.2.2.1, by simp, ?_⟩
    intro node member other single same
    rw [List.mem_singleton] at single
    exact parts.1.2 (single ▸ same ▸ member)
  have nextOf := unlink_next entering.2 leaving.1
  have prevOf := unlink_prev entering.2 leaving.1
  refine ⟨distinct.2, ?_⟩
  rw [List.append_assoc, ← List.cons_append, lefts, rights, List.append_assoc,
    List.singleton_append, List.isChain_split]
  refine ⟨?_, ?_⟩
  · apply chain_congr leftChain
    · intro node member
      rw [List.dropLast_concat] at member
      rw [nextOf, if_neg, if_neg]
      · rintro rfl
        rw [List.nodup_append] at leftNodup
        exact leftNodup.2.2 node member node (by simp) rfl
      · rintro rfl
        exact notLeft (List.mem_append_left _ member)
    · intro node member
      have inFront : node ∈ front := by
        rw [← lefts, List.tail_cons] at member
        exact member
      rw [prevOf, if_neg, if_neg]
      · rintro rfl
        have inBack : node ∈ back ++ [head] := by simp [rights]
        rw [List.mem_append, List.mem_singleton] at inBack
        rcases inBack with inBack | isHead
        · exact parts.2.2.2 node inFront node inBack rfl
        · exact parts.1.1 (isHead ▸ inFront)
      · rintro rfl
        exact notLeft (List.mem_of_mem_tail member)
  · rw [List.isChain_cons_cons]
    refine ⟨⟨?_, ?_⟩, ?_⟩
    · rw [nextOf, if_neg, if_pos rfl]
      rintro rfl
      exact notLeft (by simp)
    · rw [prevOf, if_neg, if_pos rfl]
      rintro rfl
      exact notRight (by simp)
    · apply chain_congr rightChain
      · intro node member
        have inBack : node ∈ back := by
          rw [← rights, List.dropLast_concat] at member
          exact member
        rw [nextOf, if_neg, if_neg]
        · rintro rfl
          have inFront : node ∈ head :: front := by simp [lefts]
          rw [List.mem_cons] at inFront
          rcases inFront with isHead | inFront
          · exact parts.1.2 (isHead ▸ inBack)
          · exact parts.2.2.2 node inFront node inBack rfl
        · rintro rfl
          exact notRight ((List.dropLast_sublist _).subset member)
      · intro node member
        rw [List.tail_cons] at member
        rw [prevOf, if_neg, if_neg]
        · rintro rfl
          exact (List.nodup_cons.mp rightNodup).1 member
        · rintro rfl
          exact notRight (List.mem_cons_of_mem _ member)

omit [DecidableEq α] in
theorem Ring.next_head {heap : Heap α} {head : α} {members : List α}
    (ring : Ring heap head members) :
    (heap head).next = some (members.headD head) := by
  have chain := ring.chain
  cases members with
  | nil =>
      rw [List.nil_append, List.isChain_cons_cons] at chain
      exact chain.1.1
  | cons first rest =>
      rw [List.cons_append, List.isChain_cons_cons] at chain
      exact chain.1.1

omit [DecidableEq α] in
/-- The successor of the first member. -/
theorem Ring.next_first {heap : Heap α} {head first : α} {rest : List α}
    (ring : Ring heap head (first :: rest)) :
    (heap first).next = some (rest.headD head) := by
  have chain := ring.chain
  rw [List.cons_append, List.isChain_cons_cons] at chain
  cases rest with
  | nil =>
      rw [List.nil_append, List.isChain_cons_cons] at chain
      exact chain.2.1.1
  | cons second rest =>
      rw [List.cons_append, List.isChain_cons_cons] at chain
      exact chain.2.1.1

omit [DecidableEq α] in
theorem Ring.prev_head {heap : Heap α} {head : α} {members : List α}
    (ring : Ring heap head members) :
    (heap head).prev = some ((head :: members).getLast (by simp)) := by
  obtain ⟨left, last, shape⟩ := List.eq_nil_or_concat' (head :: members) |>.resolve_left (by simp)
  have chain := ring.chain
  rw [← List.cons_append, shape, List.isChain_append] at chain
  have link := chain.2.2 last (by simp) head (by simp)
  have lastEq : (head :: members).getLast (by simp) = last := by simp [shape]
  rw [lastEq]
  exact link.2

omit [DecidableEq α] in
/-- A member of a ring has both pointers set, towards its neighbours. -/
theorem Ring.member_links {heap : Heap α} {head before after entry : α}
    {front back left right : List α} (ring : Ring heap head (front ++ entry :: back))
    (lefts : head :: front = left ++ [before]) (rights : back ++ [head] = after :: right) :
    (heap entry).prev = some before ∧ (heap entry).next = some after := by
  have chain := ring.chain
  rw [List.append_assoc, List.cons_append, ← List.cons_append, lefts, rights,
    List.append_assoc, List.singleton_append, List.isChain_split, List.isChain_cons_cons,
    List.isChain_cons_cons] at chain
  exact ⟨chain.2.1.2, chain.2.2.1.1⟩

theorem initHead_ring (heap : Heap α) (head : α) : Ring (initHead heap head) head [] := by
  refine ⟨by simp, ?_⟩
  rw [List.nil_append, List.isChain_cons_cons]
  exact ⟨⟨by simp [initHead], by simp [initHead]⟩, .singleton head⟩

theorem insertBetween_other (heap : Heap α) {new before after node : α} (notNew : node ≠ new)
    (notBefore : node ≠ before) (notAfter : node ≠ after) :
    insertBetween heap new (some before) (some after) node = heap node := by
  apply Link.ext
  · rw [insertBetween_next, if_neg notBefore, if_neg notNew]
  · rw [insertBetween_prev, if_neg notNew, if_neg notAfter]

theorem unlink_other {heap : Heap α} {entry before after node : α}
    (prev : (heap entry).prev = some before) (next : (heap entry).next = some after)
    (notEntry : node ≠ entry) (notBefore : node ≠ before) (notAfter : node ≠ after) :
    unlink heap entry node = heap node := by
  apply Link.ext
  · rw [unlink_next prev next, if_neg notEntry, if_neg notBefore]
  · rw [unlink_prev prev next, if_neg notEntry, if_neg notAfter]

theorem unlink_entry {heap : Heap α} {entry before after : α}
    (prev : (heap entry).prev = some before) (next : (heap entry).next = some after) :
    unlink heap entry entry = ⟨none, none⟩ := by
  apply Link.ext
  · rw [unlink_next prev next, if_pos rfl]
  · rw [unlink_prev prev next, if_pos rfl]

theorem initHead_other (heap : Heap α) {head node : α} (different : node ≠ head) :
    initHead heap head node = heap node := by
  apply Link.ext <;> simp [initHead, different]

/-- A node that is neither a list head nor on any list. -/
def Loose (family : α → Option (List α)) (node : α) : Prop :=
  family node = none ∧ ∀ head members, family head = some members → node ∉ members

/-- The heap stores exactly the given family: each initialised head starts a
ring of its members, the rings are disjoint, and all other nodes are null. -/
structure Represents (heap : Heap α) (family : α → Option (List α)) : Prop where
  ring : ∀ {head members}, family head = some members → Ring heap head members
  apart : ∀ {head other members others node}, family head = some members →
    family other = some others → node ∈ members → node ∈ others → head = other
  plain : ∀ {head members node}, family head = some members → node ∈ members →
    family node = none
  detached : ∀ {node}, Loose family node → heap node = ⟨none, none⟩

variable {heap heap' : Heap α} {family : α → Option (List α)} {head node : α}
  {members members' : List α}

/-- Replacing one sequence of a family: the new heap carries the new ring, the
nodes that joined were loose, the nodes that left are null, and nothing else
changed. -/
theorem Represents.replace (rep : Represents heap family)
    (own : family head = some members ∨ Loose family head ∧ members = [])
    (ring : Ring heap' head members')
    (frame : ∀ node, node ≠ head → node ∉ members → node ∉ members' → heap' node = heap node)
    (joined : ∀ node ∈ members', node ∈ members ∨ Loose family node)
    (parted : ∀ node ∈ members, node ∉ members' → heap' node = ⟨none, none⟩) :
    Represents heap' (Function.update family head (some members')) := by
  have headFree : ∀ other others, other ≠ head → family other = some others → head ∉ others := by
    intro other others different stored member
    rcases own with stored' | ⟨loose, _⟩
    · have none := rep.plain stored member
      rw [stored'] at none
      cases none
    · exact loose.2 other others stored member
  have away : ∀ other others node, other ≠ head → family other = some others →
      node ∈ others → node ∉ members ∧ node ∉ members' := by
    intro other others node different stored member
    have notMember : node ∉ members := by
      intro inside
      rcases own with stored' | ⟨_, empty⟩
      · exact different (rep.apart stored stored' member inside)
      · simp [empty] at inside
    refine ⟨notMember, fun inside => ?_⟩
    rcases joined node inside with old | loose
    · exact notMember old
    · exact loose.2 other others stored member
  have plainJoined : ∀ node ∈ members', family node = none := by
    intro node inside
    rcases joined node inside with old | loose
    · rcases own with stored' | ⟨_, empty⟩
      · exact rep.plain stored' old
      · simp [empty] at old
    · exact loose.1
  have headNotMember : head ∉ members' := (List.nodup_cons.mp ring.nodup).1
  refine ⟨?_, ?_, ?_, ?_⟩
  · intro other others stored
    rw [Function.update_apply] at stored
    split at stored
    · rename_i same
      cases stored
      exact same ▸ ring
    · rename_i different
      apply (rep.ring stored).congr
      intro node inside
      rw [List.mem_cons] at inside
      rcases inside with rfl | member
      · refine frame node different ?_ ?_
        · intro inside
          rcases own with stored' | ⟨_, empty⟩
          · have none := rep.plain stored' inside
            rw [stored] at none
            cases none
          · simp [empty] at inside
        · intro inside
          have none := plainJoined node inside
          rw [stored] at none
          cases none
      · obtain ⟨out, out'⟩ := away other others node different stored member
        refine frame node ?_ out out'
        rintro rfl
        exact headFree other others different stored member
  · intro first second firsts seconds node storedFirst storedSecond inFirst inSecond
    rw [Function.update_apply] at storedFirst storedSecond
    split at storedFirst <;> split at storedSecond
    · rename_i sameFirst sameSecond
      rw [sameFirst, sameSecond]
    · rename_i sameFirst different
      cases storedFirst
      exact absurd inFirst (away second seconds node different storedSecond inSecond).2
    · rename_i different sameSecond
      cases storedSecond
      exact absurd inSecond (away first firsts node different storedFirst inFirst).2
    · exact rep.apart storedFirst storedSecond inFirst inSecond
  · intro other others node stored member
    rw [Function.update_apply] at stored ⊢
    split at stored
    · cases stored
      rw [if_neg]
      · exact plainJoined node member
      · rintro rfl
        exact headNotMember member
    · rename_i different
      rw [if_neg]
      · exact rep.plain stored member
      · rintro rfl
        exact headFree other others different stored member
  · rintro node ⟨unheaded, outside⟩
    rw [Function.update_apply] at unheaded
    split at unheaded
    · cases unheaded
    · rename_i different
      have out' : node ∉ members' := outside head members' (Function.update_self ..)
      by_cases inside : node ∈ members
      · exact parted node inside out'
      · rw [frame node different inside out']
        apply rep.detached
        refine ⟨unheaded, fun other others stored member => ?_⟩
        by_cases same : other = head
        · subst same
          rcases own with stored' | ⟨loose, _⟩
          · rw [stored] at stored'
            cases stored'
            exact inside member
          · have none := loose.1
            rw [stored] at none
            cases none
        · exact outside other others (by rw [Function.update_of_ne same]; exact stored) member

omit [DecidableEq α] in
omit [DecidableEq α] in
theorem Loose.ne_head (loose : Loose family node) (stored : family head = some members) :
    node ≠ head := by
  rintro rfl
  have none := loose.1
  rw [stored] at none
  cases none

/-- Insertion after the head adds a loose node to the front. -/
theorem Represents.pushFront (rep : Represents heap family)
    (stored : family head = some members) (loose : Loose family node) :
    Represents (insertBetween heap node (some head) (heap head).next)
      (Function.update family head (some (node :: members))) := by
  have ring := rep.ring stored
  have fresh : node ∉ head :: members := by
    rw [List.mem_cons, not_or]
    exact ⟨loose.ne_head stored, loose.2 head members stored⟩
  rw [ring.next_head]
  have rights : ∃ right, members ++ [head] = members.headD head :: right := by
    cases members <;> simp
  obtain ⟨right, rights⟩ := rights
  have inserted : Ring (insertBetween heap node (some head) (some (members.headD head))) head
      ([] ++ node :: members) :=
    @Ring.insert α _ heap head head (members.headD head) node [] members [] right ring (by simp)
      rights fresh
  refine rep.replace (Or.inl stored) inserted ?_ ?_ ?_
  · intro other notHead notMember notMember'
    rw [List.mem_cons, not_or] at notMember'
    apply insertBetween_other heap notMember'.1 notHead
    intro same
    have inside : members.headD head ∈ members ++ [head] := by simp [rights]
    rw [← same, List.mem_append, List.mem_singleton] at inside
    exact inside.elim notMember notHead
  · intro other inside
    rw [List.mem_cons] at inside
    rcases inside with rfl | inside
    · exact Or.inr loose
    · exact Or.inl inside
  · intro other inside outside
    exact absurd (List.mem_cons_of_mem node inside) outside

/-- Insertion before the head adds a loose node to the back. -/
theorem Represents.pushBack (rep : Represents heap family)
    (stored : family head = some members) (loose : Loose family node) :
    Represents (insertBetween heap node (heap head).prev (some head))
      (Function.update family head (some (members ++ [node]))) := by
  have ring := rep.ring stored
  have fresh : node ∉ head :: (members ++ []) := by
    rw [List.append_nil, List.mem_cons, not_or]
    exact ⟨loose.ne_head stored, loose.2 head members stored⟩
  rw [ring.prev_head]
  have last : ∃ left last, head :: members = left ++ [last] :=
    (List.eq_nil_or_concat' (head :: members)).resolve_left (by simp)
  obtain ⟨left, last, shape⟩ := last
  have lastEq : (head :: members).getLast (by simp) = last := by simp [shape]
  rw [lastEq]
  have inserted : Ring (insertBetween heap node (some last) (some head)) head
      (members ++ [node]) :=
    @Ring.insert α _ heap head last head node members [] left []
      (by rw [List.append_nil]; exact ring) shape (by simp) fresh
  refine rep.replace (Or.inl stored) inserted ?_ ?_ ?_
  · intro other notHead notMember notMember'
    rw [List.mem_append, List.mem_singleton, not_or] at notMember'
    apply insertBetween_other heap notMember'.2
    · rintro rfl
      have inside : other ∈ head :: members := by simp [shape]
      rw [List.mem_cons] at inside
      exact inside.elim notHead notMember
    · exact notHead
  · intro other inside
    rw [List.mem_append, List.mem_singleton] at inside
    rcases inside with inside | rfl
    · exact Or.inl inside
    · exact Or.inr loose
  · intro other inside outside
    exact absurd (List.mem_append_left _ inside) outside

omit [DecidableEq α] in
/-- The neighbours of a member, as ends of the two halves of its ring. -/
theorem neighbours (head : α) (front back : List α) :
    ∃ left before after right, head :: front = left ++ [before] ∧
      back ++ [head] = after :: right := by
  obtain ⟨left, before, lefts⟩ :=
    (List.eq_nil_or_concat' (head :: front)).resolve_left (by simp)
  cases back with
  | nil => exact ⟨left, before, head, [], lefts, rfl⟩
  | cons after rest => exact ⟨left, before, after, rest ++ [head], lefts, rfl⟩

/-- Unlinking a member takes it out of its sequence and leaves it loose. -/
theorem Represents.remove (rep : Represents heap family)
    (stored : family head = some members) (inside : node ∈ members) :
    Represents (unlink heap node) (Function.update family head (some (members.erase node))) := by
  have ring := rep.ring stored
  have nodup := (List.nodup_cons.mp ring.nodup).2
  obtain ⟨front, back, rfl⟩ := List.append_of_mem inside
  have notFront : node ∉ front := by
    intro member
    rw [List.nodup_append] at nodup
    exact nodup.2.2 node member node (by simp) rfl
  have notBack : node ∉ back := by
    rw [List.nodup_append, List.nodup_cons] at nodup
    exact nodup.2.1.1
  have erased : (front ++ node :: back).erase node = front ++ back := by
    rw [List.erase_append_right _ notFront, List.erase_cons_head]
  obtain ⟨left, before, after, right, lefts, rights⟩ := neighbours head front back
  have links := ring.member_links lefts rights
  have beforeIn : before = head ∨ before ∈ front := by
    have member : before ∈ head :: front := by simp [lefts]
    simpa using member
  have afterIn : after ∈ back ∨ after = head := by
    have member : after ∈ back ++ [head] := by simp [rights]
    simpa using member
  rw [erased]
  refine rep.replace (Or.inl stored) (ring.remove lefts rights) ?_ ?_ ?_
  · intro other notHead notMember _
    apply unlink_other links.1 links.2
    · rintro rfl
      exact notMember inside
    · rintro rfl
      rcases beforeIn with same | member
      · exact notHead same
      · exact notMember (List.mem_append_left _ member)
    · rintro rfl
      rcases afterIn with member | same
      · exact notMember (List.mem_append_right _ (List.mem_cons_of_mem _ member))
      · exact notHead same
  · intro other member
    refine Or.inl ?_
    rw [List.mem_append] at member
    rw [List.mem_append, List.mem_cons]
    tauto
  · intro other member outside
    have same : other = node := by
      rw [List.mem_append, List.mem_cons] at member
      rw [List.mem_append] at outside
      tauto
    rw [same]
    exact unlink_entry links.1 links.2

/-- Initialising an unused head, or one whose list is empty, makes it empty. -/
theorem Represents.init (rep : Represents heap family)
    (unused : Loose family head ∨ family head = some []) :
    Represents (initHead heap head) (Function.update family head (some [])) := by
  have own : family head = some [] ∨ Loose family head ∧ ([] : List α) = [] := by
    rcases unused with loose | empty
    · exact Or.inr ⟨loose, rfl⟩
    · exact Or.inl empty
  refine rep.replace own (initHead_ring heap head) ?_ ?_ ?_
  · intro other different _ _
    exact initHead_other heap different
  · intro other inside
    cases inside
  · intro other inside
    cases inside

omit [DecidableEq α] in
theorem Represents.empty_iff (rep : Represents heap family)
    (stored : family head = some members) :
    (heap head).next = some head ↔ members = [] := by
  rw [(rep.ring stored).next_head]
  cases members with
  | nil => simp
  | cons first rest =>
      have different : first ≠ head := by
        have distinct := (rep.ring stored).nodup
        rw [List.nodup_cons] at distinct
        rintro rfl
        exact distinct.1 (by simp)
      simp [different]

omit [DecidableEq α] in
theorem Represents.first (rep : Represents heap family) {first : α} {rest : List α}
    (stored : family head = some (first :: rest)) : (heap head).next = some first := by
  rw [(rep.ring stored).next_head]
  rfl

omit [DecidableEq α] in
/-- Both pointers of a node are set exactly when it is on a list. -/
theorem Represents.linked_iff (rep : Represents heap family) (unheaded : family node = none) :
    (heap node).next ≠ none ∧ (heap node).prev ≠ none ↔
      ∃ head members, family head = some members ∧ node ∈ members := by
  constructor
  · intro linked
    by_contra absent
    have loose : Loose family node :=
      ⟨unheaded, fun head members stored member => absent ⟨head, members, stored, member⟩⟩
    rw [rep.detached loose] at linked
    exact linked.1 rfl
  · rintro ⟨head, members, stored, inside⟩
    obtain ⟨front, back, rfl⟩ := List.append_of_mem inside
    obtain ⟨left, before, after, right, lefts, rights⟩ := neighbours head front back
    have links := (rep.ring stored).member_links lefts rights
    rw [links.1, links.2]
    exact ⟨by simp, by simp⟩

omit [DecidableEq α] in
theorem chain_unique {heap : Heap α} {head : α} : ∀ {start : α} {left right : List α},
    List.IsChain (Adjacent heap) (start :: (left ++ [head])) → head ∉ left →
    List.IsChain (Adjacent heap) (start :: (right ++ [head])) → head ∉ right → left = right := by
  intro start left
  induction left generalizing start with
  | nil =>
      intro right chain _ chain' outside
      cases right with
      | nil => rfl
      | cons first rest =>
          rw [List.nil_append, List.isChain_cons_cons] at chain
          rw [List.cons_append, List.isChain_cons_cons] at chain'
          have same := chain.1.1.symm.trans chain'.1.1
          exact absurd (Option.some.inj same) fun same => outside (by simp [same])
  | cons first rest ih =>
      intro right chain outside chain' outside'
      rw [List.cons_append, List.isChain_cons_cons] at chain
      cases right with
      | nil =>
          rw [List.nil_append, List.isChain_cons_cons] at chain'
          have same := chain.1.1.symm.trans chain'.1.1
          exact absurd (Option.some.inj same) fun same => outside (by simp [same])
      | cons first' rest' =>
          rw [List.cons_append, List.isChain_cons_cons] at chain'
          have same := Option.some.inj (chain.1.1.symm.trans chain'.1.1)
          subst same
          rw [ih chain.2 (fun inside => outside (List.mem_cons_of_mem _ inside)) chain'.2
            fun inside => outside' (List.mem_cons_of_mem _ inside)]

omit [DecidableEq α] in
/-- A head reads off one sequence at most. -/
theorem Ring.unique {heap : Heap α} {head : α} {members members' : List α}
    (ring : Ring heap head members) (ring' : Ring heap head members') : members = members' :=
  chain_unique ring.chain (List.nodup_cons.mp ring.nodup).1 ring'.chain
    (List.nodup_cons.mp ring'.nodup).1

omit [DecidableEq α] in
/-- A ring starts at no node but the initialised heads and the members of lists. -/
theorem Represents.ring_started (rep : Represents heap family) (ring : Ring heap head members)
    (apart : ∀ other others, family other = some others → head ∉ others) :
    family head = some members := by
  cases stored : family head with
  | none =>
      have next := ring.next_head
      rw [rep.detached ⟨stored, apart⟩] at next
      cases next
  | some members' => rw [(rep.ring stored).unique ring]

end CircularList
