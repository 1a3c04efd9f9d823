import Mathlib.Data.Set.Insert
import Mathlib.Logic.Function.Basic

set_option autoImplicit false

/-! Translation tables behind a cache: the processor may cache an entry of the table in use at
any moment, and forgets it when the table is changed for another or the page faults. -/

namespace Tlb

universe u v w

variable {Dir : Type u} {Page : Type v} {Target : Type w}

/-- The tables, and the one in use. -/
@[ext] structure Mmu (Dir : Type u) (Page : Type v) (Target : Type w) where
  table : Dir → Page → Option Target
  root : Option Dir

inductive Event (Dir : Type u) (Page : Type v) (Target : Type w) where
  | write (dir : Dir) (page : Page) (entry : Option Target)
  | load (root : Option Dir)
  | fault (page : Page)

/-- The translation that the tables give. -/
def Mmu.walk (mmu : Mmu Dir Page Target) (page : Page) : Option Target :=
  mmu.root.bind fun dir => mmu.table dir page

/-- A set of cached translations. -/
abbrev Cache (Page : Type v) (Target : Type w) := Set (Page × Target)

/-- What stays in the cache. -/
def Event.kept : Event Dir Page Target → Cache Page Target → Cache Page Target
  | .write _ _ _, cache => cache
  | .load _, _ => ∅
  | .fault page, cache => { cached ∈ cache | cached.1 ≠ page }

/-- Every cached translation is the one that the tables give. -/
def Coherent (mmu : Mmu Dir Page Target) (cache : Cache Page Target) : Prop :=
  ∀ cached ∈ cache, mmu.walk cached.1 = some cached.2

theorem Coherent.insert {mmu : Mmu Dir Page Target} {cache : Cache Page Target} {page : Page}
    {target : Target} (coherent : Coherent mmu cache) (here : mmu.walk page = some target) :
    Coherent mmu (insert (page, target) cache) := by
  intro cached member
  rcases Set.mem_insert_iff.mp member with same | old
  · rw [same]
    exact here
  · exact coherent cached old

variable [DecidableEq Dir] [DecidableEq Page]

def Mmu.after (mmu : Mmu Dir Page Target) : Event Dir Page Target → Mmu Dir Page Target
  | .write dir page entry =>
      { mmu with table := Function.update mmu.table dir
                  (Function.update (mmu.table dir) page entry) }
  | .load root => { mmu with root := root }
  | .fault _ => mmu

/-- The tables after some events, the first one first. -/
def Mmu.run (mmu : Mmu Dir Page Target) (events : List (Event Dir Page Target)) :
    Mmu Dir Page Target :=
  events.foldl Mmu.after mmu

/-- What the cache may be after some events: between any two it is filled from the table in
use. -/
inductive Filled : Mmu Dir Page Target → Cache Page Target → List (Event Dir Page Target) →
    Cache Page Target → Prop where
  | done {mmu : Mmu Dir Page Target} {cache : Cache Page Target} : Filled mmu cache [] cache
  | fill {mmu : Mmu Dir Page Target} {cache cache' : Cache Page Target}
      {events : List (Event Dir Page Target)} (page : Page) (target : Target) :
      mmu.walk page = some target → Filled mmu (insert (page, target) cache) events cache' →
      Filled mmu cache events cache'
  | next {mmu : Mmu Dir Page Target} {cache cache' : Cache Page Target}
      {events : List (Event Dir Page Target)} (event : Event Dir Page Target) :
      Filled (mmu.after event) (event.kept cache) events cache' →
      Filled mmu cache (event :: events) cache'

/-- The events leave a coherent cache coherent. -/
def Steady (mmu : Mmu Dir Page Target) (events : List (Event Dir Page Target)) : Prop :=
  ∀ cache cache', Coherent mmu cache → Filled mmu cache events cache' →
    Coherent (mmu.run events) cache'

variable {mmu : Mmu Dir Page Target} {cache cache' : Cache Page Target}
  {events events' : List (Event Dir Page Target)} {event : Event Dir Page Target} {dir : Dir}
  {page : Page} {entry : Option Target} {root : Option Dir}

theorem Mmu.run_append : mmu.run (events ++ events') = (mmu.run events).run events' :=
  List.foldl_append

/-- The cache in the middle. -/
theorem Filled.middle (filled : Filled mmu cache (events ++ events') cache') :
    ∃ middle, Filled mmu cache events middle ∧ Filled (mmu.run events) middle events' cache' := by
  generalize all : events ++ events' = list at filled
  induction filled generalizing events with
  | done =>
      obtain ⟨rfl, rfl⟩ := List.append_eq_nil_iff.mp all
      exact ⟨_, .done, .done⟩
  | fill page target here _ ih =>
      obtain ⟨middle, first, second⟩ := ih all
      exact ⟨middle, .fill page target here first, second⟩
  | next event rest ih =>
      cases events with
      | nil =>
          cases all
          exact ⟨_, .done, .next event rest⟩
      | cons first others =>
          cases all
          obtain ⟨middle, before, after⟩ := ih rfl
          exact ⟨middle, .next event before, after⟩

theorem Filled.append {middle : Cache Page Target} (first : Filled mmu cache events middle)
    (second : Filled (mmu.run events) middle events' cache') :
    Filled mmu cache (events ++ events') cache' := by
  induction first with
  | done => exact second
  | fill page target here _ ih => exact .fill page target here (ih second)
  | next event _ ih => exact .next event (ih second)

/-- The cache need not be filled. -/
theorem Filled.unfilled (events : List (Event Dir Page Target)) :
    ∀ mmu : Mmu Dir Page Target, Filled mmu ∅ events ∅ := by
  induction events with
  | nil => exact fun _ => .done
  | cons event rest ih =>
      intro mmu
      have empty : event.kept (∅ : Cache Page Target) = ∅ := by
        cases event with
        | write dir page entry => rfl
        | load root => rfl
        | fault page => exact Set.sep_empty _
      apply Filled.next
      rw [empty]
      exact ih _

theorem Filled.total (events : List (Event Dir Page Target)) :
    ∀ (mmu : Mmu Dir Page Target) (cache : Cache Page Target),
      ∃ cache', Filled mmu cache events cache' := by
  induction events with
  | nil => exact fun _ cache => ⟨cache, .done⟩
  | cons event rest ih =>
      intro mmu cache
      obtain ⟨cache', filled⟩ := ih (mmu.after event) (event.kept cache)
      exact ⟨cache', .next event filled⟩

theorem Steady.nil : Steady mmu [] := by
  intro cache cache' coherent filled
  generalize none : ([] : List (Event Dir Page Target)) = list at filled
  induction filled with
  | done => exact coherent
  | fill page target here _ ih => exact ih (coherent.insert here) none
  | next event _ _ => cases none

theorem Steady.append (first : Steady mmu events) (second : Steady (mmu.run events) events') :
    Steady mmu (events ++ events') := by
  intro cache cache' coherent filled
  obtain ⟨middle, before, after⟩ := filled.middle
  rw [Mmu.run_append]
  exact second middle cache' (first cache middle coherent before) after

/-- One event that keeps what it leaves in the cache coherent. -/
theorem Steady.single
    (kept : ∀ cache, Coherent mmu cache → Coherent (mmu.after event) (event.kept cache)) :
    Steady mmu [event] := by
  intro cache cache' coherent filled
  generalize one : [event] = list at filled
  induction filled with
  | done => cases one
  | fill page target here _ ih => exact ih kept (coherent.insert here) one
  | next event' rest _ =>
      cases one
      exact Steady.nil _ _ (kept _ coherent) rest

theorem Steady.fault : Steady mmu [.fault page] :=
  .single fun _ coherent cached member => coherent cached member.1

/-- After a load of the table in use the cache holds its entries only. -/
theorem Filled.load (filled : Filled mmu cache [.load root] cache') :
    Coherent (mmu.after (.load root)) cache' := by
  generalize one : ([.load root] : List (Event Dir Page Target)) = list at filled
  induction filled with
  | done => cases one
  | fill page target here _ ih => exact ih one
  | next event' rest _ =>
      cases one
      exact Steady.nil _ _ (fun cached member => absurd member (Set.notMem_empty cached)) rest

theorem Steady.load : Steady mmu (events ++ [.load root]) := by
  intro cache cache' _ filled
  obtain ⟨middle, _, after⟩ := filled.middle
  rw [Mmu.run_append]
  exact after.load

/-- An entry that was empty is not cached. -/
theorem Steady.write (empty : mmu.root = some dir → mmu.table dir page = none) :
    Steady mmu [.write dir page entry] := by
  apply Steady.single
  intro cache coherent cached member
  have before := coherent cached member
  obtain ⟨d, used, here⟩ := Option.bind_eq_some_iff.mp before
  show (mmu.root.bind fun d => Function.update mmu.table dir _ d cached.1) = _
  rw [used, Option.bind_some, Function.update_apply]
  split
  · rename_i same
    rw [same] at used here
    rw [Function.update_apply, if_neg]
    · exact here
    · intro place
      rw [place, empty used] at here
      cases here
  · exact here

end Tlb
