import Mathlib.Data.Set.Card
import Zeos.Properties.Ownership

set_option autoImplicit false

/-! Page directories: their reference counts, and the pool they come from. -/

namespace Zeos

open CircularList (Ring)
open History (opened released)

namespace Roster

variable {r r' : Roster} {task : TaskId} {sem : SemId} {dir : DirId}

/-! ### In the abstract scheduler -/

theorem opened_opened {other : DirId} {trace : List Note} :
    opened other (.dirOpened dir :: trace) = opened other trace + if dir = other then 1 else 0 := by
  simp [opened, List.count_cons]

theorem opened_released {other : DirId} {trace : List Note} :
    opened other (.dirReleased dir :: trace) = opened other trace := by
  simp [opened]

theorem released_opened {other : DirId} {trace : List Note} :
    released other (.dirOpened dir :: trace) = released other trace := by
  simp [released]

theorem released_released {other : DirId} {trace : List Note} :
    released other (.dirReleased dir :: trace) =
      released other trace + if dir = other then 1 else 0 := by
  simp [released, List.count_cons]

/-- No directory was handed out or released, and no count has changed. -/
structure SameSpaces (r r' : Roster) : Prop where
  opened : ∀ dir, opened dir r'.trace = opened dir r.trace
  released : ∀ dir, released dir r'.trace = released dir r.trace
  dirCount : r'.dirCount = r.dirCount

theorem SameSpaces.refl (r : Roster) : SameSpaces r r := ⟨fun _ => rfl, fun _ => rfl, rfl⟩

theorem SameSpaces.trans {r'' : Roster} (first : SameSpaces r r') (second : SameSpaces r' r'') :
    SameSpaces r r'' :=
  ⟨fun dir => (second.opened dir).trans (first.opened dir),
    fun dir => (second.released dir).trans (first.released dir),
    second.dirCount.trans first.dirCount⟩

theorem SameSpaces.of_same (trace : r'.trace = r.trace) (dirCount : r'.dirCount = r.dirCount) :
    SameSpaces r r' :=
  ⟨fun _ => by rw [trace], fun _ => by rw [trace], dirCount⟩

/-- Notes about other things do not matter. -/
theorem SameSpaces.of_notes (notes : List Note) (trace : r'.trace = notes ++ r.trace)
    (dirCount : r'.dirCount = r.dirCount)
    (others : ∀ dir, Note.dirOpened dir ∉ notes ∧ Note.dirReleased dir ∉ notes) :
    SameSpaces r r' := by
  refine ⟨fun dir => ?_, fun dir => ?_, dirCount⟩
  · rw [trace, History.opened, List.count_append, List.count_eq_zero.mpr (others dir).1,
      Nat.zero_add]
    rfl
  · rw [trace, History.released, List.count_append, List.count_eq_zero.mpr (others dir).2,
      Nat.zero_add]
    rfl

theorem SameSpaces.of_note {entry : Note} (trace : r'.trace = entry :: r.trace)
    (dirCount : r'.dirCount = r.dirCount)
    (others : ∀ dir, Note.dirOpened dir ≠ entry ∧ Note.dirReleased dir ≠ entry) :
    SameSpaces r r' := by
  apply SameSpaces.of_notes [entry] trace dirCount
  intro dir
  simpa using others dir

theorem sameSpaces_yield : SameSpaces r r.yield := by
  unfold yield
  split
  · exact .of_same rfl rfl
  · exact .refl r

theorem sameSpaces_popKeys (size : Nat) (buffer : DWord) : ∀ (count : Nat) (r : Roster),
    SameSpaces r (r.popKeys size buffer count).1 := by
  induction size with
  | zero => exact fun _ r => .refl r
  | succ size ih =>
      intro count r
      rw [popKeys]
      split
      · exact .refl r
      · rename_i key rest _
        have noted : SameSpaces r ({ r with pending := rest }.note
            (.delivered r.current (buffer + BitVec.ofNat 32 count) key)) :=
          .of_note rfl rfl (by simp)
        exact noted.trans (ih (count + 1) _)

theorem sameSpaces_readLoop {buffer : DWord} {totalSize size : Int} :
    SameSpaces r (r.readLoop buffer totalSize size) := by
  unfold readLoop
  split
  · exact .of_same rfl rfl
  · exact .of_note rfl rfl (by simp)

theorem sameSpaces_readFirst {buffer : DWord} {totalSize : Int} :
    SameSpaces r (r.readFirst buffer totalSize) :=
  (sameSpaces_popKeys _ _ _ _).trans sameSpaces_readLoop

theorem sameSpaces_read {buffer : DWord} {size : Int} : SameSpaces r (r.read buffer size) := by
  have noted : SameSpaces r (r.note (.readCalled r.current buffer size.toNat)) :=
    .of_note rfl rfl (by simp)
  unfold Roster.read
  dsimp only
  split
  · exact noted.trans sameSpaces_readFirst
  · exact noted.trans (.of_same rfl rfl)

theorem sameSpaces_semDestroy {owner : TaskId} :
    SameSpaces r (Roster.semDestroy owner r sem) := by
  rw [semDestroy_eq]
  apply SameSpaces.of_notes ((r.queue (.waiters sem)).reverse.map (.semAborted sem) ++
    [.semDestroyed sem])
  · simp
  · rfl
  · intro dir
    simp

theorem sameSpaces_destroyAll {owner : TaskId} (sems : List SemId) : ∀ r : Roster,
    SameSpaces r (sems.foldl (Roster.semDestroy owner) r) := by
  induction sems with
  | nil => exact fun r => .refl r
  | cons sem rest ih => exact fun r => sameSpaces_semDestroy.trans (ih _)

theorem sameSpaces_waitReturn : SameSpaces r r.waitReturn := by
  unfold waitReturn
  split
  · exact .of_note rfl rfl (by simp)
  · exact .of_note rfl rfl (by simp)

/-- A directory in use was handed out once more than it was released. -/
def Spaced (r : Roster) : Prop :=
  ∀ dir, opened dir r.trace = released dir r.trace + if r.dirCount dir = 0 then 0 else 1

theorem SameSpaces.spaced (same : SameSpaces r r') (spaced : Spaced r) : Spaced r' := by
  intro dir
  rw [same.opened, same.released, same.dirCount]
  exact spaced dir

/-- An exit releases the directory of the dying task if no other task uses it. -/
theorem exit_spaces (r : Roster) (dir : DirId) :
    opened dir r.exit.trace = opened dir r.trace ∧
    released dir r.exit.trace = released dir r.trace +
      (if dir = (r.task r.current).dir.getD 0 ∧ r.dirCount dir = 1 then 1 else 0) ∧
    r.exit.dirCount dir =
      if dir = (r.task r.current).dir.getD 0 then r.dirCount dir - 1 else r.dirCount dir := by
  have destroyed := @sameSpaces_destroyAll r.current (r.owned r.current) r.retire
  have after : SameSpaces r.retire r.exit := by
    rw [exit_eq]
    exact ⟨destroyed.opened, destroyed.released, destroyed.dirCount⟩
  rw [after.opened, after.released, after.dirCount, retire_eq]
  dsimp only
  generalize (r.task r.current).dir.getD 0 = own
  refine ⟨?_, ?_, ?_⟩
  · split
    · exact opened_released
    · rfl
  · by_cases last : r.dirCount own - 1 = 0
    · rw [if_pos last, released_released]
      congr 1
      apply if_congr _ rfl rfl
      constructor
      · intro same
        exact ⟨same.symm, by rw [← same]; omega⟩
      · intro both
        exact both.1.symm
    · rw [if_neg last, if_neg, Nat.add_zero]
      intro both
      rw [both.1] at both
      omega
  · rw [Function.update_apply]
    split
    · rename_i same
      rw [same]
    · rfl

/-- A fork hands out one directory, and no step but an exit releases any. -/
theorem Step.spaces {label : Option Action} {seen : Seen} (step : Step seen r label r')
    (alive : label ≠ some (.call .exit)) (sound : Sound r) (spaced : Spaced r) :
    Spaced r' ∧ ∀ dir, released dir r'.trace = released dir r.trace := by
  have same : SameSpaces r r' →
      Spaced r' ∧ ∀ dir, released dir r'.trace = released dir r.trace :=
    fun same => ⟨same.spaced spaced, same.released⟩
  cases step with
  | quiet => exact same (.refl r)
  | preempt =>
      have switched : SameSpaces r.yield (r.yield.schedNext .handler) := .of_same rfl rfl
      exact same (sameSpaces_yield.trans switched)
  | press => exact same (.of_note rfl rfl (by simp))
  | wake value key reader rest =>
      have accepted : SameSpaces r (r.accept key) := .of_note rfl rfl (by simp)
      have woken : SameSpaces (r.accept key).yield ((r.accept key).wake reader) :=
        .of_same rfl rfl
      exact same (accepted.trans (sameSpaces_yield.trans woken))
  | fork task dir others dirs user busy pool spare =>
      have unused : r.dirCount dir = 0 := (sound.identity.spare dir).mp (by simp [spare])
      refine ⟨fun other => ?_, fun other => ?_⟩
      · change opened other (.dirOpened dir :: r.trace) =
          released other (.dirOpened dir :: r.trace) +
            if Function.update r.dirCount dir 1 other = 0 then 0 else 1
        have before := spaced other
        rw [opened_opened, released_opened]
        by_cases mine : other = dir
        · subst mine
          rw [unused, if_pos rfl] at before
          rw [if_pos rfl, before, Function.update_self]
          rfl
        · rw [if_neg (Ne.symm mine), Nat.add_zero, before, Function.update_of_ne mine]
      · exact released_opened
  | clone function stack exitFunc task dir others user busy pool housed =>
      refine ⟨fun other => ?_, fun other => rfl⟩
      have occupied : 0 < dirUsers (fun t => (r.task t).dir) dir :=
        dirUsers_pos.mpr ⟨r.current, housed⟩
      have counted := sound.identity.counted dir
      have before := spaced other
      change opened other r.trace = released other r.trace +
        if Function.update r.dirCount dir (r.dirCount dir + 1) other = 0 then 0 else 1
      rw [before, Function.update_apply]
      by_cases mine : other = dir
      · rw [mine, if_neg (by omega), if_neg (by rw [if_pos rfl]; omega)]
      · rw [if_neg mine]
  | exit => exact absurd rfl alive
  | read => exact same sameSpaces_read
  | semInit => exact same (.of_note rfl rfl (by simp))
  | semTake => exact same (.of_note rfl rfl (by simp))
  | semBlock => exact same (.of_note rfl rfl (by simp))
  | semRaise => exact same (.of_note rfl rfl (by simp))
  | semGrant => exact same (.of_note rfl rfl (by simp))
  | semDestroy => exact same sameSpaces_semDestroy
  | resume => exact same (.of_same rfl rfl)
  | resumeWait =>
      have entered : SameSpaces r { r with mode := .user } := .of_same rfl rfl
      exact same (entered.trans sameSpaces_waitReturn)
  | resumeFirst =>
      have entered : SameSpaces r { r with mode := .user } := .of_same rfl rfl
      exact same (entered.trans sameSpaces_readFirst)
  | resumeLoop =>
      have entered : SameSpaces r { r with mode := .user } := .of_same rfl rfl
      exact same (entered.trans ((sameSpaces_popKeys _ _ _ _).trans sameSpaces_readLoop))

end Roster

/-! ### In the kernel -/

variable {k k' : Kernel} {r : Roster} {task : TaskId} {dir : DirId}

/-- The task structs not on `free_queue` that run in a directory. -/
def Kernel.usersOf (k : Kernel) (dir : DirId) : Set TaskId :=
  { task | ¬ k.onList .freeQueue (.anchor task) ∧ (k.tasks task).dirPagesBaseAddr = some dir }

/-- The count of each directory is exact. Those with count 0 are on `free_dirs` once
and the others on no list. A directory has been released as often as it was handed
out, but for its present use. -/
structure Kernel.DirsExact (k : Kernel) : Prop where
  counted : ∀ dir, k.dirCount dir = (k.usersOf dir).ncard
  spare : ∀ dir, k.dirCount dir = 0 → k.onList .freeDirs (.dirAnchor dir)
  alone : ∀ dir head members, head.isHead = true → Ring k.links head members →
    .dirAnchor dir ∈ members → head = .freeDirs ∧ k.dirCount dir = 0
  lifetimes : ∀ dir, opened dir k.trace =
    released dir k.trace + if k.dirCount dir = 0 then 0 else 1

theorem Refines.freeQueue_iff (ref : Refines k r) (sound : Roster.Sound r) :
    k.onList .freeQueue (.anchor task) ↔ ¬ r.live task := by
  rw [show Node.freeQueue = Queue.free.head from rfl, ref.onQueue_iff sound]
  constructor
  · intro member alive
    exact alive (sound.queues.tagged member)
  · intro dead
    have invalid : (r.task task).state = .invalid := Decidable.of_not_not dead
    by_cases idle : task = r.idle
    · exact absurd (idle ▸ sound.identity.idle) dead
    · by_cases mine : task = r.current
      · rw [mine, sound.running.state] at invalid
        cases invalid
      · obtain ⟨q, member⟩ := sound.running.others task idle mine
        have state := sound.queues.tagged member
        rw [invalid] at state
        cases q with
        | free => exact member
        | ready => cases state
        | readers => cases state
        | waiters sem => cases state

theorem Refines.usersOf_eq (ref : Refines k r) (sound : Roster.Sound r) (dir : DirId) :
    k.usersOf dir = { task | (r.task task).dir = some dir } := by
  ext task
  have housed : (k.tasks task).dirPagesBaseAddr = (r.task task).dir :=
    congrArg TaskCore.dir (ref.core task)
  simp only [Kernel.usersOf, Set.mem_ofPred_eq, ref.freeQueue_iff sound, not_not, housed]
  constructor
  · exact And.right
  · intro own
    refine ⟨(sound.identity.housed task).mpr ?_, own⟩
    rw [own]
    simp

theorem Refines.dirsExact (ref : Refines k r) (sound : Roster.Sound r)
    (spaced : Roster.Spaced r) : k.DirsExact where
  counted dir := by
    rw [ref.dirCount, sound.identity.counted, ref.usersOf_eq sound, dirUsers,
      Set.ncard_eq_toFinset_card']
    simp
  spare dir unused := by
    rw [ref.dirCount] at unused
    rw [ref.onList_iff rfl]
    exact ⟨_, rfl, List.mem_map.mpr ⟨dir, (sound.identity.spare dir).mpr unused, rfl⟩⟩
  alone dir head members isHead ring inside := by
    rcases family_member ((ref.ring_iff isHead).mp ring) inside with ⟨_, _, _, same, _⟩ | ⟨d, list, same, member⟩ |
      ⟨_, _, _, same, _⟩
    · cases same
    · cases same
      rw [ref.dirCount]
      exact ⟨list, (sound.identity.spare dir).mp member⟩
    · cases same
  lifetimes dir := by
    rw [ref.trace, ref.dirCount]
    exact spaced dir

/-- The pool is empty when its list is. -/
theorem Refines.pool_empty (ref : Refines k r) :
    Ring k.links .freeQueue [] ↔ r.queue .free = [] := by
  rw [ref.ring_iff rfl]
  change some ((r.queue .free).map Node.anchor) = some [] ↔ _
  simp

/-- `allocate_process` fails only without a free task struct, and then does nothing. -/
theorem Refines.allocate_fails (ref : Refines k r) (sound : Roster.Sound r)
    (choice : Option DirId) :
    ((k.allocateProcess choice).2 = none ↔ Ring k.links .freeQueue []) ∧
      ((k.allocateProcess choice).2 = none → (k.allocateProcess choice).1 = k) := by
  rw [ref.pool_empty]
  have failed : r.queue .free = [] → k.allocateProcess choice = (k, none) →
      ((k.allocateProcess choice).2 = none ↔ r.queue .free = []) ∧
      ((k.allocateProcess choice).2 = none → (k.allocateProcess choice).1 = k) := by
    intro empty same
    rw [same]
    exact ⟨iff_of_true rfl empty, fun _ => rfl⟩
  have done : ∀ task others, r.queue .free = task :: others →
      (k.allocateProcess choice).2 = some task →
      ((k.allocateProcess choice).2 = none ↔ r.queue .free = []) ∧
      ((k.allocateProcess choice).2 = none → (k.allocateProcess choice).1 = k) := by
    intro task others pool made
    rw [made, pool]
    simp
  cases choice with
  | none =>
      rcases ref.allocateNew sound with ⟨empty, same⟩ | ⟨task, others, _, _, pool, _, made, _⟩
      · exact failed empty same
      · exact done task others pool made
  | some dir =>
      rcases ref.allocateShared sound dir with ⟨empty, same⟩ | ⟨task, others, pool, made, _⟩
      · exact failed empty same
      · exact done task others pool made

/-- A new address space gets a directory that no live task uses. -/
theorem Refines.allocate_fresh (ref : Refines k r) (sound : Roster.Sound r)
    (made : (k.allocateProcess none).2 = some task) :
    ∃ dir, ((k.allocateProcess none).1.tasks task).dirPagesBaseAddr = some dir ∧
      k.usersOf dir = ∅ := by
  rcases ref.allocateNew sound with ⟨_, same⟩ | ⟨task', others, dir, dirs, _, spare, made', after⟩
  · rw [same] at made
    cases made
  · rw [made'] at made
    cases made
    refine ⟨dir, ?_, ?_⟩
    · have housed := congrArg TaskCore.dir (after.core task)
      simpa [Roster.allocate, Roster.setTask, TaskStruct.core] using housed
    · rw [ref.usersOf_eq sound]
      have unused : r.dirCount dir = 0 := (sound.identity.spare dir).mp (by simp [spare])
      rw [sound.identity.counted] at unused
      ext other
      simp only [Set.mem_ofPred_eq, Set.mem_empty_iff_false, iff_false]
      intro housed
      have occupied : 0 < dirUsers (fun t => (r.task t).dir) dir := dirUsers_pos.mpr ⟨other, housed⟩
      omega

/-- Pages are released by an exit, when no other task uses the directory. -/
def Kernel.releases (k : Kernel) (label : Option Action) (dir : DirId) : Bool :=
  label = some (.call .exit) ∧ k.currentTask.dirPagesBaseAddr = some dir ∧ k.dirCount dir = 1

/-- The bookkeeping of directories over one step. -/
theorem Refines.step_spaces (ref : Refines k r) (sound : Roster.Sound r)
    (spaced : Roster.Spaced r) {label : Option Action} (stepped : k.step label = some k') :
    ∃ r', Refines k' r' ∧ Roster.Sound r' ∧ Roster.Spaced r' ∧
      ∀ dir, released dir k'.trace =
        released dir k.trace + if k.releases label dir then 1 else 0 := by
  by_cases exits : label = some (.call .exit)
  · subst exits
    obtain ⟨mode, busy, rfl⟩ := step_exit stepped
    have user : r.mode = .user := ref.mode.symm.trans mode
    rw [ref.current, ref.idle] at busy
    have entered : Refines k.updateEnteringSys r := ref.of_view view_updateEnteringSys
    have after : Refines k.updateEnteringSys.sysExit.1.leave r.exit :=
      (entered.sysExit sound user busy).of_view view_leave
    have housed : (r.task r.current).dir ≠ none :=
      (sound.identity.housed r.current).mp (Roster.live_of_running sound.running)
    obtain ⟨own, mine⟩ := Option.ne_none_iff_exists'.mp housed
    have table : k.currentTask.dirPagesBaseAddr = some own := by
      rw [← mine, ← ref.core, Kernel.currentTask, ref.current]
      rfl
    refine ⟨r.exit, after, sound.step (@Roster.Step.exit k.seen r user busy), ?_, ?_⟩
    · intro dir
      obtain ⟨openings, releases, count⟩ := Roster.exit_spaces r dir
      rw [mine, Option.getD_some] at releases count
      rw [openings, releases, spaced dir]
      by_cases same : dir = own
      · have occupied : 0 < dirUsers (fun t => (r.task t).dir) dir :=
          dirUsers_pos.mpr ⟨r.current, same ▸ mine⟩
        have counted := sound.identity.counted dir
        rw [if_pos same] at count
        rw [count, if_neg (by omega)]
        by_cases last : r.dirCount dir = 1
        · rw [if_pos ⟨same, last⟩, if_pos (by omega)]
        · rw [if_neg (fun both => last both.2), if_neg (by omega)]
      · rw [if_neg same] at count
        have kept : ¬ (dir = own ∧ r.dirCount dir = 1) := fun both => same both.1
        rw [count, if_neg kept, Nat.add_zero]
    · intro dir
      rw [after.trace, ref.trace, (Roster.exit_spaces r dir).2.1, mine]
      simp only [Kernel.releases, table, ref.dirCount, Option.getD_some, true_and,
        decide_eq_true_eq, Option.some.injEq]
      congr 1
      exact if_congr (and_congr_left' eq_comm) rfl rfl
  · obtain ⟨r', step, after, _⟩ := ref.step sound stepped
    obtain ⟨spaced', same⟩ := step.spaces exits sound spaced
    refine ⟨r', after, sound.step step, spaced', fun dir => ?_⟩
    rw [after.trace, ref.trace, same dir]
    simp [Kernel.releases, exits]

theorem reachable_spaced (reached : Reachable anyAction k) :
    ∃ r, Refines k r ∧ Roster.Sound r ∧ Roster.Spaced r := by
  refine reached.invariant (fun k => ∃ r, Refines k r ∧ Roster.Sound r ∧ Roster.Spaced r) ?_ ?_
  · rintro _ ⟨image, rfl⟩
    refine ⟨Roster.boot, boot_refines image, Roster.boot_sound, ?_⟩
    unfold Roster.Spaced
    decide
  · rintro k label k' ⟨r, ref, sound, spaced⟩ _ stepped
    obtain ⟨r', after, sound', spaced', _⟩ := ref.step_spaces sound spaced stepped
    exact ⟨r', after, sound', spaced'⟩

/-- Directories in every state reached: their counts are exact; `allocate_process`,
as a system call runs it, fails only without a free task struct and then changes
nothing; a new directory has no user; and pages are released exactly by the exit
of the last user. -/
theorem directory_counts {k : Kernel} (reached : Reachable anyAction k) :
    k.DirsExact ∧
    (∀ choice, let k' := k.updateEnteringSys
      ((k'.allocateProcess choice).2 = none ↔ Ring k.links .freeQueue []) ∧
        ((k'.allocateProcess choice).2 = none → (k'.allocateProcess choice).1 = k')) ∧
    (∀ task, let k' := k.updateEnteringSys
      (k'.allocateProcess none).2 = some task →
        ∃ dir, ((k'.allocateProcess none).1.tasks task).dirPagesBaseAddr = some dir ∧
          k.usersOf dir = ∅) ∧
    ∀ label k' dir, k.step label = some k' →
      released dir k'.trace = released dir k.trace + if k.releases label dir then 1 else 0 := by
  obtain ⟨r, ref, sound, spaced⟩ := reachable_spaced reached
  have entered : Refines k.updateEnteringSys r := ref.of_view view_updateEnteringSys
  refine ⟨ref.dirsExact sound spaced, fun choice => ?_, fun task made => ?_,
    fun label k' dir stepped => ?_⟩
  · have fails := entered.allocate_fails sound choice
    rw [entered.pool_empty, ← ref.pool_empty] at fails
    exact fails
  · obtain ⟨dir, housed, unused⟩ := entered.allocate_fresh sound made
    rw [entered.usersOf_eq sound, ← ref.usersOf_eq sound] at unused
    exact ⟨dir, housed, unused⟩
  · obtain ⟨_, _, _, _, releases⟩ := ref.step_spaces sound spaced stepped
    exact releases dir

/-- A process with a child and a thread, after the child has exited. -/
theorem directory_counts_shared :
    let k := Kernel.after everyStep [some (.call .fork), some (.call (.clone 0x100000 0x110000 0)),
      some (.call (.semInit 0 0)), some (.call (.semWait 0)), none, some (.call .exit), none]
    k.DirsExact ∧
    (∀ choice, let k' := k.updateEnteringSys
      ((k'.allocateProcess choice).2 = none ↔ Ring k.links .freeQueue []) ∧
        ((k'.allocateProcess choice).2 = none → (k'.allocateProcess choice).1 = k')) ∧
    (∀ task, let k' := k.updateEnteringSys
      (k'.allocateProcess none).2 = some task →
        ∃ dir, ((k'.allocateProcess none).1.tasks task).dirPagesBaseAddr = some dir ∧
          k.usersOf dir = ∅) ∧
    ∀ label k' dir, k.step label = some k' →
      released dir k'.trace = released dir k.trace + if k.releases label dir then 1 else 0 :=
  directory_counts (reached_after (by decide +kernel)).any

end Zeos
