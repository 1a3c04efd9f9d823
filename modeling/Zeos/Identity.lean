import Mathlib.Data.Fintype.EquivFin
import Zeos.Effects

set_option autoImplicit false

/-! Processes as such: PIDs, and the page directory each live task runs in. -/

namespace Zeos

/-- The number of tasks in each directory. -/
def dirUsers (dir : TaskId → Option DirId) (d : DirId) : Nat :=
  (Finset.univ.filter fun t => dir t = some d).card

variable {dir : TaskId → Option DirId} {task : TaskId} {d d' : DirId}

/-- A task that had no directory joins one. -/
theorem dirUsers_join (homeless : dir task = none) :
    dirUsers (Function.update dir task (some d)) d' =
      dirUsers dir d' + if d' = d then 1 else 0 := by
  by_cases same : d' = d
  · have members : (Finset.univ.filter fun t => Function.update dir task (some d) t = some d') =
        insert task (Finset.univ.filter fun t => dir t = some d') := by
      ext t
      simp only [Function.update_apply, Finset.mem_filter, Finset.mem_univ, true_and,
        Finset.mem_insert]
      by_cases mine : t = task <;> simp [mine, same]
    rw [dirUsers, members, Finset.card_insert_of_notMem (by simp [homeless]), if_pos same, dirUsers]
  · rw [if_neg same, Nat.add_zero, dirUsers, dirUsers]
    congr 1
    ext t
    simp only [Function.update_apply, Finset.mem_filter, Finset.mem_univ, true_and]
    by_cases mine : t = task
    · simp [mine, homeless, Ne.symm same]
    · simp [mine]

/-- A task leaves its directory. -/
theorem dirUsers_leave (housed : dir task = some d) :
    dirUsers dir d' = dirUsers (Function.update dir task none) d' + if d' = d then 1 else 0 := by
  have back : dir = Function.update (Function.update dir task none) task (some d) := by
    rw [Function.update_idem, ← housed, Function.update_eq_self]
  conv_lhs => rw [back]
  exact dirUsers_join (Function.update_self ..)

theorem dirUsers_pos : 0 < dirUsers dir d ↔ ∃ t, dir t = some d := by
  rw [dirUsers, Finset.card_pos]
  constructor
  · rintro ⟨t, member⟩
    exact ⟨t, (Finset.mem_filter.mp member).2⟩
  · rintro ⟨t, housed⟩
    exact ⟨t, Finset.mem_filter.mpr ⟨Finset.mem_univ t, housed⟩⟩

namespace Roster

/-- Live tasks have distinct PIDs and a directory; each directory counts its
tasks, and the spare ones are on `free_dirs`. -/
structure IdentitySound (r : Roster) : Prop where
  idle : r.live r.idle
  born : ∀ t, r.live t → r.born t = true
  fresh : ∀ t, r.live t → (r.task t).pid < r.lastPid
  distinct : ∀ t t', r.live t → r.live t' → (r.task t).pid = (r.task t').pid → t = t'
  housed : ∀ t, r.live t ↔ (r.task t).dir ≠ none
  counted : ∀ d, r.dirCount d = dirUsers (fun t => (r.task t).dir) d
  spare : ∀ d, d ∈ r.freeDirs ↔ r.dirCount d = 0
  spareDistinct : r.freeDirs.Nodup

variable {r r' : Roster} {task : TaskId} {sem : SemId}

theorem IdentitySound.frame (sound : IdentitySound r) (frame : Frame r r') :
    IdentitySound r' where
  idle := by
    rw [frame.idle, frame.live]
    exact sound.idle
  born t alive := by
    rw [frame.born]
    exact sound.born t ((frame.live t).mp alive)
  fresh t alive := by
    rw [frame.pid, frame.lastPid]
    exact sound.fresh t ((frame.live t).mp alive)
  distinct t t' alive alive' same := by
    rw [frame.pid, frame.pid] at same
    exact sound.distinct t t' ((frame.live t).mp alive) ((frame.live t').mp alive') same
  housed t := by
    rw [frame.live, frame.dir]
    exact sound.housed t
  counted d := by
    rw [frame.dirCount, sound.counted]
    simp only [frame.dir]
  spare d := by
    rw [frame.freeDirs, frame.dirCount]
    exact sound.spare d
  spareDistinct := by
    rw [frame.freeDirs]
    exact sound.spareDistinct

/-- There are as many directories as task structs: while a task struct is free, so
is a directory. -/
theorem IdentitySound.spare_dir (sound : IdentitySound r) (dead : ¬ r.live task) :
    r.freeDirs ≠ [] := by
  intro none
  have occupied : ∀ d, ∃ t, (r.task t).dir = some d := by
    intro d
    have used : r.dirCount d ≠ 0 := by
      intro unused
      have member := (sound.spare d).mpr unused
      rw [none] at member
      cases member
    have counted := sound.counted d
    exact dirUsers_pos.mp (by omega)
  choose user housed using occupied
  have injective : Function.Injective user := by
    intro d d' same
    have own := housed d
    rw [same, housed d'] at own
    exact (Option.some.inj own).symm
  obtain ⟨d, mine⟩ := Finite.injective_iff_surjective.mp injective task
  apply dead
  rw [sound.housed, ← mine, housed]
  simp

/-- Semaphores do not matter here; a destruction makes its waiters ready. -/
theorem IdentitySound.semDestroy (sound : IdentitySound r) (queues : r.QueueSound) {owner : TaskId} :
    IdentitySound (semDestroy owner r sem) := by
  rw [semDestroy_eq]
  have liveSame : ∀ t, (if t ∈ r.queue (.waiters sem) then
      { r.task t with state := .ready, aborted := true } else r.task t).state ≠ .invalid ↔
      r.live t := by
    intro t
    split
    · rename_i inside
      exact iff_of_true (by simp) (live_of_mem queues inside (by simp))
    · exact Iff.rfl
  have pidSame : ∀ t, (if t ∈ r.queue (.waiters sem) then
      { r.task t with state := .ready, aborted := true } else r.task t).pid = (r.task t).pid := by
    intro t
    split <;> rfl
  have dirSame : ∀ t, (if t ∈ r.queue (.waiters sem) then
      { r.task t with state := .ready, aborted := true } else r.task t).dir = (r.task t).dir := by
    intro t
    split <;> rfl
  refine ⟨(liveSame _).mpr sound.idle, ?_, ?_, ?_, ?_, ?_, sound.spare, sound.spareDistinct⟩
  · intro t alive
    exact sound.born t ((liveSame t).mp alive)
  · intro t alive
    exact (pidSame t).symm ▸ sound.fresh t ((liveSame t).mp alive)
  · intro t t' alive alive' same
    exact sound.distinct t t' ((liveSame t).mp alive) ((liveSame t').mp alive')
      ((pidSame t).symm.trans (same.trans (pidSame t')))
  · intro t
    exact (liveSame t).trans ((sound.housed t).trans (by rw [dirSame]))
  · intro d
    simp only [dirSame]
    exact sound.counted d

theorem IdentitySound.congr (sound : IdentitySound r) (task : r'.task = r.task)
    (born : r'.born = r.born) (freeDirs : r'.freeDirs = r.freeDirs)
    (dirCount : r'.dirCount = r.dirCount) (idle : r'.idle = r.idle)
    (lastPid : r'.lastPid = r.lastPid) : IdentitySound r' := by
  have live : r'.live = r.live := by
    funext t
    rw [Roster.live, task, Roster.live]
  refine ⟨?_, ?_, ?_, ?_, ?_, ?_, ?_, ?_⟩
  · rw [live, idle]
    exact sound.idle
  · rw [live, born]
    exact sound.born
  · rw [live, task, lastPid]
    exact sound.fresh
  · rw [live, task]
    exact sound.distinct
  · rw [live, task]
    exact sound.housed
  · rw [dirCount, task]
    exact sound.counted
  · rw [freeDirs, dirCount]
    exact sound.spare
  · rw [freeDirs]
    exact sound.spareDistinct

/-- A directory gets one more user, and `freeDirs` are left. -/
def enter (r : Roster) (dir : DirId) (freeDirs : List DirId) : Roster :=
  { r with freeDirs := freeDirs
           dirCount := Function.update r.dirCount dir (r.dirCount dir + 1) }

/-- The pool gives a task struct, and `dir` is counted once more. -/
theorem IdentitySound.spawn (sound : IdentitySound r) {others : List TaskId} {dir : DirId}
    {start : Resume} {task : TaskId} {freeDirs : List DirId}
    (pool : r.queue .free = task :: others) (dead : ¬ r.live task)
    (spare : ∀ d, d ∈ freeDirs ↔ d ∈ r.freeDirs ∧ d ≠ dir) (distinct : freeDirs.Nodup) :
    IdentitySound (((r.enter dir freeDirs).allocate task dir).launch task start) := by
  have homeless : (r.task task).dir = none := by
    by_contra housed
    exact dead ((sound.housed task).mpr housed)
  have notIdle : r.idle ≠ task := by
    rintro same
    exact dead (same ▸ sound.idle)
  have dirs : (fun t => (Function.update r.task task
      ⟨TaskState.ready, start, false, r.lastPid, some dir⟩ t).dir) =
      Function.update (fun t => (r.task t).dir) task (some dir) := by
    funext t
    simp only [Function.update_apply]
    split <;> rfl
  have liveIff : ∀ t, (Function.update r.task task
      ⟨TaskState.ready, start, false, r.lastPid, some dir⟩ t).state ≠ .invalid ↔
      t = task ∨ r.live t := by
    intro t
    rw [Function.update_apply]
    split
    · rename_i same
      exact iff_of_true (by simp) (Or.inl same)
    · rename_i different
      simp [different, live]
  rw [@spawn_eq _ task others]
  case pool => exact pool
  unfold enter
  refine ⟨?_, ?_, ?_, ?_, ?_, ?_, ?_, distinct⟩
  · exact (liveIff _).mpr (Or.inr sound.idle)
  · intro t alive
    rw [live, liveIff] at alive
    simp only [Function.update_apply]
    split
    · rfl
    · rename_i different
      exact sound.born t (alive.resolve_left different)
  · intro t alive
    rw [live, liveIff] at alive
    simp only [Function.update_apply]
    split
    · exact Int.lt_succ _
    · rename_i different
      have := sound.fresh t (alive.resolve_left different)
      omega
  · intro t t' alive alive' same
    rw [live, liveIff] at alive alive'
    simp only [Function.update_apply] at same
    split at same <;> split at same
    · rename_i mine mine'
      rw [mine, mine']
    · rename_i mine different
      have := sound.fresh t' (alive'.resolve_left different)
      simp only at same
      omega
    · rename_i different mine'
      have := sound.fresh t (alive.resolve_left different)
      simp only at same
      omega
    · rename_i different different'
      exact sound.distinct t t' (alive.resolve_left different) (alive'.resolve_left different') same
  · intro t
    rw [live, liveIff]
    simp only [Function.update_apply]
    split
    · rename_i mine
      simp [mine]
    · rename_i different
      simp only [different, false_or]
      exact sound.housed t
  · intro d
    rw [dirs, dirUsers_join homeless]
    simp only [Function.update_apply]
    have counted := sound.counted d
    split
    · rename_i same
      rw [← same, counted]
      rfl
    · rw [counted]
      rfl
  · intro d
    simp only [Function.update_apply, spare, sound.spare]
    split
    · rename_i same
      have counted := sound.counted d
      rw [← same]
      refine iff_of_false (by simp) ?_
      omega
    · rename_i different
      simp [different]

/-- The running task leaves its directory, which is spare if it was the last. -/
theorem IdentitySound.retire (sound : IdentitySound r) (alive : r.live r.current)
    (busy : r.current ≠ r.idle) : IdentitySound r.retire := by
  obtain ⟨dir, housed⟩ := Option.ne_none_iff_exists'.mp ((sound.housed r.current).mp alive)
  have dirs : (fun t => (Function.update r.task r.current
      { r.task r.current with state := .invalid, dir := none } t).dir) =
      Function.update (fun t => (r.task t).dir) r.current none := by
    funext t
    simp only [Function.update_apply]
    split <;> rfl
  have liveIff : ∀ t, (Function.update r.task r.current
      { r.task r.current with state := .invalid, dir := none } t).state ≠ .invalid ↔
      t ≠ r.current ∧ r.live t := by
    intro t
    rw [Function.update_apply]
    split
    · rename_i same
      simp [same]
    · rename_i different
      simp [different, live]
  have leave : ∀ d, dirUsers (fun t => (r.task t).dir) d =
      dirUsers (Function.update (fun t => (r.task t).dir) r.current none) d +
        if d = dir then 1 else 0 := fun _ => dirUsers_leave housed
  rw [retire_eq]
  simp only [housed, Option.getD_some]
  refine ⟨?_, ?_, ?_, ?_, ?_, ?_, ?_, ?_⟩
  · exact (liveIff _).mpr ⟨Ne.symm busy, sound.idle⟩
  · intro t aliveT
    rw [live, liveIff] at aliveT
    exact sound.born t aliveT.2
  · intro t aliveT
    rw [live, liveIff] at aliveT
    simp only [Function.update_of_ne aliveT.1]
    exact sound.fresh t aliveT.2
  · intro t t' aliveT aliveT' same
    rw [live, liveIff] at aliveT aliveT'
    simp only [Function.update_of_ne aliveT.1, Function.update_of_ne aliveT'.1] at same
    exact sound.distinct t t' aliveT.2 aliveT'.2 same
  · intro t
    rw [live, liveIff]
    simp only [Function.update_apply]
    split
    · rename_i same
      simp [same]
    · rename_i different
      simp only [ne_eq, different, not_false_eq_true, true_and]
      exact sound.housed t
  · intro d
    rw [dirs]
    simp only [Function.update_apply]
    have counted := sound.counted d
    have left := leave d
    split
    · rename_i same
      rw [if_pos same] at left
      rw [← same]
      omega
    · rename_i different
      rw [if_neg different] at left
      omega
  · intro d
    simp only [Function.update_apply]
    have spareDir := sound.spare dir
    have spareD := sound.spare d
    have used : 0 < dirUsers (fun t => (r.task t).dir) dir := dirUsers_pos.mpr ⟨_, housed⟩
    have counted := sound.counted dir
    by_cases same : d = dir
    · subst same
      split
      · rename_i last
        simp [last]
      · rename_i shared
        rw [if_pos rfl, spareD]
        omega
    · rw [if_neg same]
      split
      · simp [same, spareD]
      · exact spareD
  · have used : 0 < dirUsers (fun t => (r.task t).dir) dir := dirUsers_pos.mpr ⟨_, housed⟩
    have counted := sound.counted dir
    split
    · refine List.nodup_cons.mpr ⟨?_, sound.spareDistinct⟩
      rw [sound.spare]
      omega
    · exact sound.spareDistinct

end Roster

end Zeos
