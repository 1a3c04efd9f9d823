import Zeos.Pids
import Zeos.Space.Boot
import Zeos.Space.Stores
import Zeos.Write

set_option autoImplicit false

/-! PIDs name tasks, and `sys_get_stats` finds the task of a PID. -/

namespace Zeos

open Kernel

variable {k k' : Kernel} {r r' : Roster} {task : TaskId} {pids : List Int}

/-- A task struct in use. -/
def Kernel.alive (k : Kernel) (task : TaskId) : Prop := (k.tasks task).state ≠ .invalid

instance : Decidable (k.alive task) := inferInstanceAs (Decidable (_ ≠ _))

/-- The PIDs of the tasks that are alive only after the step. -/
def Kernel.issued (k k' : Kernel) : List Int :=
  ((List.finRange nrTasks).filter fun t => ¬ k.alive t ∧ k'.alive t).map fun t => (k'.tasks t).pid

/-- A run from boot, and the PIDs issued in it. -/
inductive Issued : Kernel → List Int → Prop where
  | boot (image : Image) : Issued (Kernel.boot image) [1, 0]
  | next {k k' : Kernel} {pids : List Int} (label : Option Action) : Issued k pids →
      k.step label = some k' → Issued k' (k.issued k' ++ pids)

/-! ### PIDs issued in a run -/

theorem Refines.alive_iff (ref : Refines k r) : k.alive task ↔ r.live task := by
  rw [Kernel.alive, Roster.live, ← ref.core]
  rfl

theorem Refines.pid (ref : Refines k r) : (k.tasks task).pid = (r.task task).pid := by
  rw [← ref.core]
  rfl

/-- What a run keeps. -/
structure Numbered (k : Kernel) (pids : List Int) (r : Roster) : Prop where
  ref : Refines k r
  sound : Roster.Sound r
  slots : r.PidSound
  distinct : pids.Nodup
  below : ∀ p ∈ pids, p < r.lastPid

theorem Numbered.boot (image : Image) : Numbered (Kernel.boot image) [1, 0] Roster.boot := by
  refine ⟨boot_refines image, Roster.boot_sound, ?_, by decide, ?_⟩
  · refine ⟨rfl, rfl, ?_, ?_⟩
    · decide
    · decide
  · decide

/-- No task comes alive when no PID is issued. -/
theorem Numbered.same (before : Numbered k pids r) (ref : Refines k' r') (sound : Roster.Sound r')
    (same : r.SamePids r') : k.issued k' = [] := by
  rw [Kernel.issued, List.map_eq_nil_iff, List.filter_eq_nil_iff]
  intro t _ born
  obtain ⟨dead, alive⟩ := of_decide_eq_true born
  rw [before.ref.alive_iff, before.sound.identity.housed] at dead
  rw [ref.alive_iff, sound.identity.housed] at alive
  rcases same.dir t with kept | gone
  · rw [kept] at alive
    exact dead alive
  · exact alive gone

/-- A new task has the next PID. -/
theorem Numbered.spawned (before : Numbered k pids r) (ref : Refines k' r')
    (spawns : r.Spawns r' task) {p : Int} (member : p ∈ k.issued k') : p = r.lastPid := by
  rw [Kernel.issued, List.mem_map] at member
  obtain ⟨t, born, rfl⟩ := member
  obtain ⟨dead, alive⟩ := of_decide_eq_true (List.mem_filter.mp born).2
  rw [before.ref.alive_iff] at dead
  rw [ref.alive_iff] at alive
  have mine : t = task := by
    by_contra other
    rw [Roster.live, spawns.others t other] at alive
    exact dead alive
  rw [ref.pid, mine, spawns.pid]

/-- The tasks that come alive have different PIDs. -/
theorem issued_nodup (ref : Refines k' r') (sound : Roster.Sound r') : (k.issued k').Nodup := by
  rw [Kernel.issued]
  apply List.Nodup.map_on
  · intro t member t' member' same
    have alive := (of_decide_eq_true (List.mem_filter.mp member).2).2
    have alive' := (of_decide_eq_true (List.mem_filter.mp member').2).2
    rw [ref.alive_iff] at alive alive'
    rw [ref.pid, ref.pid] at same
    exact sound.identity.distinct t t' alive alive' same
  · exact (List.nodup_finRange nrTasks).filter _

theorem Issued.numbered (run : Issued k pids) : ∃ r, Numbered k pids r := by
  induction run with
  | boot image => exact ⟨Roster.boot, .boot image⟩
  | next label run stepped ih =>
      obtain ⟨r, before⟩ := ih
      obtain ⟨r', step, ref, _⟩ := before.ref.step before.sound stepped
      have sound := before.sound.step step
      have slots := before.slots.step before.sound.queues before.sound.identity.idle step
      refine ⟨r', ?_⟩
      rcases step.pids before.sound.queues with same | ⟨task, spawns⟩
      · rw [before.same ref sound same, List.nil_append]
        refine ⟨ref, sound, slots, before.distinct, ?_⟩
        rw [same.lastPid]
        exact before.below
      · have fresh := fun p => @Numbered.spawned _ _ _ _ _ _ before ref spawns p
        refine ⟨ref, sound, slots, ?_, ?_⟩
        · rw [List.nodup_append]
          refine ⟨issued_nodup ref sound, before.distinct, fun p new q old same => ?_⟩
          have earlier := before.below q old
          have newest := fresh p new
          omega
        · intro p member
          rw [spawns.lastPid]
          rcases List.mem_append.mp member with new | old
          · have newest := fresh p new
            omega
          · have earlier := before.below p old
            omega

theorem Issued.reachable (run : Issued k pids) : Reachable anyAction k := by
  induction run with
  | boot image => exact .start ⟨image, rfl⟩
  | next label run stepped ih => exact .next label ih trivial stepped

/-! ### Looking up a PID -/

/-- The slot at which the search stops, for the PID of a live task. -/
theorem find_alive (slots : r.PidSound) (sound : Roster.Sound r) (ref : Refines k r)
    (alive : k.alive task) :
    ((List.finRange nrTasks).find? fun i => (k.tasks i).pid == (k.tasks task).pid) = some task := by
  by_cases zero : (k.tasks task).pid = 0
  · have idle : k.alive 0 := by
      rw [ref.alive_iff, ← slots.idle]
      exact sound.identity.idle
    have first : (k.tasks 0).pid = 0 := by rw [ref.pid, slots.zero]
    have mine : task = 0 := by
      apply sound.identity.distinct _ _ (ref.alive_iff.mp alive) (ref.alive_iff.mp idle)
      rw [← ref.pid, ← ref.pid, zero, first]
    rw [mine]
    exact List.find?_cons_of_pos (beq_self_eq_true _)
  · obtain ⟨i, found⟩ : ∃ i, ((List.finRange nrTasks).find? fun i =>
        (k.tasks i).pid == (k.tasks task).pid) = some i := by
      rw [← Option.isSome_iff_exists, List.find?_isSome]
      exact ⟨task, List.mem_finRange task, beq_self_eq_true _⟩
    have same : (k.tasks i).pid = (k.tasks task).pid := by
      simpa using List.find?_some found
    have mine : i = task := by
      apply slots.unique
      · rw [← ref.pid, ← ref.pid, same]
      · rw [← ref.pid, same]
        exact zero
    rw [found, mine]

/-- What `sys_get_stats` comes to: the statistics of the live task with this PID are stored
and no other task is touched, or there is no such task and nothing changes. -/
structure Kernel.StatsAnswered (k : Kernel) (pid : Int) (st : DWord) : Prop where
  found : ∀ t, k.alive t → (k.tasks t).pid = pid →
    (k.sysGetStats pid st).1.stuck = false ∧ (k.sysGetStats pid st).2 = 0 ∧
    (∀ i < 28, (statsBytes ((k.sysGetStats pid st).1.tasks t).st)[i]? =
      some ((k.sysGetStats pid st).1.byteAt (st + BitVec.ofNat 32 i))) ∧
    ∀ other, other ≠ t → (k.sysGetStats pid st).1.tasks other = k.tasks other
  absent : (∀ t, k.alive t → (k.tasks t).pid ≠ pid) → k.sysGetStats pid st = (k, -ESRCH)

/-- The pointer check lets the call go on. -/
theorem accepted {st : DWord} (some : st ≠ 0) (access : k.accessOk .write st 28 = true) :
    ¬ (st = 0 ∨ (!k.accessOk .write st 28) = true) := by
  intro refused
  rcases refused with null | denied
  · exact some null
  · rw [access] at denied
    cases denied

theorem sysGetStats_absent {pid : Int} {st : DWord} (positive : 0 ≤ pid) (some : st ≠ 0)
    (access : k.accessOk .write st 28 = true)
    (none : ∀ t, k.alive t → (k.tasks t).pid ≠ pid) : k.sysGetStats pid st = (k, -ESRCH) := by
  unfold sysGetStats
  rw [if_neg (by omega), if_neg (accepted some access)]
  cases found : (List.finRange nrTasks).find? fun i => (k.tasks i).pid == pid with
  | none => rfl
  | some i =>
      have same : (k.tasks i).pid = pid := by simpa using List.find?_some found
      have dead : (k.tasks i).state = .invalid := by
        by_contra alive
        exact none i alive same
      exact if_pos dead

/-- The state in which the statistics are copied: those of a waiting task are refreshed. -/
def Kernel.refreshed (k : Kernel) (task : TaskId) : Kernel :=
  if (k.tasks task).state = .ready ∨ (k.tasks task).state = .blocked then
    k.updateStats task .refresh else k

theorem sysGetStats_found {pid : Int} {st : DWord} (positive : 0 ≤ pid) (some : st ≠ 0)
    (access : k.accessOk .write st 28 = true) (alive : k.alive task)
    (found : ((List.finRange nrTasks).find? fun i => (k.tasks i).pid == pid) = Option.some task) :
    k.sysGetStats pid st =
      ((k.refreshed task).kernelStores st (statsBytes ((k.refreshed task).tasks task).st), 0) := by
  unfold sysGetStats
  rw [if_neg (by omega), if_neg (accepted some access), found]
  dsimp only
  rw [if_neg alive]
  rfl

theorem space_refreshed : (k.refreshed task).space = k.space := by
  rw [Kernel.refreshed]
  split
  · exact space_updateStats
  · rfl

theorem stuck_refreshed : (k.refreshed task).stuck = k.stuck := by
  rw [Kernel.refreshed]
  split
  · rename_i waits
    exact stuck_updateStats fun _ => waits
  · rfl

theorem tasks_refreshed {other : TaskId} (different : other ≠ task) :
    (k.refreshed task).tasks other = k.tasks other := by
  rw [Kernel.refreshed]
  split
  · exact tasks_updateStats different
  · rfl

theorem statsBytes_length (st : Stats) : (statsBytes st).length = 28 := rfl

/-- The lookup, for a pointer that passed the check. -/
theorem answered_iff (slots : r.PidSound) (sound : Roster.Sound r) (ref : Refines k r)
    (laid : k.space.Laid) (running : k.stuck = false) {pid : Int} {st : DWord}
    (positive : 0 ≤ pid) (some : st ≠ 0) (access : k.accessOk .write st 28 = true) :
    k.StatsAnswered pid st ↔ ((∃ t, k.alive t ∧ (k.tasks t).pid = pid) →
      ∀ i < 28, k.present (st + BitVec.ofNat 32 i) = true) := by
  obtain ⟨home, owner⟩ := ref.owner sound
  have shape : ∀ t, k.alive t → (k.tasks t).pid = pid → k.sysGetStats pid st =
      ((k.refreshed t).kernelStores st (statsBytes ((k.refreshed t).tasks t).st), 0) := by
    intro t alive same
    apply sysGetStats_found positive some access alive
    rw [← same]
    exact find_alive slots sound ref alive
  have laid' : ∀ t, (k.refreshed t).space.Laid := by
    intro t
    rw [space_refreshed]
    exact laid
  have sameMm : ∀ t, (k.refreshed t).mm = k.mm := fun t => congrArg Space.mm space_refreshed
  constructor
  · intro answered hit i below
    obtain ⟨t, alive, same⟩ := hit
    obtain ⟨goes, _⟩ := answered.found t alive same
    by_contra missing
    rw [Bool.not_eq_true] at missing
    have owner' : (k.refreshed t).space.dir (k.refreshed t).current = Option.some home := by
      have current : (k.refreshed t).current = k.current := congrArg Space.current space_refreshed
      rw [space_refreshed, current]
      exact owner
    have stuck := @kernelStores_missing home (statsBytes ((k.refreshed t).tasks t).st)
      (k.refreshed t) st (laid' t) owner' ⟨i, below, by rw [sameMm]; exact missing⟩
    rw [shape t alive same, stuck] at goes
    cases goes
  · intro mapped
    constructor
    · intro t alive same
      have all := mapped ⟨t, alive, same⟩
      obtain ⟨⟨ram, stores, after⟩, bytes, _⟩ :=
        kernelStores_all (statsBytes ((k.refreshed t).tasks t).st) (k.refreshed t) st
          (by rw [statsBytes_length]; decide) (stuck_refreshed.trans running) (fun i below => by
            rw [kernelWritable_eq (laid' t), sameMm]
            exact all i below)
      rw [shape t alive same]
      dsimp only
      refine ⟨?_, rfl, ?_, ?_⟩
      · rw [after]
        exact stuck_refreshed.trans running
      · intro i below
        have kept : ((k.refreshed t).kernelStores st
            (statsBytes ((k.refreshed t).tasks t).st)).tasks = (k.refreshed t).tasks := by
          rw [after]
        rw [kept]
        exact bytes i below
      · intro other different
        rw [after]
        exact tasks_refreshed different
    · exact sysGetStats_absent positive some access

/-- In every run: no PID is issued twice, live tasks have different PIDs, and in the handler of
`get_stats` a pointer that passes the check is answered, unless there is something to store
and a byte of the block is on a page that is not mapped. -/
theorem pids_identify (run : Issued k pids) :
    pids.Nodup ∧
    (∀ t t', k.alive t → k.alive t' → (k.tasks t).pid = (k.tasks t').pid → t = t') ∧
    ∀ (pid st : DWord) (k' : Kernel), 0 ≤ pid.toInt →
      k.step (some (.call (.getStats pid st))) = some k' →
      st ≠ 0 → k.updateEnteringSys.accessOk .write st 28 = true →
      (k.updateEnteringSys.StatsAnswered pid.toInt st ↔
        ((∃ t, k.alive t ∧ (k.tasks t).pid = pid.toInt) →
          ∀ i < 28, k.present (st + BitVec.ofNat 32 i) = true)) := by
  obtain ⟨r, numbered⟩ := run.numbered
  refine ⟨numbered.distinct, ?_, ?_⟩
  · intro t t' alive alive' same
    rw [numbered.ref.pid, numbered.ref.pid] at same
    exact numbered.sound.identity.distinct t t' (numbered.ref.alive_iff.mp alive)
      (numbered.ref.alive_iff.mp alive') same
  · intro pid st k' positive stepped some access
    have running : k.stuck = false := by simpa using stuck_step stepped
    have ref : Refines k.updateEnteringSys r := numbered.ref.of_view view_updateEnteringSys
    have space : k.updateEnteringSys.space = k.space := space_updateEnteringSys
    have laid : k.updateEnteringSys.space.Laid := by
      rw [space]
      exact reachable_laid run.reachable running
    have runs : k.updateEnteringSys.stuck = false :=
      (@stuck_updateStats { k with handling := true } k.current .userToSys nofun).trans running
    have mm : k.updateEnteringSys.mm = k.mm := congrArg Space.mm space
    have hit : (∃ t, k.updateEnteringSys.alive t ∧ (k.updateEnteringSys.tasks t).pid = pid.toInt) ↔
        ∃ t, k.alive t ∧ (k.tasks t).pid = pid.toInt := by
      simp only [ref.alive_iff, numbered.ref.alive_iff, ref.pid, numbered.ref.pid]
    have answer := answered_iff numbered.slots numbered.sound ref laid runs positive some access
    simp only [hit, Kernel.present, mm] at answer
    exact answer

/-- The first task has forked and exited, and its child runs. -/
def forkedAndExited : Kernel :=
  Kernel.after everyStep [some (.call .fork), some (.call .exit), none]

theorem issued_forkedAndExited : Issued forkedAndExited [2, 1, 0] := by
  have forked := Issued.next (some (.call .fork)) (.boot Image.empty)
    (@step_after everyStep [] _ (by decide +kernel))
  have exited := Issued.next (some (.call .exit)) forked
    (@step_after everyStep [some (.call .fork)] _ (by decide +kernel))
  have resumed := Issued.next none exited
    (@step_after everyStep [some (.call .fork), some (.call .exit)] _ (by decide +kernel))
  have pids : (Kernel.after everyStep [some (.call .fork), some (.call .exit)]).issued
      forkedAndExited ++
      ((Kernel.after everyStep [some (.call .fork)]).issued
        (Kernel.after everyStep [some (.call .fork), some (.call .exit)]) ++
      ((Kernel.boot Image.empty).issued (Kernel.after everyStep [some (.call .fork)]) ++ [1, 0])) =
      [2, 1, 0] := by decide +kernel
  exact pids ▸ resumed

theorem pids_identify_exit :
    [(2 : Int), 1, 0].Nodup ∧
    (∀ t t', forkedAndExited.alive t → forkedAndExited.alive t' →
      (forkedAndExited.tasks t).pid = (forkedAndExited.tasks t').pid → t = t') ∧
    ∀ (pid st : DWord) (k' : Kernel), 0 ≤ pid.toInt →
      forkedAndExited.step (some (.call (.getStats pid st))) = some k' →
      st ≠ 0 → forkedAndExited.updateEnteringSys.accessOk .write st 28 = true →
      (forkedAndExited.updateEnteringSys.StatsAnswered pid.toInt st ↔
        ((∃ t, forkedAndExited.alive t ∧ (forkedAndExited.tasks t).pid = pid.toInt) →
          ∀ i < 28, forkedAndExited.present (st + BitVec.ofNat 32 i) = true)) :=
  pids_identify issued_forkedAndExited

/-- A pointer ten bytes before the end of the data pages passes the check, and the store of the
statistics breaks the machine. -/
theorem pids_identify_counterexample :
    let k := (Kernel.boot Image.empty).updateEnteringSys
    k.accessOk .write 0x11bff6 28 = true ∧ k.alive 1 ∧ (k.tasks 1).pid = 1 ∧
      ¬ k.StatsAnswered 1 0x11bff6 := by
  intro k
  have alive : k.alive 1 := by decide +kernel
  have mine : (k.tasks 1).pid = 1 := by decide +kernel
  have stuck : (k.sysGetStats 1 0x11bff6).1.stuck = true := by decide +kernel
  refine ⟨by decide +kernel, alive, mine, fun answered => ?_⟩
  have goes := (answered.found 1 alive mine).1
  rw [stuck] at goes
  cases goes

end Zeos
