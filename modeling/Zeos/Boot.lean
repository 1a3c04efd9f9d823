import Zeos.Simulation

set_option autoImplicit false

/-! The scheduler's part of the state after boot depends on nothing that the boot
loader, the linker or the clock supplies, so it is computed once. -/

namespace Zeos

open CircularList (Heap Represents Loose Ring Adjacent)

variable {k k' : Kernel}

/-! ### What boot does to the scheduler's part -/

theorem links_of_view (same : k'.view = k.view) : k'.links = k.links :=
  congrArg View.links same

theorem core_of_view (same : k'.view = k.view) (task : TaskId) :
    (k'.tasks task).core = (k.tasks task).core :=
  congrFun (congrArg View.core same) task

theorem view_links_congr (change : Heap Node → Heap Node) (same : k'.view = k.view) :
    { k' with links := change k'.links }.view = { k with links := change k.links }.view := by
  have links := links_of_view same
  simp only [Kernel.view, View.mk.injEq] at same ⊢
  exact ⟨congrArg change links, same.2⟩

theorem view_setState_congr (task : TaskId) (state : TaskState) (same : k'.view = k.view) :
    (k'.setState task state).view = (k.setState task state).view := by
  refine view_setTask_congr same ?_
  have core := core_of_view same task
  simp only [TaskStruct.core, TaskCore.mk.injEq] at core ⊢
  exact ⟨trivial, core.2⟩

theorem view_setDir_congr (task : TaskId) (dir : Option DirId) (same : k'.view = k.view) :
    (k'.setDir task dir).view = (k.setDir task dir).view := by
  refine view_setTask_congr same ?_
  have core := core_of_view same task
  simp only [TaskStruct.core, TaskCore.mk.injEq] at core ⊢
  exact ⟨core.1, core.2.1, core.2.2.1, core.2.2.2.1, trivial⟩

theorem view_setDirCount_congr (dir : DirId) (count : Int) (same : k'.view = k.view) :
    (k'.setDirCount dir count).view = (k.setDirCount dir count).view := by
  have counts : k'.dirCount = k.dirCount := congrArg View.dirCount same
  simp only [Kernel.view, View.mk.injEq, Kernel.setDirCount] at same ⊢
  exact ⟨same.1, same.2.1, same.2.2.1, by rw [counts], same.2.2.2.2⟩

theorem view_note_congr (entry : Note) (same : k'.view = k.view) :
    (k'.note entry).view = (k.note entry).view := by
  have trace : k'.trace = k.trace := congrArg View.trace same
  simp only [Kernel.view, View.mk.injEq, Kernel.note] at same ⊢
  obtain ⟨links, core, sems, counts, current, idle, mode, lastPid, _, rest⟩ := same
  exact ⟨links, core, sems, counts, current, idle, mode, lastPid, by rw [trace], rest⟩

theorem view_updateProcessState_congr (task : TaskId) (dest : Option Node) (first : Bool)
    (same : k'.view = k.view) : (k'.updateProcessState task dest first).view =
      (k.updateProcessState task dest first).view := by
  have links := links_of_view same
  unfold Kernel.updateProcessState
  dsimp only
  rw [links]
  generalize unlinked' : (if (k.links (.anchor task)).next ≠ none ∧
      (k.links (.anchor task)).prev ≠ none then
    { k' with links := listDel k.links (.anchor task) } else k') = k₁'
  generalize unlinked : (if (k.links (.anchor task)).next ≠ none ∧
      (k.links (.anchor task)).prev ≠ none then
    { k with links := listDel k.links (.anchor task) } else k) = k₁
  have taken : k₁'.view = k₁.view := by
    rw [← unlinked', ← unlinked]
    split
    · have removed := view_links_congr (listDel · (.anchor task)) same
      rw [links] at removed
      exact removed
    · exact same
  cases dest with
  | none => exact view_setState_congr task .run taken
  | some dest =>
      dsimp only
      cases first
      · have added := view_links_congr (listAddTail · (.anchor task) dest) taken
        simp only [Bool.false_eq_true, ↓reduceIte]
        split
        · exact view_setState_congr task .ready added
        · split
          · exact view_setState_congr task .invalid added
          · exact view_setState_congr task .blocked added
      · have added := view_links_congr (listAdd · (.anchor task) dest) taken
        simp only [↓reduceIte]
        split
        · exact view_setState_congr task .ready added
        · split
          · exact view_setState_congr task .invalid added
          · exact view_setState_congr task .blocked added

theorem view_allocateDIR_congr (task : TaskId) (same : k'.view = k.view) :
    (k'.allocateDIR task).1.view = (k.allocateDIR task).1.view ∧
      (k'.allocateDIR task).2 = (k.allocateDIR task).2 := by
  unfold Kernel.allocateDIR
  rw [links_of_view same]
  split
  · exact ⟨same, rfl⟩
  · split
    · rename_i dir _
      refine ⟨view_note_congr (.dirOpened dir)
        (view_setDirCount_congr dir 1 (view_setDir_congr task (some dir) ?_)), rfl⟩
      have taken := view_links_congr (listDel · (.dirAnchor dir)) same
      rw [links_of_view same] at taken
      exact taken
    · exact ⟨same, rfl⟩

theorem view_initProcess_congr (task : TaskId) (same : k'.view = k.view) :
    (k'.initProcess task).view = (k.initProcess task).view := by
  have core : (fun t => ((k'.initProcess task).tasks t).core) =
      fun t => ((k.initProcess task).tasks t).core := by
    funext t
    have before : (fun t => (k'.tasks t).core) = fun t => (k.tasks t).core :=
      congrArg View.core same
    have pid : k'.lastPid = k.lastPid := congrArg View.lastPid same
    rw [initProcess_core, initProcess_core, before, core_of_view same task, pid]
  have links := links_of_view same
  simp only [Kernel.view, View.mk.injEq] at same ⊢
  obtain ⟨_, _, sems, counts, current, idle, mode, lastPid, rest⟩ := same
  exact ⟨by simp only [Kernel.initProcess, Kernel.resetStats, Kernel.setStats, Kernel.setTask,
    links], core, sems, counts, current, idle, mode, congrArg (· + 1) lastPid, rest⟩

theorem view_allocateProcess_congr (same : k'.view = k.view) :
    (k'.allocateProcess none).1.view = (k.allocateProcess none).1.view ∧
      (k'.allocateProcess none).2 = (k.allocateProcess none).2 := by
  unfold Kernel.allocateProcess
  rw [links_of_view same]
  split
  · exact ⟨same, rfl⟩
  · split
    · exact ⟨same, rfl⟩
    · rename_i task _
      obtain ⟨placed, both⟩ := view_allocateDIR_congr task same
      generalize k'.allocateDIR task = made' at placed both ⊢
      generalize k.allocateDIR task = made at placed both ⊢
      obtain ⟨k₁', found'⟩ := made'
      obtain ⟨k₁, found⟩ := made
      change found' = found at both
      rw [both]
      cases found
      · exact ⟨placed, rfl⟩
      · exact ⟨view_initProcess_congr task placed, rfl⟩

/-! ### The stages of boot -/

theorem view_initDirPages_congr (same : k'.view = k.view) :
    k'.initDirPages.view = k.initDirPages.view := by
  unfold Kernel.initDirPages
  have started := view_links_congr (initListHead · .freeDirs) same
  refine Loop.upTo_related nrTasks _ _ (fun (k' k : Kernel) => k'.view = k.view) started ?_
  intro i k' k _ same
  exact view_links_congr (listAdd · (.dirAnchor (Fin.ofNat nrTasks i)) .freeDirs)
    (view_setDirCount_congr _ 0 same)

theorem view_initMm_congr {before after before' after' : Nat} (same : k'.view = k.view) :
    (k'.initMm before' after').view = (k.initMm before after).view := by
  unfold Kernel.initMm
  refine (view_mm.trans ?_).trans view_mm.symm
  exact view_initDirPages_congr same

theorem view_initSched_congr (same : k'.view = k.view) :
    k'.initSched.view = k.initSched.view := by
  unfold Kernel.initSched
  have zero : { k' with currentTicks := 0, lastPid := 0 }.view =
      { k with currentTicks := 0, lastPid := 0 }.view := by
    simp only [Kernel.view, View.mk.injEq] at same ⊢
    obtain ⟨links, core, sems, counts, current, idle, mode, _, rest⟩ := same
    exact ⟨links, core, sems, counts, current, idle, mode, trivial, rest⟩
  have started := view_links_congr (initListHead · .readyqueue)
    (view_links_congr (initListHead · .freeQueue) zero)
  have pooled := Loop.upTo_related nrTasks
    (fun i (k : Kernel) => k.updateProcessStateRr (Fin.ofNat nrTasks i) (some .freeQueue))
    (fun i (k : Kernel) => k.updateProcessStateRr (Fin.ofNat nrTasks i) (some .freeQueue))
    (fun (k' k : Kernel) => k'.view = k.view) started
    fun i _ _ _ same => view_updateProcessState_congr _ _ false same
  have sems := congrArg View.semaphores pooled
  simp only [Kernel.view, View.mk.injEq] at pooled sems ⊢
  exact ⟨pooled.1, pooled.2.1, by rw [sems], pooled.2.2.2⟩

theorem view_initIdle_congr (same : k'.view = k.view) : k'.initIdle.view = k.initIdle.view := by
  unfold Kernel.initIdle
  obtain ⟨made, both⟩ := view_allocateProcess_congr same
  generalize k'.allocateProcess none = allocated' at made both ⊢
  generalize k.allocateProcess none = allocated at made both ⊢
  obtain ⟨k₁', result'⟩ := allocated'
  obtain ⟨k₁, result⟩ := allocated
  change result' = result at both
  rw [both]
  cases result with
  | none => exact made
  | some task =>
      refine view_setState_congr task .ready (view_setTask_congr ?_ ?_)
      · simp only [Kernel.view, View.mk.injEq] at made ⊢
        obtain ⟨links, core, sems, counts, current, _, rest⟩ := made
        exact ⟨links, core, sems, counts, current, trivial, rest⟩
      · have core := core_of_view made task
        simp only [TaskStruct.core, TaskCore.mk.injEq] at core ⊢
        exact ⟨core.1, trivial, core.2.2⟩

theorem view_enter {task : TaskId} (m : Mm) :
    { ({ k with mm := m }.setState task .run).updateStats task .freeToReady with
      current := task }.view = { (k.setState task .run).view with current := task } :=
  congrArg (fun v : View => { v with current := task }) view_updateStats

theorem view_initTask1_congr (same : k'.view = k.view) :
    k'.initTask1.view = k.initTask1.view := by
  unfold Kernel.initTask1
  obtain ⟨made, both⟩ := view_allocateProcess_congr same
  generalize k'.allocateProcess none = allocated' at made both ⊢
  generalize k.allocateProcess none = allocated at made both ⊢
  obtain ⟨k₁', result'⟩ := allocated'
  obtain ⟨k₁, result⟩ := allocated
  change result' = result at both
  rw [both]
  cases result with
  | none => exact made
  | some task =>
      dsimp only
      have ran := view_setState_congr task .run made
      generalize (k₁'.mm.setUserPages (k₁'.getPT task)) = m'
      generalize (k₁.mm.setUserPages (k₁.getPT task)) = m
      exact (view_enter (m'.setCr3 (k₁'.getDIR task))).trans
        ((congrArg (fun v : View => { v with current := task }) ran).trans
          (view_enter (m.setCr3 (k₁.getDIR task))).symm)

theorem view_initKeyboard_congr (same : k'.view = k.view) :
    k'.initKeyboard.view = k.initKeyboard.view := by
  have started := view_links_congr (initListHead · .keyboardqueue) same
  simp only [Kernel.view, View.mk.injEq, Kernel.initKeyboard] at started ⊢
  obtain ⟨links, core, sems, counts, current, idle, mode, lastPid, trace, buffer, _, _⟩ := started
  exact ⟨links, core, sems, counts, current, idle, mode, lastPid, trace, buffer, trivial, trivial⟩

/-- A machine without an image. -/
def Image.empty : Image := ⟨0, 0, fun _ _ => 0, fun _ => 0⟩

theorem boot_view (image : Image) : (Kernel.boot image).view = (Kernel.boot Image.empty).view :=
  view_initKeyboard_congr (view_initTask1_congr (view_initIdle_congr (view_initSched_congr
    (view_initMm_congr rfl))))

/-- The scheduler picks task 0 for the idle process and then task 1. -/
theorem boot_picks (image : Image) :
    ((((Kernel.static image).initMm image.guardBefore image.guardAfter).initSched).allocateProcess
      none).2 = some 0 ∧
    (((((Kernel.static image).initMm image.guardBefore
      image.guardAfter).initSched).initIdle).allocateProcess none).2 = some 1 := by
  have started := view_initSched_congr (@view_initMm_congr (Kernel.static Image.empty)
    (Kernel.static image) 0 0 image.guardBefore image.guardAfter rfl)
  constructor
  · rw [(view_allocateProcess_congr started).2]
    decide +kernel
  · rw [(view_allocateProcess_congr (view_initIdle_congr started)).2]
    decide +kernel

/-! ### The scheduler after boot -/

/-- Idle is task 0 and has the last directory, task 1 runs in the one before. -/
def Roster.boot : Roster where
  queue q := if q = .free then [2, 3, 4, 5, 6, 7, 8, 9] else []
  started _ := false
  owned _ := []
  born task := decide (task = 0 ∨ task = 1)
  freeDirs := [7, 6, 5, 4, 3, 2, 1, 0]
  task task :=
    if task = 0 then ⟨.ready, .cpuIdle, false, 0, some 9⟩
    else if task = 1 then ⟨.run, .exited, false, 1, some 8⟩
    else ⟨.invalid, .exited, false, 0, none⟩
  sem _ := ⟨false, 0, none⟩
  dirCount dir := if dir = 9 ∨ dir = 8 then 1 else 0
  current := 1
  idle := 0
  mode := .user
  lastPid := 2
  pending := []
  trace := [.dirOpened 8, .dirOpened 9]

instance (links : Heap Node) (left right : Node) : Decidable (Adjacent links left right) :=
  inferInstanceAs (Decidable (_ ∧ _))

/-- The lists after boot. -/
theorem boot_lists : Represents (Kernel.boot Image.empty).links Roster.boot.family where
  ring {head members} stored := by
    cases head <;> simp only [Roster.family, Roster.boot, Option.some.injEq, reduceCtorEq,
      Bool.false_eq_true, ↓reduceIte, decide_eq_true_eq] at stored
    case freeQueue => exact stored ▸ ⟨by decide, by decide +kernel⟩
    case readyqueue => exact stored ▸ ⟨by decide, by decide +kernel⟩
    case keyboardqueue => exact stored ▸ ⟨by decide, by decide +kernel⟩
    case freeDirs => exact stored ▸ ⟨by decide, by decide +kernel⟩
    case semaphores task =>
      split at stored
      · rename_i who
        cases stored
        rcases who with rfl | rfl
        · exact ⟨by decide, by decide +kernel⟩
        · exact ⟨by decide, by decide +kernel⟩
      · cases stored
  apart {head other members others node} stored stored' inside inside' := by
    have alone : ∀ {q task}, task ∈ Roster.boot.queue q → q = .free := by
      intro q task member
      by_contra different
      simp [Roster.boot, different] at member
    rcases family_member stored inside with ⟨q, t, rfl, rfl, member⟩ | ⟨d, rfl, rfl, _⟩ |
      ⟨t, s, _, _, member⟩
    · rcases family_member stored' inside' with ⟨q', t', rfl, _, member'⟩ | ⟨_, _, same, _⟩ |
        ⟨_, _, _, same, _⟩
      · rw [alone member, alone member']
      · cases same
      · cases same
    · rcases family_member stored' inside' with ⟨_, _, _, same, _⟩ | ⟨_, rfl, _, _⟩ |
        ⟨_, _, _, same, _⟩
      · cases same
      · rfl
      · cases same
    · cases member
  plain {head members node} stored inside := by
    rcases family_member stored inside with ⟨_, _, _, rfl, _⟩ | ⟨_, _, rfl, _⟩ |
      ⟨_, _, _, rfl, _⟩ <;> rfl
  detached {node} loose := by
    obtain ⟨plain, outside⟩ := loose
    cases node with
    | freeQueue => cases plain
    | readyqueue => cases plain
    | keyboardqueue => cases plain
    | freeDirs => cases plain
    | anchor task =>
        have out := outside .freeQueue _ rfl
        have known : ∀ t : TaskId, t ∈ Roster.boot.queue .free ∨
            (Kernel.boot Image.empty).links.link (.anchor t) = ⟨none, none⟩ := by
          decide +kernel
        exact (known task).resolve_left fun member => out (List.mem_map.mpr ⟨task, member, rfl⟩)
    | dirAnchor dir =>
        have out := outside .freeDirs _ rfl
        have known : ∀ d : DirId, d ∈ Roster.boot.freeDirs ∨
            (Kernel.boot Image.empty).links.link (.dirAnchor d) = ⟨none, none⟩ := by
          decide +kernel
        exact (known dir).resolve_left fun member => out (List.mem_map.mpr ⟨dir, member, rfl⟩)
    | semAnchor sem =>
        have known : ∀ s : SemId,
            (Kernel.boot Image.empty).links.link (.semAnchor s) = ⟨none, none⟩ := by
          decide +kernel
        exact known sem
    | blocked sem =>
        have known : ∀ s : SemId,
            (Kernel.boot Image.empty).links.link (.blocked s) = ⟨none, none⟩ := by
          decide +kernel
        exact known sem
    | semaphores task =>
        have known : ∀ t : TaskId, Roster.boot.born t = true ∨
            (Kernel.boot Image.empty).links.link (.semaphores t) = ⟨none, none⟩ := by
          decide +kernel
        refine (known task).resolve_left fun born => ?_
        rw [Roster.family, if_pos born] at plain
        cases plain

theorem boot_refines (image : Image) : Refines (Kernel.boot image) Roster.boot := by
  refine Refines.of_view (k := Kernel.boot Image.empty) ?_ (boot_view image)
  refine ⟨boot_lists, ?_, ?_, ?_, by decide +kernel, by decide +kernel, by decide +kernel,
    by decide +kernel, by decide +kernel, by decide +kernel, by decide +kernel,
    by decide +kernel⟩
  · have known : ∀ t : TaskId, ((Kernel.boot Image.empty).tasks t).core = Roster.boot.task t := by
      decide +kernel
    exact known
  · rfl
  · have known : ∀ d : DirId, (Kernel.boot Image.empty).dirCount d = Roster.boot.dirCount d := by
      decide +kernel
    exact funext known

/-! ### Soundness after boot -/

namespace Roster

theorem boot_free {q : Queue} {task : TaskId} (member : task ∈ boot.queue q) :
    q = .free ∧ 2 ≤ task.val := by
  by_cases free : q = .free
  · refine ⟨free, ?_⟩
    have known : ∀ t ∈ boot.queue .free, 2 ≤ t.val := by decide
    exact known task (free ▸ member)
  · simp [boot, free] at member

theorem boot_queues : boot.QueueSound where
  nodup q := by
    by_cases free : q = .free
    · rw [free]
      decide
    · simp [boot, free]
  apart {q q' t} member member' := by rw [(boot_free member).1, (boot_free member').1]
  tagged {q t} member := by
    obtain ⟨rfl, beyond⟩ := boot_free member
    have known : ∀ t : TaskId, 2 ≤ t.val → (boot.task t).state = .invalid := by decide
    exact known t beyond
  idleOut q member := by
    have beyond := (boot_free member).2
    exact absurd beyond (by decide)

theorem boot_running : boot.Running where
  out := by
    rintro ⟨q, member⟩
    exact absurd (boot_free member).2 (by decide)
  state := rfl
  others task notIdle notCurrent := by
    have known : ∀ t : TaskId, t ≠ boot.idle → t ≠ boot.current → t ∈ boot.queue .free := by
      decide
    exact ⟨.free, known task notIdle notCurrent⟩

theorem boot_identity : IdentitySound boot where
  idle := nofun
  born t alive := by
    have known : ∀ t : TaskId, (boot.task t).state ≠ .invalid → boot.born t = true := by decide
    exact known t alive
  fresh t alive := by
    have known : ∀ t : TaskId, (boot.task t).state ≠ .invalid →
        (boot.task t).pid < boot.lastPid := by decide
    exact known t alive
  distinct t t' alive alive' same := by
    have known : ∀ t t' : TaskId, (boot.task t).state ≠ .invalid →
        (boot.task t').state ≠ .invalid → (boot.task t).pid = (boot.task t').pid → t = t' := by
      decide
    exact known t t' alive alive' same
  housed t := by
    have known : ∀ t : TaskId, (boot.task t).state ≠ .invalid ↔ (boot.task t).dir ≠ none := by
      decide
    exact known t
  counted d := by
    have known : ∀ d : DirId, boot.dirCount d = dirUsers (fun t => (boot.task t).dir) d := by
      decide
    exact known d
  spare d := by
    have known : ∀ d : DirId, d ∈ boot.freeDirs ↔ boot.dirCount d = 0 := by decide
    exact known d
  spareDistinct := by decide

theorem boot_poised : Poised boot where
  queues := boot_queues
  running := boot_running
  identity := boot_identity
  owners := ⟨fun _ _ => rfl, nofun, nofun, fun s t => ⟨nofun, nofun⟩, fun _ => .nil⟩
  park := by
    refine ⟨?_, rfl, nofun⟩
    intro q t member
    rw [(boot_free member).1]
    trivial
  meter := nofun
  waits := by
    refine ⟨fun _ => rfl, ?_, ?_, ?_, ?_, rfl⟩
    · intro s t member
      exact absurd (boot_free member).1 nofun
    · rintro t s ⟨ready | ⟨switching, _⟩, _⟩
      · exact absurd (boot_free ready).1 (by decide)
      · cases switching
    · intro t flagged
      have known : ∀ t : TaskId, (boot.task t).aborted = false := by decide
      rw [known t] at flagged
      cases flagged
    · intro t due
      exact absurd rfl due

theorem boot_sound : Sound boot where
  toPoised := boot_poised
  reads := by
    refine ⟨by decide, [], [], rfl, nofun, ?_, nofun, nofun, rfl⟩
    rw [openReaders_user rfl]
    exact .nil

theorem boot_room : RoomSound boot where
  hungry t member := by
    rw [openReaders_user rfl] at member
    exact absurd (boot_free member).1 (by decide)
  room _ waiting := absurd rfl waiting

end Roster

/-! ### Runs -/

theorem Reachable.any {admits : Kernel → Option Action → Prop} (reached : Reachable admits k) :
    Reachable anyAction k :=
  reached.mono fun _ _ _ => trivial

def everyStep (_ : Kernel) (_ : Option Action) : Bool := true

/-- The machine without an image after a list of admitted steps. -/
def Kernel.after (admits : Kernel → Option Action → Bool) (labels : List (Option Action)) :
    Kernel :=
  (Transition.run Kernel.step admits (Kernel.boot Image.empty) labels).getD
    (Kernel.boot Image.empty)

theorem reached_after {admits : Kernel → Option Action → Bool} {labels : List (Option Action)}
    (ran : (Transition.run Kernel.step admits (Kernel.boot Image.empty) labels).isSome = true) :
    Reachable (fun k label => admits k label = true) (Kernel.after admits labels) := by
  obtain ⟨k, ended⟩ := Option.isSome_iff_exists.mp ran
  rw [Kernel.after, ended]
  exact Transition.Reachable.of_run (.start ⟨Image.empty, rfl⟩) ended

/-- The last step of such a run. -/
theorem step_after {admits : Kernel → Option Action → Bool} {labels : List (Option Action)}
    {label : Option Action} (ran : (Transition.run Kernel.step admits (Kernel.boot Image.empty)
      (labels ++ [label])).isSome = true) :
    (Kernel.after admits labels).step label =
      some (Kernel.after admits (labels ++ [label])) := by
  obtain ⟨last, ended⟩ := Option.isSome_iff_exists.mp ran
  obtain ⟨middle, before, stepped⟩ := Transition.run_concat ended
  rw [Kernel.after, Kernel.after, ended, before]
  exact stepped

/-- Every state reached by the machine stores a sound state of the abstract scheduler. -/
theorem reachable_sound {admits : Kernel → Option Action → Prop} {k : Kernel}
    (reached : Reachable admits k) : ∃ r, Refines k r ∧ Roster.Sound r := by
  refine reached.invariant (fun k => ∃ r, Refines k r ∧ Roster.Sound r) ?_ ?_
  · rintro _ ⟨image, rfl⟩
    exact ⟨Roster.boot, boot_refines image, Roster.boot_sound⟩
  · rintro k label k' ⟨r, ref, sound⟩ _ stepped
    obtain ⟨r', step, after, _⟩ := ref.step sound stepped
    exact ⟨r', after, sound.step step⟩

end Zeos
