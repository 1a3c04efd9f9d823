import Zeos.Space.Calls

set_option autoImplicit false

/-! Every step of the kernel is a step of the address spaces. -/

namespace Zeos

open Space (Minor Minors Major)

variable {k k' : Kernel} {r : Roster} {task : TaskId} {home dir : DirId}

/-- `pf_rsi` finds no frame for a page that the running task writes to. -/
def Space.Exhausted (label : Option Action) (s s' : Space) : Prop :=
  ∃ addr value home, label = some (.store addr value) ∧ s.dir s.current = some home ∧
    s.Reach (addr.toNat / pageSize) ∧ 2 ≤ s.mm.cowCountMem (s.frame home (addr.toNat / pageSize)) ∧
    s' = { s with mm := s.released home (addr.toNat / pageSize) }

/-! ### Accesses of the user -/

/-- After the handler the store is made, unless the machine is broken. -/
theorem minors_storeAgain (addr : DWord) (value : Byte) : Minors k.space
    (let k₁ := if k.stuck || k.mm.userWritable (addr.toNat / pageSize) then k else k.hang
     if k₁.stuck then k₁ else { k₁ with mm := k₁.mm.poke addr.toNat value }).space := by
  by_cases fine : (k.stuck || k.mm.userWritable (addr.toNat / pageSize)) = true
  · rw [if_pos fine]
    dsimp only
    split
    · exact .refl
    · rename_i running
      rw [Bool.or_eq_true] at fine
      exact .single (.write addr value (fine.resolve_left running))
  · rw [if_neg fine]
    exact .refl

theorem step_userStore (laid : k.space.Laid) (owner : k.space.dir k.current = some home)
    (busy : k.current ≠ k.idleTask) (running : k.stuck = false) (addr : DWord) (value : Byte) :
    Space.Step (some (.store addr value)) k.space (k.userStore addr value).space ∨
      ((k.userStore addr value).stuck = true ∧
        Space.Exhausted (some (.store addr value)) k.space (k.userStore addr value).space) := by
  unfold Kernel.userStore Kernel.storeWith Kernel.withFault
  by_cases fine : k.mm.userWritable (addr.toNat / pageSize) = true
  · left
    rw [if_pos fine]
    dsimp only
    rw [running, if_neg (by decide)]
    exact .minor (.single (.write addr value fine))
  · have denied : k.space.mm.userWritable (addr.toNat / pageSize) = false :=
      Bool.eq_false_iff.mpr fine
    have handled := @handled_pfRsi k home laid owner addr
    rw [if_neg fine]
    dsimp only
    generalize Kernel.pfRsi { k with mm := k.mm.fault (addr.toNat / pageSize) } addr = k₁ at handled ⊢
    have again := @minors_storeAgain k₁ addr value
    dsimp only at again
    cases handled with
    | lost stuck same =>
        left
        rw [stuck, Bool.true_or, if_pos rfl, if_pos stuck, same]
        exact .minor (.single (.miss _))
    | own reach single same =>
        left
        rw [same] at again
        exact .major (.own addr value home busy owner reach denied single) again
    | split frame reach many got same =>
        left
        rw [same] at again
        exact .major (.split addr value home frame busy owner reach denied many got) again
    | exhausted reach many none stuck same =>
        right
        rw [stuck, Bool.true_or, if_pos rfl, if_pos stuck]
        exact ⟨stuck, addr, value, home, rfl, owner, reach, many, same⟩

/-- After the handler the store is made, if the machine goes on. -/
theorem storeAgain_done {addr : DWord} {value : Byte}
    (done : (let k₁ := if k.stuck || k.mm.userWritable (addr.toNat / pageSize) then k else k.hang
      if k₁.stuck then k₁ else { k₁ with mm := k₁.mm.poke addr.toNat value }).stuck = false) :
    k.stuck = false ∧ k.mm.userWritable (addr.toNat / pageSize) = true ∧
      (let k₁ := if k.stuck || k.mm.userWritable (addr.toNat / pageSize) then k else k.hang
       if k₁.stuck then k₁ else { k₁ with mm := k₁.mm.poke addr.toNat value }).space =
        k.space.write addr value := by
  by_cases stuck : k.stuck = true
  · rw [stuck, Bool.true_or, if_pos rfl] at done
    dsimp only at done
    rw [if_pos stuck, stuck] at done
    cases done
  · rw [Bool.not_eq_true] at stuck
    by_cases writable : k.mm.userWritable (addr.toNat / pageSize) = true
    · rw [stuck, writable, Bool.false_or, if_pos rfl]
      dsimp only
      rw [stuck, if_neg (by decide)]
      exact ⟨rfl, rfl, rfl⟩
    · rw [stuck, Bool.false_or, if_neg writable] at done
      cases done

/-- A store of the user that is made: to a page that was writable, or that `pf_rsi` made so. -/
theorem userStore_moves (laid : k.space.Laid) (owner : k.space.dir k.current = some home)
    (busy : k.current ≠ k.idleTask) {addr : DWord} {value : Byte}
    (done : (k.userStore addr value).stuck = false) :
    ∃ s, (s = k.space ∨ Major (some (.store addr value)) k.space s) ∧
      s.mm.userWritable (addr.toNat / pageSize) = true ∧
      (k.userStore addr value).space = s.write addr value := by
  unfold Kernel.userStore Kernel.storeWith Kernel.withFault at done ⊢
  by_cases fine : k.mm.userWritable (addr.toNat / pageSize) = true
  · rw [if_pos fine] at done ⊢
    dsimp only at done ⊢
    refine ⟨k.space, Or.inl rfl, fine, ?_⟩
    split
    · rename_i stuck
      rw [if_pos stuck, stuck] at done
      cases done
    · rfl
  · have denied : k.space.mm.userWritable (addr.toNat / pageSize) = false :=
      Bool.eq_false_iff.mpr fine
    have handled := @handled_pfRsi k home laid owner addr
    rw [if_neg fine] at done ⊢
    dsimp only at done ⊢
    generalize Kernel.pfRsi { k with mm := k.mm.fault (addr.toNat / pageSize) } addr = k₁
      at handled done ⊢
    obtain ⟨running, writable, written⟩ := storeAgain_done done
    have page : k₁.space.mm.userWritable (addr.toNat / pageSize) = true := writable
    refine ⟨k₁.space, ?_, page, written⟩
    cases handled with
    | lost stuck same =>
        rw [stuck] at running
        cases running
    | own reach single same =>
        rw [same]
        exact Or.inr (.own addr value home busy owner reach denied single)
    | split frame reach many got same =>
        rw [same]
        exact Or.inr (.split addr value home frame busy owner reach denied many got)
    | exhausted reach many none stuck same =>
        rw [stuck] at running
        cases running

theorem minors_userLoad (laid : k.space.Laid) (owner : k.space.dir k.current = some home)
    (addr : DWord) : Minors k.space (k.userLoad addr).space := by
  apply minors_load laid owner
  intro both
  rw [Mm.userReadable, both.1, both.2]
  rfl

/-! ### Creation -/

theorem space_initProcess : (k.initProcess task).space = { k.space with
    heapTop := Function.update k.space.heapTop task (BitVec.ofNat 32 heapStart) } := by
  have tops : (fun t => ((k.initProcess task).tasks t).heapTop) =
      Function.update (fun t => (k.tasks t).heapTop) task (BitVec.ofNat 32 heapStart) := by
    funext t
    simp only [Kernel.initProcess, Kernel.resetStats, Kernel.setStats, Kernel.setTask,
      Function.update_apply]
    split
    · simp
    · rfl
  have dirs : (fun t => ((k.initProcess task).tasks t).dirPagesBaseAddr) =
      fun t => (k.tasks t).dirPagesBaseAddr := by
    funext t
    simp only [Kernel.initProcess, Kernel.resetStats, Kernel.setStats, Kernel.setTask,
      Function.update_apply]
    split
    · rename_i same
      simp [same]
    · rfl
  simp only [Kernel.space, tops, dirs]
  rfl

theorem space_setDir {d : Option DirId} : (k.setDir task d).space =
    { k.space with dir := Function.update k.space.dir task d } := by
  have tops : (fun t => ((k.setDir task d).tasks t).heapTop) = fun t => (k.tasks t).heapTop := by
    funext t
    simp only [Kernel.setDir, Kernel.setTask, Function.update_apply]
    split
    · rename_i same
      rw [same]
    · rfl
  have dirs : (fun t => ((k.setDir task d).tasks t).dirPagesBaseAddr) =
      Function.update (fun t => (k.tasks t).dirPagesBaseAddr) task d := by
    funext t
    simp only [Kernel.setDir, Kernel.setTask, Function.update_apply]
    split
    · rfl
    · rfl
  simp only [Kernel.space, tops, dirs]
  rfl

theorem space_allocateDIR {k₁ : Kernel} (got : k.allocateDIR task = (k₁, true)) :
    ∃ d, k₁.space = { k.space with dir := Function.update k.space.dir task (some d) } := by
  unfold Kernel.allocateDIR at got
  split at got
  · cases got
  · split at got
    · rename_i pos _
      cases got
      exact ⟨pos, @space_setDir { k with links := listDel k.links (.dirAnchor pos) } task (some pos)⟩
    · cases got

/-- `allocate_process` gives the task a directory and an empty heap. -/
theorem space_allocateProcess {d : Option DirId} {k₁ : Kernel}
    (got : k.allocateProcess d = (k₁, some task)) : ∃ dir, k₁.space = k.space.join task dir := by
  have born : ∀ (k₂ : Kernel) (dir : DirId),
      k₂.space = { k.space with dir := Function.update k.space.dir task (some dir) } →
      (k₂.initProcess task).space = k.space.join task dir := by
    intro k₂ dir same
    rw [space_initProcess, same]
    rfl
  unfold Kernel.allocateProcess at got
  split at got
  · cases got
  · split at got
    · cases got
    · rename_i other _
      cases d with
      | none =>
          dsimp only at got
          split at got
          · cases got
          · rename_i k₂ chosen
            have same : other = task := Option.some.inj (congrArg Prod.snd got)
            subst same
            obtain ⟨dir, placed⟩ := space_allocateDIR chosen
            refine ⟨dir, ?_⟩
            rw [← born k₂ dir placed]
            exact congrArg Kernel.space (congrArg Prod.fst got).symm
      | some dir =>
          dsimp only at got
          have same : other = task := Option.some.inj (congrArg Prod.snd got)
          subst same
          refine ⟨dir, ?_⟩
          rw [← born (k.reuseDIR dir other) dir (@space_setDir k other (some dir))]
          exact congrArg Kernel.space (congrArg Prod.fst got).symm

/-- The directories the scheduler knows of. -/
theorem Refines.lives (ref : Refines k r) (t : TaskId) : k.space.dir t = (r.task t).dir :=
  congrArg TaskCore.dir (ref.core t)

theorem Refines.free_dir (ref : Refines k r) (sound : Roster.Sound r) {others : List TaskId}
    (pool : r.queue .free = task :: others) : k.space.dir task = none := by
  have inside : task ∈ r.queue .free := by simp [pool]
  have dead : ¬ r.live task := by
    rw [Roster.live, sound.queues.tagged inside]
    exact fun alive => alive rfl
  rw [ref.lives]
  by_contra housed
  exact dead ((sound.identity.housed task).mpr housed)

theorem Refines.spare_unused (ref : Refines k r) (sound : Roster.Sound r) {dirs : List DirId}
    (spare : r.freeDirs = dir :: dirs) (t : TaskId) : k.space.dir t ≠ some dir := by
  intro same
  rw [ref.lives] at same
  have unused : r.dirCount dir = 0 := (sound.identity.spare dir).mp (by simp [spare])
  have occupied : 0 < dirUsers (fun t => (r.task t).dir) dir := dirUsers_pos.mpr ⟨t, same⟩
  rw [sound.identity.counted] at unused
  omega

theorem Refines.owner (ref : Refines k r) (sound : Roster.Sound r) :
    ∃ home, k.space.dir k.current = some home := by
  obtain ⟨home, housed⟩ := Option.ne_none_iff_exists'.mp
    ((sound.identity.housed r.current).mp (Roster.live_of_running sound.running))
  refine ⟨home, ?_⟩
  rw [← housed, ref.current]
  exact congrArg TaskCore.dir (ref.core r.current)

/-- `sys_fork` up to the loops leaves the child with the heap top of its parent. -/
theorem space_forkTask {k₁ : Kernel} {quantum : Int} :
    ((k₁.setTask task { k₁.tasks task with quantum := quantum
                                           heapTop := k₁.currentTask.heapTop }).setTask task
      { (k₁.setTask task { k₁.tasks task with quantum := quantum
                                              heapTop := k₁.currentTask.heapTop }).tasks task with
        kernelEsp := .retFromFork }).space = { k₁.space with
      heapTop := Function.update k₁.space.heapTop task (k₁.space.heapTop k₁.current) } := by
  rw [space_setTask (by rfl) (by rfl)]
  have tops : (fun t => ((k₁.setTask task { k₁.tasks task with
      quantum := quantum, heapTop := k₁.currentTask.heapTop }).tasks t).heapTop) =
      Function.update (fun t => (k₁.tasks t).heapTop) task (k₁.tasks k₁.current).heapTop := by
    funext t
    simp only [Kernel.setTask, Function.update_apply, Kernel.currentTask]
    split
    · rfl
    · rfl
  have dirs : (fun t => ((k₁.setTask task { k₁.tasks task with
      quantum := quantum, heapTop := k₁.currentTask.heapTop }).tasks t).dirPagesBaseAddr) =
      fun t => (k₁.tasks t).dirPagesBaseAddr := by
    funext t
    simp only [Kernel.setTask, Function.update_apply]
    split
    · rename_i same
      rw [same]
    · rfl
  simp only [Kernel.space, tops, dirs]
  rfl

/-- `sys_fork` changes the address spaces once, or not at all. -/
theorem sysFork_moves (ref : Refines k r) (sound : Roster.Sound r)
    (busy : k.current ≠ k.idleTask) : k.sysFork.1.space = k.space ∨
      Major (some (.call .fork)) k.space k.sysFork.1.space := by
  obtain ⟨home, owner⟩ := ref.owner sound
  unfold Kernel.sysFork
  rcases ref.allocateNew sound with ⟨_, same⟩ | ⟨task, others, dir, dirs, pool, spare, taken, made⟩
  · rw [same]
    exact Or.inl rfl
  · have free := ref.free_dir sound pool
    have unused := ref.spare_unused sound spare
    have core := congrArg TaskCore.dir (made.core task)
    generalize allocated : k.allocateProcess none = result at taken core ⊢
    obtain ⟨k₁, chosen⟩ := result
    dsimp only at taken core
    subst taken
    obtain ⟨d, born⟩ := space_allocateProcess allocated
    have same : d = dir := by
      have here : k₁.space.dir task = some d := by
        rw [born]
        exact Function.update_self ..
      have there : k₁.space.dir task = some dir :=
        core.trans (by simp [Roster.allocate, Roster.setTask])
      rw [here] at there
      exact Option.some.inj there
    subst same
    have apart : k.current ≠ task := by
      intro same
      rw [same, free] at owner
      cases owner
    have current : k₁.current = k.current := congrArg Space.current born
    have placed := @space_forkTask task k₁ k₁.currentTask.quantum
    dsimp only at placed ⊢
    rw [space_addProcess]
    generalize Kernel.setTask (Kernel.setTask k₁ task _) task _ = k₂ at placed ⊢
    have whole : k₂.space = { k.space with
        heapTop := Function.update k.space.heapTop task (k.space.heapTop k.current)
        dir := Function.update k.space.dir task (some d) } := by
      rw [placed, current, born]
      simp only [Space.join, Function.update_idem, Function.update_of_ne apart]
    right
    -- what the loops read is the directory and the heap of the parent
    change Major (some (.call .fork)) k.space { k₂.space with
      mm := (Kernel.sharePages (Kernel.copyCodePages k₂.space.mm
        ((k₂.space.dir k₂.space.current).getD 0) ((k₂.space.dir task).getD 0))
        ((k₂.space.dir k₂.space.current).getD 0) ((k₂.space.dir task).getD 0)
        (heapPages (k₂.space.heapTop k₂.space.current))).setCr3 (k₂.space.dir k₂.space.current) }
    have parent : Function.update k.space.dir task (some d) k.space.current = some home := by
      rw [Function.update_of_ne (show k.space.current ≠ task from apart)]
      exact owner
    have top : Function.update k.space.heapTop task (k.space.heapTop k.current) k.space.current =
        k.space.heapTop k.space.current :=
      Function.update_of_ne (show k.space.current ≠ task from apart) ..
    rw [whole]
    dsimp only
    rw [parent, top, Function.update_self]
    exact .fork home task d busy owner free unused

theorem step_sysFork (ref : Refines k r) (sound : Roster.Sound r)
    (busy : k.current ≠ k.idleTask) :
    Space.Step (some (.call .fork)) k.space k.sysFork.1.space := by
  rcases sysFork_moves ref sound busy with same | major
  · rw [same]
    exact .minor .refl
  · exact .major major .refl

/-- `sys_clone` gives the running directory to a new task, and then pushes a word. -/
theorem sysClone_joins (ref : Refines k r) (sound : Roster.Sound r)
    (function stack exitFunc : DWord) : (k.sysClone function stack exitFunc).1.space = k.space ∨
      ∃ task home k₁, k.space.dir k.current = some home ∧ k.space.dir task = none ∧
        Kernel.space k₁ = k.space.join task home ∧
        (k.sysClone function stack exitFunc).1.space =
          (k₁.kernelStores (stack - 4) (dwordBytes exitFunc)).space := by
  obtain ⟨home, owner⟩ := ref.owner sound
  unfold Kernel.sysClone
  split
  · exact Or.inl rfl
  · have own : k.currentTask.dirPagesBaseAddr = some home := owner
    rw [own]
    rcases ref.allocateShared sound home with ⟨_, same⟩ | ⟨task, others, pool, taken, made⟩
    · rw [same]
      exact Or.inl rfl
    · have free : k.space.dir task = none := ref.free_dir sound pool
      have core := congrArg TaskCore.dir (made.core task)
      generalize allocated : k.allocateProcess (some home) = result at taken core ⊢
      obtain ⟨k₁, chosen⟩ := result
      dsimp only at taken core
      subst taken
      obtain ⟨d, born⟩ := space_allocateProcess allocated
      have same : d = home := by
        have here : k₁.space.dir task = some d := by
          rw [born]
          exact Function.update_self ..
        have there : k₁.space.dir task = some home :=
          core.trans (by simp [Roster.allocate, Roster.setTask])
        rw [here] at there
        exact Option.some.inj there
      subst same
      have placed : (k₁.setTask task { k₁.tasks task with
          quantum := k₁.currentTask.quantum, kernelEsp := .cloned }).space = k₁.space :=
        space_setTask (by rfl) (by rfl)
      right
      dsimp only
      rw [space_addProcess]
      generalize Kernel.setTask k₁ task _ = k₂ at placed ⊢
      exact ⟨task, d, k₂, owner, free, placed.trans born, rfl⟩

theorem step_sysClone (ref : Refines k r) (sound : Roster.Sound r) (laid : k.space.Laid)
    (busy : k.current ≠ k.idleTask) (function stack exitFunc : DWord) :
    Space.Step (some (.call (.clone function stack exitFunc))) k.space
      (k.sysClone function stack exitFunc).1.space := by
  rcases sysClone_joins ref sound function stack exitFunc with same | joined
  · rw [same]
    exact .minor .refl
  · obtain ⟨task, home, k₁, owner, free, placed, stored⟩ := joined
    have apart : k.current ≠ task := by
      intro same
      rw [same, free] at owner
      cases owner
    have major : Major (some (.call (.clone function stack exitFunc))) k.space k₁.space := by
      rw [placed]
      exact .join function stack exitFunc task home busy owner free
    have owner' : k₁.space.dir k₁.current = some home := by
      have same : k₁.current = k.current := congrArg Space.current placed
      rw [same, placed]
      exact (Function.update_of_ne apart ..).trans owner
    rw [stored]
    exact .major major (minors_kernelStores _ k₁ (stack - 4) (laid.major major) owner')

/-! ### Death -/

/-- `free_DIR` of the running task. -/
theorem space_freeDIR (owner : k.space.dir k.current = some home) :
    (k.freeDIR k.current).space =
      if k.dirCount home - 1 = 0 then k.space.release home else k.space.leave := by
  have table : k.getPT k.current = home := by
    change (k.space.dir k.current).getD 0 = home
    rw [owner]
    rfl
  unfold Kernel.freeDIR
  dsimp only
  rw [table]
  have count : (k.setDirCount home (k.dirCount home - 1)).dirCount home = k.dirCount home - 1 :=
    Function.update_self ..
  rw [count]
  split
  · exact @space_setDir { { (k.setDirCount home (k.dirCount home - 1)) with
      mm := (k.setDirCount home (k.dirCount home - 1)).mm.freeUserPages home
        ((k.setDirCount home (k.dirCount home - 1)).tasks k.current).heapTop }.note
      (.dirReleased home) with links := listAdd k.links (.dirAnchor home) .freeDirs } k.current none
  · exact @space_setDir (k.setDirCount home (k.dirCount home - 1)) k.current none

/-- The count of a directory is 1 when it is the running task's alone. -/
theorem Refines.last_iff (ref : Refines k r) (sound : Roster.Sound r)
    (owner : k.space.dir k.current = some home) :
    r.dirCount home - 1 = 0 ↔ ∀ t, k.space.dir t = some home → t = k.current := by
  have counted : r.dirCount home = dirUsers k.space.dir home := by
    rw [sound.identity.counted]
    have same : (fun t => (r.task t).dir) = k.space.dir := funext fun t => (ref.lives t).symm
    rw [same]
  have left : dirUsers k.space.dir home =
      dirUsers (Function.update k.space.dir k.current none) home + 1 := by
    have split := @dirUsers_leave k.space.dir k.current home home owner
    rw [if_pos rfl] at split
    exact split
  have users := @dirUsers_pos (Function.update k.space.dir k.current none) home
  constructor
  · intro single t here
    by_contra other
    have some := users.mpr ⟨t, by rw [Function.update_of_ne other]; exact here⟩
    omega
  · intro alone
    have none : ¬ 0 < dirUsers (Function.update k.space.dir k.current none) home := by
      rw [users]
      intro someone
      obtain ⟨t, here⟩ := someone
      rw [Function.update_apply] at here
      split at here
      · cases here
      · rename_i other
        exact other (alone t here)
    omega

/-- The directory is released when it is the running task's alone, and only then; after that
another task runs. -/
theorem sysExit_frees (ref : Refines k r) (sound : Roster.Sound r)
    (owner : k.space.dir k.current = some home) :
    ∃ k₁ : Kernel, k.sysExit.1 = k₁.schedNextRr .exited ∧
      (((∀ t, k.space.dir t = some home → t = k.current) ∧ k₁.space = k.space.release home) ∨
      ∃ other, other ≠ k.current ∧ k.space.dir other = some home ∧ k₁.space = k.space.leave) := by
  have out : ¬ r.Queued k.current := ref.current ▸ sound.running.out
  have placed := ref.place (q := .free) (by simp [Started]) out false
  have last := ref.last_iff sound owner
  refine ⟨k.freeProcess k.current, rfl, ?_⟩
  unfold Kernel.freeProcess
  have left : (k.updateProcessStateRr k.current (some .freeQueue)).space = k.space :=
    space_updateProcessStateRr
  have count : (k.updateProcessStateRr k.current (some .freeQueue)).dirCount = r.dirCount :=
    placed.dirCount
  generalize k.updateProcessStateRr k.current (some .freeQueue) = k₁ at left count ⊢
  have current : k₁.current = k.current := congrArg Space.current left
  have owner₁ : k₁.space.dir k₁.current = some home := by
    rw [current, left]
    exact owner
  have freed := space_freeDIR owner₁
  rw [current, left, count] at freed
  dsimp only
  rw [space_freeSemaphores, freed]
  by_cases alone : r.dirCount home - 1 = 0
  · rw [if_pos alone]
    exact Or.inl ⟨last.mp alone, rfl⟩
  · rw [if_neg alone]
    have someone : ∃ t, k.space.dir t = some home ∧ t ≠ k.current := by
      by_contra nobody
      apply alone
      rw [last]
      intro t here
      by_contra other
      exact nobody ⟨t, here, other⟩
    obtain ⟨other, here, different⟩ := someone
    exact Or.inr ⟨other, different, here, rfl⟩

theorem minors_sysExit (ref : Refines k r) (sound : Roster.Sound r)
    (owner : k.space.dir k.current = some home) :
    ((∀ t, k.space.dir t = some home → t = k.current) ∧
      Minors (k.space.release home) k.sysExit.1.space) ∨
    ∃ other, other ≠ k.current ∧ k.space.dir other = some home ∧
      Minors k.space.leave k.sysExit.1.space := by
  obtain ⟨k₁, exited, frees⟩ := sysExit_frees ref sound owner
  have turned := @minors_schedNext k₁ .exited
  rw [← exited] at turned
  rcases frees with ⟨alone, same⟩ | ⟨other, different, here, same⟩
  · rw [same] at turned
    exact Or.inl ⟨alone, turned⟩
  · rw [same] at turned
    exact Or.inr ⟨other, different, here, turned⟩

theorem step_sysExit (ref : Refines k r) (sound : Roster.Sound r) (busy : k.current ≠ k.idleTask) :
    Space.Step (some (.call .exit)) k.space k.sysExit.1.space := by
  obtain ⟨home, owner⟩ := ref.owner sound
  rcases minors_sysExit ref sound owner with ⟨alone, turned⟩ | ⟨other, different, here, turned⟩
  · exact .major (.release home busy owner alone) turned
  · exact .major (.leave home other busy owner different here) turned

/-! ### The heap -/

theorem space_withHeap {m : Mm} {top : DWord} :
    (k.withHeap m top).space = k.space.withHeap m top := by
  have tops : (fun t => ((k.withHeap m top).tasks t).heapTop) =
      Function.update (fun t => (k.tasks t).heapTop) k.current top := by
    funext t
    simp only [Kernel.withHeap, Kernel.setTask, Function.update_apply]
    split
    · rfl
    · rfl
  have dirs : (fun t => ((k.withHeap m top).tasks t).dirPagesBaseAddr) =
      fun t => (k.tasks t).dirPagesBaseAddr := by
    funext t
    simp only [Kernel.withHeap, Kernel.setTask, Function.update_apply, Kernel.currentTask]
    split
    · rename_i same
      rw [same]
    · rfl
  simp only [Kernel.space, Space.withHeap, tops, dirs]
  rfl

/-- `sys_sbrk` changes the address spaces once, or not at all. -/
theorem sysSbrk_moves (laid : k.space.Laid) (owner : k.space.dir k.current = some home)
    (busy : k.current ≠ k.idleTask) (increment : DWord) :
    (k.sysSbrk increment).1.space = k.space ∨
      Major (some (.call (.sbrk increment))) k.space (k.sysSbrk increment).1.space := by
  have top : k.currentTask.heapTop.toNat ≤ heapStart :=
    (laid.top k.current (Space.housed owner)).1
  have table : k.getPT k.current = home := by
    change (k.space.dir k.current).getD 0 = home
    rw [owner]
    rfl
  have directory : k.getDIR k.current = some home := owner
  by_cases nonzero : increment = 0
  · unfold Kernel.sysSbrk
    rw [if_pos nonzero]
    exact Or.inl rfl
  · by_cases overflow : (k.currentTask.heapTop.toNat : Int) < increment.toInt
    · unfold Kernel.sysSbrk
      rw [if_neg nonzero]
      dsimp only
      rw [if_pos ((sbrk_overflow top).mpr overflow)]
      exact Or.inl rfl
    · have inside : (k.sbrkTop increment).toNat ≤ heapStart := by
        have value := (sbrk_newTop top overflow).2
        omega
      rw [sysSbrk_eq top nonzero overflow]
      dsimp only
      rw [table, directory]
      split
      · rename_i grows
        split
        · exact Or.inl rfl
        · rename_i vacant
          simp only [Kernel.heapPagesFree, Bool.not_eq_true', Bool.not_eq_false, List.all_eq_true,
            List.mem_range, Mm.isSsPagFree] at vacant
          cases reserved : Kernel.reserveFrames (heapPages (k.sbrkTop increment) -
              heapPages k.currentTask.heapTop) k.mm [] with
          | mk m frames =>
              cases frames with
              | none => exact Or.inr (.refused increment _ m reserved)
              | some frames =>
                  dsimp only
                  rw [space_withHeap]
                  refine Or.inr (.grow increment home (k.sbrkTop increment) m frames busy owner
                    inside grows ?_ reserved)
                  intro i low high
                  have free := vacant (i - heapPages k.currentTask.heapTop) (by omega)
                  have most := heapPages_le inside
                  have place : pagLogInitHeap - heapPages k.currentTask.heapTop -
                      (i - heapPages k.currentTask.heapTop) = pagLogInitHeap - i := by
                    change heapPages k.currentTask.heapTop ≤ i at low
                    omega
                  rw [place] at free
                  exact free
      · rename_i stays
        dsimp only
        rw [space_withHeap]
        exact Or.inr (.shrink increment home (k.sbrkTop increment) busy owner inside
          (Nat.le_of_not_lt stays))

theorem step_sysSbrk (laid : k.space.Laid) (owner : k.space.dir k.current = some home)
    (busy : k.current ≠ k.idleTask) (increment : DWord) :
    Space.Step (some (.call (.sbrk increment))) k.space (k.sysSbrk increment).1.space := by
  rcases sysSbrk_moves laid owner busy increment with same | major
  · rw [same]
    exact .minor .refl
  · exact .major major .refl

/-! ### Steps -/

theorem step_syscall (ref : Refines k r) (sound : Roster.Sound r) (laid : k.space.Laid)
    (busy : k.current ≠ k.idleTask) (request : Syscall) :
    Space.Step (some (.call request)) k.space (k.syscall request).1.space := by
  obtain ⟨home, owner⟩ := ref.owner sound
  cases request with
  | niSyscall => exact .minor .refl
  | gettime => exact .minor .refl
  | getpid => exact .minor .refl
  | exit => exact step_sysExit ref sound busy
  | fork => exact step_sysFork ref sound busy
  | clone function stack exitFunc => exact step_sysClone ref sound laid busy function stack exitFunc
  | sbrk increment => exact step_sysSbrk laid owner busy increment
  | write fd buffer size => exact .minor (minors_sysWrite laid owner)
  | read fd buffer size => exact .minor (minors_sysRead laid owner)
  | getStats pid st => exact .minor (minors_sysGetStats laid owner)
  | semWait nSem => exact .minor minors_semWait
  | semInit nSem value =>
      have same : (k.syscall (.semInit nSem value)).1.space = k.space := space_semInit
      rw [same]
      exact .minor .refl
  | semSignal nSem =>
      have same : (k.syscall (.semSignal nSem)).1.space = k.space := space_semSignal
      rw [same]
      exact .minor .refl
  | semDestroy nSem =>
      have same : (k.syscall (.semDestroy nSem)).1.space = k.space := space_semDestroy
      rw [same]
      exact .minor .refl

theorem step_deliver (ref : Refines k r) (sound : Roster.Sound r) (laid : k.space.Laid)
    (running : k.stuck = false) {action : Action} (enabled : k.enabled action = true) :
    Space.Step (some action) k.space (k.deliver action).space ∨
      ((k.deliver action).stuck = true ∧
        Space.Exhausted (some action) k.space (k.deliver action).space) := by
  obtain ⟨home, owner⟩ := ref.owner sound
  have entered : k.updateEnteringSys.space = k.space := space_updateEnteringSys
  cases action with
  | call request =>
      have busy : k.current ≠ k.idleTask := by simpa [Kernel.enabled] using enabled
      left
      change Space.Step _ k.space (k.updateEnteringSys.syscall request).1.leave.space
      rw [space_leave, ← entered]
      have current : k.updateEnteringSys.current = k.current := congrArg Space.current entered
      have idle : k.updateEnteringSys.idleTask = k.idleTask := congrArg Space.idle entered
      exact step_syscall (ref.of_view view_updateEnteringSys) sound (entered ▸ laid)
        (by rw [current, idle]; exact busy) request
  | badCall => exact Or.inl (.minor .refl)
  | clock =>
      left
      change Space.Step _ k.space k.updateEnteringSys.clockRoutine.leave.space
      rw [space_leave, ← entered]
      exact .minor minors_clock
  | keyboard value =>
      left
      change Space.Step _ k.space (k.updateEnteringSys.keyboardRoutine value).leave.space
      rw [space_leave, ← entered]
      exact .minor minors_keyboard
  | load addr => exact Or.inl (.minor (minors_userLoad laid owner addr))
  | store addr value =>
      have busy : k.current ≠ k.idleTask := by simpa [Kernel.enabled] using enabled
      exact step_userStore laid owner busy running addr value

theorem step_resume (ref : Refines k r) (sound : Roster.Sound r) (laid : k.space.Laid) :
    Minors k.space k.resume.space := by
  obtain ⟨home, owner⟩ := ref.owner sound
  have entered : Kernel.space { k with mode := .user } = k.space := rfl
  unfold Kernel.resume
  dsimp only
  split
  · exact .refl
  · exact .refl
  · rw [space_leave, entered]
  · rw [space_leave, entered]
  · rw [space_leave, entered]
  · rw [space_leave, space_semWaitResumed, entered]
  · rw [space_leave]
    exact @minors_readFirst { k with mode := .user } home laid owner _ _
  · rw [space_leave]
    exact @minors_readAgain { k with mode := .user } home laid owner _ _ _

/-- A step of the kernel is a step of the address spaces, unless it is the last one. -/
theorem Refines.step_space (ref : Refines k r) (sound : Roster.Sound r) (laid : k.space.Laid)
    {label : Option Action} (stepped : k.step label = some k') :
    Space.Step label k.space k'.space ∨
      (k'.stuck = true ∧ Space.Exhausted label k.space k'.space) := by
  unfold Kernel.step at stepped
  split at stepped
  · cases stepped
  · rename_i running
    have running : k.stuck = false := by simpa using running
    split at stepped
    · split at stepped
      · rename_i enabled
        cases stepped
        exact step_deliver ref sound laid running enabled
      · cases stepped
    · cases stepped
      exact Or.inl (.minor (step_resume ref sound laid))
    · cases stepped

/-- The exit of the last task of a directory. -/
theorem Refines.last_exit (ref : Refines k r) (sound : Roster.Sound r)
    (stepped : k.step (some (.call .exit)) = some k') (owner : k.space.dir k.current = some home)
    (last : ∀ t, k.space.dir t = some home → t = k.current) :
    k.current ≠ k.idleTask ∧ Minors (k.space.release home) k'.space := by
  unfold Kernel.step at stepped
  split at stepped
  · cases stepped
  · split at stepped
    · rename_i same
      cases same
      split at stepped
      · rename_i enabled
        cases stepped
        have busy : k.current ≠ k.idleTask := by simpa [Kernel.enabled] using enabled
        refine ⟨busy, ?_⟩
        have entered : k.updateEnteringSys.space = k.space := space_updateEnteringSys
        have current : k.updateEnteringSys.current = k.current := congrArg Space.current entered
        have owner₁ : k.updateEnteringSys.space.dir k.updateEnteringSys.current = some home := by
          rw [entered, current]
          exact owner
        have exited := minors_sysExit (ref.of_view view_updateEnteringSys) sound owner₁
        rw [entered, current] at exited
        change Minors _ (k.updateEnteringSys.sysExit.1.leave).space
        rw [space_leave]
        rcases exited with ⟨_, turned⟩ | ⟨other, different, here, _⟩
        · exact turned
        · exact absurd (last other here) different
      · cases stepped
    · rename_i same
      cases same
    · cases stepped

end Zeos
