import Zeos.Properties.Bystanders
import Zeos.Properties.Translations
import Zeos.Space.Mirrors
import Zeos.Space.Stores

set_option autoImplicit false

/-! Copy-on-write: every process sees the bytes that it would see in a machine whose
`sys_fork` copies all pages. -/

namespace Zeos

open Space (Major Wrote)

/-- A store to a shared page faults, and no frame is left to copy the page to. -/
def Kernel.exhausts (k : Kernel) (addr : DWord) : Bool :=
  !k.mm.userWritable (addr.toNat / pageSize) && decide (2 ≤ k.sharers addr) &&
    k.mm.freeFrames.isEmpty

/-- The runs: processes are made by `sys_fork`, resize their heaps and exit, and read and write
their own pages, while the clock takes the CPU from one to another. -/
def forkRun (k : Kernel) : Option Action → Prop
  | none | some .clock | some (.call .fork) | some (.call .exit) | some (.call (.sbrk _)) => True
  | some (.load addr) => k.OwnPage k.current (addr.toNat / pageSize)
  | some (.store addr _) =>
      k.OwnPage k.current (addr.toNat / pageSize) ∧ k.exhausts addr = false
  | _ => False

instance {k : Kernel} {label : Option Action} : Decidable (forkRun k label) := by
  refine Option.casesOn (motive := fun label => Decidable (forkRun k label)) label
    (.isTrue trivial) fun action => ?_
  refine Action.casesOn (motive := fun action => Decidable (forkRun k (some action))) action
    (fun request => ?_) (.isFalse id) (.isTrue trivial) (fun _ => .isFalse id)
    (fun _ => inferInstanceAs (Decidable (k.OwnPage _ _)))
    (fun _ _ => inferInstanceAs (Decidable (k.OwnPage _ _ ∧ _)))
  apply Syscall.casesOn (motive := fun request => Decidable (forkRun k (some (.call request))))
    request
  all_goals intros
  all_goals first | exact .isTrue trivial | exact .isFalse id

/-- The task that `sys_fork` has made. -/
def Kernel.newborn (k k' : Kernel) : Option TaskId :=
  (List.finRange nrTasks).find? fun t =>
    (k.tasks t).dirPagesBaseAddr.isNone && (k'.tasks t).dirPagesBaseAddr.isSome

/-- The reference machine, where its memory is that of the real one. -/
def Eager.start (k : Kernel) : Eager where
  heap := k.space.heap
  bytes t page := k.mm.ram (k.mm.getFrame (k.getPT t) page)

/-- The step of the reference machine. `sys_fork` and `sys_sbrk` succeed as they do in the real
machine, and a new page of the heap has what is in its frame there. -/
def Eager.follow (e : Eager) (k : Kernel) (label : Option Action) (k' : Kernel) : Eager :=
  match label with
  | some (.call .fork) => (k.newborn k').elim e (e.fork k.current)
  | some (.call .exit) => e.exit k.current
  | some (.call (.sbrk _)) =>
      e.resize k.current (getHeapPageSize (k'.tasks k.current).heapTop).toNat fun page =>
        k'.mm.ram (k'.mm.getFrame (k'.getPT k.current) page)
  | some (.store addr value) => e.write k.current addr value
  | _ => e

/-- The two machines, run side by side. -/
inductive Paired : Kernel → Eager → Prop where
  | boot {k : Kernel} : Booted k → Paired k (Eager.start k)
  | next {k k' : Kernel} {e : Eager} (label : Option Action) : Paired k e → forkRun k label →
      k.step label = some k' → Paired k' (e.follow k label k')

variable {k k' : Kernel} {r : Roster} {e : Eager} {label : Option Action} {home d : DirId}
  {t : TaskId} {addr : DWord} {value : Byte}

/-! ### A store to an own page is made -/

theorem userWritable_setSsPag {m : Mm} {page frame : Nat} (cr3 : m.cr3 = some home)
    (low : page < totalPages) : (m.setSsPag home page frame).userWritable page = true := by
  have steered : (m.setSsPag home page frame).cr3 = some home := cr3
  have entry : (m.setSsPag home page frame).mapped page = ⟨true, true, true, frame⟩ := by
    rw [Mm.mapped, steered]
    dsimp only
    rw [if_pos low, Mm.setSsPag, Mm.getEntry_setEntry, if_pos ⟨rfl, rfl⟩]
  rw [Mm.userWritable, entry]
  rfl

/-- After a repair the machine goes on, and the page is writable. -/
theorem pfRsi_repairs (laid : k.space.Laid) (owner : k.space.dir k.current = some home)
    (low : addr.toNat / pageSize < totalPages) (repairs : k.repairs addr = true) :
    (Kernel.pfRsi { k with mm := k.mm.fault (addr.toNat / pageSize) } addr).stuck = k.stuck ∧
      (Kernel.pfRsi { k with mm := k.mm.fault (addr.toNat / pageSize) } addr).mm.userWritable
        (addr.toNat / pageSize) = true := by
  have shift : addr.toNat >>> 12 = addr.toNat / pageSize := Nat.shiftRight_eq_div_pow _ 12
  have access : Kernel.accessOk { k with mm := k.mm.fault (addr.toNat / pageSize) } .write addr 1 =
      k.accessOk .write addr 1 := rfl
  have table : Kernel.getPT { k with mm := k.mm.fault (addr.toNat / pageSize) } k.current = home :=
    congrArg (Option.getD · 0) owner
  have steered : k.mm.cr3 = some home := laid.steered owner
  have sharers : k.sharers addr = k.mm.cowCountMem (k.mm.getFrame home (addr.toNat / pageSize)) := by
    rw [Kernel.sharers, show k.getPT k.current = home from table]
  rw [Kernel.repairs, sharers, Bool.and_eq_true, Bool.and_eq_true] at repairs
  obtain ⟨⟨_, granted⟩, counted⟩ := repairs
  have frame : (k.mm.fault (addr.toNat / pageSize)).getFrame home (addr.toNat / pageSize) =
      k.mm.getFrame home (addr.toNat / pageSize) := rfl
  unfold Kernel.pfRsi
  rw [access, granted, if_neg (by decide)]
  dsimp only
  rw [shift, table, frame, Mm.cowCountMem_fault]
  split
  · exact ⟨Kernel.stuck_mm, userWritable_setSsPag steered low⟩
  · rename_i several
    rw [beq_eq_false_iff_ne.mpr several, Bool.false_or, Bool.and_eq_true,
      decide_eq_true_eq] at counted
    rw [if_pos counted.1, Mm.allocFrame_eq]
    have free : ∀ f count, ((k.mm.fault (addr.toNat / pageSize)).setCow f count).freeFrames =
        k.mm.freeFrames := fun _ _ => rfl
    rw [free]
    cases left : k.mm.freeFrames with
    | nil =>
        rw [left] at counted
        exact absurd counted.2 (by decide)
    | cons first rest => exact ⟨Kernel.stuck_mm, userWritable_setSsPag Mm.cr3_setCr3 low⟩

theorem mapped_own (laid : k.space.Laid) (owner : k.space.dir k.current = some home)
    (own : k.space.OwnPage k.current (addr.toNat / pageSize)) :
    addr.toNat / pageSize < totalPages ∧ k.mm.mapped (addr.toNat / pageSize) =
      k.mm.getEntry home (addr.toNat / pageSize) := by
  obtain ⟨_, _, heap, _⟩ := Mm.regions
  obtain ⟨_, high⟩ := laid.low owner own
  have low : addr.toNat / pageSize < totalPages := by
    simp only [totalPages]
    omega
  have steered : k.mm.cr3 = some home := laid.steered owner
  refine ⟨low, ?_⟩
  rw [Mm.mapped, steered]
  exact if_pos low

/-- `access_ok` lets a process write to its own pages. -/
theorem accessOk_own (laid : k.space.Laid) (owner : k.space.dir k.current = some home)
    (own : k.space.OwnPage k.current (addr.toNat / pageSize)) : k.accessOk .write addr 1 = true := by
  obtain ⟨code, data, heap, most⟩ := Mm.regions
  obtain ⟨_, high⟩ := laid.low owner own
  have next : (addr + 1).toNat = addr.toNat + 1 := by
    have one : (1 : DWord).toNat = 1 := rfl
    rw [BitVec.toNat_add, one]
    simp only [pageSize] at high
    omega
  have bounds : addr.toNat / pageSize ≤ (addr.toNat + 1) / pageSize ∧
      (addr.toNat + 1) / pageSize ≤ addr.toNat / pageSize + 1 := by
    simp only [pageSize]
    omega
  apply (accessOk_iff laid owner).mpr
  rw [next]
  refine ⟨bounds.1, ?_⟩
  rcases Mm.mem_ownPages.mp own with inData | inHeap
  · left
    omega
  · right
    obtain ⟨i, below, place⟩ := inHeap
    change i < k.space.runningPages at below
    omega

/-- A process may read its own pages. -/
theorem userEntry_own (laid : k.space.Laid) (owner : k.space.dir t = some d)
    (busy : t ≠ k.space.idle) {page : Nat} (own : k.space.OwnPage t page) :
    (k.mm.getEntry d page).present = true ∧ (k.mm.getEntry d page).user = true := by
  have present := laid.own t d page owner busy own
  obtain ⟨low, _⟩ := laid.low owner own
  rcases laid.tidy.entry d page low with empty | plain
  · rw [empty] at present
    cases present
  · exact ⟨plain.1, plain.2.1⟩

/-- A write fault at an own page is repaired, unless no frame is left. -/
theorem repairs_own (laid : k.space.Laid) (counted : k.space.Counted)
    (owner : k.space.dir k.current = some home) (busy : k.current ≠ k.idleTask)
    (own : k.space.OwnPage k.current (addr.toNat / pageSize))
    (denied : k.mm.userWritable (addr.toNat / pageSize) = false)
    (room : k.exhausts addr = false) : k.repairs addr = true := by
  obtain ⟨_, entry⟩ := mapped_own laid owner own
  obtain ⟨present, user⟩ := userEntry_own laid owner busy own
  have table : k.getPT k.current = home := congrArg (Option.getD · 0) owner
  have reads : (k.mm.getEntry home (addr.toNat / pageSize)).rw = false := by
    rw [Mm.userWritable, entry, present, user] at denied
    exact denied
  have slot := @Mm.slot_of k.mm k.space.Owned home _ ⟨k.current, owner, own⟩ present
  have shared : k.sharers addr ≠ 0 := by
    intro none
    have zero : k.mm.cowCountMem (k.mm.getFrame home (addr.toNat / pageSize)) = 0 := by
      rw [← table]
      exact none
    have writes := (counted.exact.right slot).mpr (congrArg BitVec.toNat zero)
    rw [reads] at writes
    cases writes
  rw [Kernel.exhausts, denied, Bool.not_false, Bool.true_and] at room
  rw [Kernel.repairs, denied, accessOk_own laid owner own, Bool.not_false, Bool.true_and,
    Bool.true_and]
  by_cases single : k.sharers addr = 1
  · rw [beq_iff_eq.mpr single, Bool.true_or]
  · have many : 2 ≤ k.sharers addr := by
      have positive : (k.sharers addr).toNat ≠ 0 := fun zero => shared (BitVec.eq_of_toNat_eq zero)
      have several : (k.sharers addr).toNat ≠ 1 := fun one => single (BitVec.eq_of_toNat_eq one)
      show 2 ≤ (k.sharers addr).toNat
      omega
    rw [decide_eq_true many, Bool.true_and] at room ⊢
    rw [room, Bool.not_false, Bool.or_true]

/-- A store to an own page is made. -/
theorem userStore_own (laid : k.space.Laid) (counted : k.space.Counted)
    (owner : k.space.dir k.current = some home) (busy : k.current ≠ k.idleTask)
    (running : k.stuck = false) (own : k.space.OwnPage k.current (addr.toNat / pageSize))
    (room : k.exhausts addr = false) : (k.userStore addr value).stuck = false := by
  unfold Kernel.userStore Kernel.storeWith Kernel.withFault
  by_cases fine : k.mm.userWritable (addr.toNat / pageSize) = true
  · rw [if_pos fine]
    dsimp only
    rw [running, if_neg (by decide)]
  · have repairs := repairs_own laid counted owner busy own (Bool.eq_false_iff.mpr fine) room
    obtain ⟨goes, writable⟩ := pfRsi_repairs laid owner (mapped_own laid owner own).1 repairs
    rw [if_neg fine]
    dsimp only
    generalize Kernel.pfRsi { k with mm := k.mm.fault (addr.toNat / pageSize) } addr = k₁
      at goes writable ⊢
    rw [running] at goes
    have done : (k₁.stuck || k₁.mm.userWritable (addr.toNat / pageSize)) = true := by
      rw [writable, Bool.or_true]
    rw [if_pos done, goes, if_neg (by decide)]

/-! ### One step of both machines -/

theorem forkRun_forksOnly (allowed : forkRun k label) : forksOnly k label := by
  cases label with
  | none => trivial
  | some action =>
      cases action with
      | call request =>
          cases request with
          | clone function stack exitFunc => exact allowed
          | _ => trivial
      | store addr value => exact Or.inr allowed.1
      | _ => trivial

theorem forkRun_unread (allowed : forkRun k label) (fd buffer size : DWord) :
    label ≠ some (.call (.read fd buffer size)) := by
  rintro rfl
  exact allowed

/-- No store of such a run ends in `pf_rsi` without a frame. -/
theorem forkRun_step (ref : Refines k r) (sound : Roster.Sound r) (laid : k.space.Laid)
    (counted : k.space.Counted) (allowed : forkRun k label) (stepped : k.step label = some k') :
    Space.Step label k.space k'.space := by
  obtain ⟨home, owner⟩ := ref.owner sound
  rcases ref.step_space sound laid stepped with moved | last
  · exact moved
  · obtain ⟨stuck, addr, value, _, rfl, _⟩ := last
    obtain ⟨_, enabled, after⟩ := step_action stepped
    have busy : k.current ≠ k.idleTask := by simpa [Kernel.enabled] using enabled
    have running := Bool.eq_false_iff.mpr (stuck_step stepped)
    have done := @userStore_own _ _ addr value laid counted owner busy running
      (ownPage_iff.mp allowed.1) allowed.2
    rw [after] at stuck
    exact absurd (stuck.symm.trans done) (by decide)

/-- Where no read waits, what follows a task switch stores nothing. -/
theorem fills_unread (unread : k.currentTask.kernelEsp.reading = false) : k.fills none = none := by
  unfold Kernel.fills
  dsimp only
  generalize k.currentTask.kernelEsp = saved at unread ⊢
  cases saved with
  | readFirst buffer size => cases unread
  | readLoop buffer totalSize size => cases unread
  | _ => rfl

/-- Steps that store nothing. -/
theorem mirrors_wrote {s s' : Space} (mirrors : s.Mirrors e)
    (wrote : Wrote (fun _ => False) s s') : s'.Mirrors e := by
  apply mirrors.same wrote.entries _ wrote.dir wrote.heapTop wrote.idle
  funext f offset
  apply (wrote.ram f offset).resolve_right
  intro stored
  obtain ⟨_, impossible, _⟩ := stored
  exact impossible

/-- The child is the task that gets a directory. -/
theorem newborn_fork {child : TaskId} (free : k.space.dir child = none)
    (born : k'.space.dir = Function.update k.space.dir child (some d)) :
    k.newborn k' = some child := by
  have place : ∀ t, (k'.tasks t).dirPagesBaseAddr =
      if t = child then some d else (k.tasks t).dirPagesBaseAddr := by
    intro t
    exact (congrFun born t).trans (Function.update_apply ..)
  unfold Kernel.newborn
  cases found : (List.finRange nrTasks).find? fun t =>
      (k.tasks t).dirPagesBaseAddr.isNone && (k'.tasks t).dirPagesBaseAddr.isSome with
  | none =>
      have missed := List.find?_eq_none.mp found child (List.mem_finRange child)
      have gone : (k.tasks child).dirPagesBaseAddr = none := free
      rw [place, if_pos rfl, gone] at missed
      exact absurd rfl missed
  | some t =>
      have new := List.find?_some found
      rw [place, Bool.and_eq_true] at new
      by_cases same : t = child
      · rw [same]
      · rw [if_neg same, Option.isNone_iff_eq_none] at new
        rw [new.1] at new
        cases new.2

theorem newborn_none (same : k'.space.dir = k.space.dir) : k.newborn k' = none := by
  rw [Kernel.newborn, List.find?_eq_none]
  intro t _ new
  have place : (k'.tasks t).dirPagesBaseAddr = (k.tasks t).dirPagesBaseAddr := congrFun same t
  rw [place, Bool.and_eq_true, Option.isNone_iff_eq_none] at new
  rw [new.1] at new
  cases new.2

theorem follow_fork (mirrors : k.space.Mirrors e) (laid : k.space.Laid)
    (counted : k.space.Counted) (moves : k'.space = k.space ∨
      Major (some (.call .fork)) k.space k'.space) :
    k'.space.Mirrors (e.follow k (some (.call .fork)) k') := by
  rw [Eager.follow]
  rcases moves with same | major
  · rw [newborn_none (congrArg Space.dir same), same]
    exact mirrors
  · obtain ⟨child, free, ⟨d, born⟩, forked⟩ := mirrors.forks laid counted major
    rw [newborn_fork free born]
    exact forked

theorem follow_sbrk {increment : DWord} (mirrors : k.space.Mirrors e) (laid : k.space.Laid)
    (counted : k.space.Counted) (busy : k.current ≠ k.idleTask)
    (owner : k.space.dir k.current = some home) (moves : k'.space = k.space ∨
      Major (some (.call (.sbrk increment))) k.space k'.space) :
    k'.space.Mirrors (e.follow k (some (.call (.sbrk increment))) k') := by
  rcases moves with same | major
  · have pages : k'.space.pages k.current = k.space.pages k.current := by rw [same]
    show k'.space.Mirrors (e.resize k.current (k'.space.pages k.current) _)
    rw [pages, same]
    exact mirrors.unsized busy owner
  · have place := congrFun major.resizes.1 k.current
    have table : k'.getPT k.current = home := congrArg (Option.getD · 0) (place.trans owner)
    rw [Eager.follow, table]
    exact mirrors.resize major laid counted busy owner

/-- The page is the running task's alone once the store is made. -/
theorem follow_store (mirrors : k.space.Mirrors e) (laid : k.space.Laid)
    (counted : k.space.Counted) (owner : k.space.dir k.current = some home)
    (busy : k.current ≠ k.idleTask) (own : k.space.OwnPage k.current (addr.toNat / pageSize))
    (done : (k.userStore addr value).stuck = false) :
    (k.userStore addr value).space.Mirrors (e.write k.current addr value) := by
  obtain ⟨s, moved, writable, written⟩ := userStore_moves laid owner busy done
  rw [written]
  rcases moved with same | major
  · rw [same] at writable ⊢
    exact mirrors.write laid counted owner own writable
  · obtain ⟨places, tops, current⟩ := major.stays
    have mine : k.space.OwnFault (some (.store addr value)) := by
      intro addr' value' same _ _ _ _ _
      cases same
      exact own
    have alone : Space.NoClone (some (.store addr value)) := nofun
    have repaired := mirrors.repair major laid counted busy
    have owner' : s.dir s.current = some home := by
      rw [places, current]
      exact owner
    have own' : s.OwnPage s.current (addr.toNat / pageSize) := by
      rw [Space.OwnPage, Space.pages, tops, current]
      exact own
    have stored := @Space.Mirrors.write s e home addr value repaired (laid.major major)
      (counted.major laid alone mine major) owner' own' writable
    rw [current] at stored
    exact stored

/-- The reference machine follows one step. -/
theorem mirrors_step (ref : Refines k r) (sound : Roster.Sound r) (laid : k.space.Laid)
    (counted : k.space.Counted) (unread : ∀ t, (r.task t).resume.reading = false)
    (mirrors : k.space.Mirrors e) (allowed : forkRun k label) (stepped : k.step label = some k') :
    k'.space.Mirrors (e.follow k label k') := by
  obtain ⟨home, owner⟩ := ref.owner sound
  cases label with
  | none =>
      rw [(step_none stepped).2]
      apply mirrors_wrote mirrors
      apply (wrote_resume ref laid owner).mono
      intro addr filled
      obtain ⟨block, member, _⟩ := filled
      have saved : k.currentTask.kernelEsp = (r.task r.current).resume := by
        rw [← ref.core, ← ref.current]
        rfl
      rw [fills_unread (by rw [saved, unread])] at member
      cases member
  | some action =>
      obtain ⟨_, enabled, after⟩ := step_action stepped
      have entered : k.updateEnteringSys.space = k.space := space_updateEnteringSys
      have owner₁ := owner_of_view view_updateEnteringSys owner
      have ref₁ := ref.of_view view_updateEnteringSys
      have laid₁ : k.updateEnteringSys.space.Laid := entered ▸ laid
      have current : k.updateEnteringSys.current = k.current := congrArg Space.current entered
      have idle : k.updateEnteringSys.idleTask = k.idleTask := congrArg Space.idle entered
      cases action with
      | call request =>
          have busy : k.current ≠ k.idleTask := by simpa [Kernel.enabled] using enabled
          have busy₁ : k.updateEnteringSys.current ≠ k.updateEnteringSys.idleTask := by
            rw [current, idle]
            exact busy
          have result : k'.space = (k.updateEnteringSys.syscall request).1.space := by
            rw [after]
            exact space_leave
          cases request with
          | fork =>
              have moves := sysFork_moves ref₁ sound busy₁
              change k'.space = k.updateEnteringSys.sysFork.1.space at result
              rw [← result, entered] at moves
              exact follow_fork mirrors laid counted moves
          | exit =>
              obtain ⟨k₁, exited, frees⟩ := sysExit_frees ref₁ sound owner₁
              change k'.space = k.updateEnteringSys.sysExit.1.space at result
              rw [result, exited]
              rw [entered, current] at frees
              apply mirrors_wrote _ wrote_schedNext
              rcases frees with ⟨last, freed⟩ | ⟨other, different, here, _⟩
              · rw [freed]
                exact mirrors.release laid counted busy owner last
              · exact absurd (counted.separate other k.current home here owner) different
          | sbrk increment =>
              have moves := sysSbrk_moves laid₁ owner₁ busy₁ increment
              change k'.space = (k.updateEnteringSys.sysSbrk increment).1.space at result
              rw [← result, entered] at moves
              exact follow_sbrk mirrors laid counted busy owner moves
          | _ => exact allowed.elim
      | clock =>
          have ticked : k'.space = k.updateEnteringSys.clockRoutine.space := by
            rw [after]
            exact space_leave
          rw [ticked]
          exact mirrors_wrote mirrors (wrote_of_same entered wrote_clock)
      | load addr =>
          rw [after]
          exact mirrors_wrote mirrors (poked_userLoad laid owner).toWrote
      | store addr value =>
          have busy : k.current ≠ k.idleTask := by simpa [Kernel.enabled] using enabled
          have running := Bool.eq_false_iff.mpr (stuck_step stepped)
          have own := ownPage_iff.mp allowed.1
          have done := @userStore_own k home addr value laid counted owner busy running own allowed.2
          rw [after]
          exact follow_store mirrors laid counted owner busy own done
      | _ => exact allowed.elim

/-! ### Runs -/

theorem Space.Initial.mirrors (init : k.space.Initial) : k.space.Mirrors (Eager.start k) := by
  constructor
  · rfl
  · intro t d p offset here _ _ _
    have table : k.getPT t = d := congrArg (Option.getD · 0) here
    show _ = k.mm.ram (k.mm.getFrame (k.getPT t) p) offset
    rw [table]
    rfl
  · intro d p here low
    rw [init.idle, init.idleDir] at here
    obtain ⟨code, data, _, _⟩ := Mm.regions
    have other : ¬ (d = 8 ∧ p < pagLogInitData + numPagData) := by
      intro both
      exact absurd ((Option.some.inj here).trans both.1) (by decide)
    rw [init.fresh.others d p (by omega) other]

/-- The processes of the two machines have the same memory, in every state of a run. -/
theorem Paired.mirrors (paired : Paired k e) :
    (∃ r, Refines k r ∧ Roster.Sound r ∧ ∀ t, (r.task t).resume.reading = false) ∧
      k.space.Laid ∧ k.space.Counted ∧ k.space.Mirrors e := by
  induction paired with
  | boot booted =>
      obtain ⟨image, rfl⟩ := booted
      have init := boot_space image
      exact ⟨⟨Roster.boot, boot_refines image, Roster.boot_sound, by decide⟩, init.laid,
        init.counted, init.mirrors⟩
  | next label _ allowed stepped ih =>
      obtain ⟨⟨r, ref, sound, unread⟩, laid, counted, mirrors⟩ := ih
      obtain ⟨r', step, after, _⟩ := ref.step sound stepped
      have moved := forkRun_step ref sound laid counted allowed stepped
      have only := forkRun_forksOnly allowed
      refine ⟨⟨r', after, sound.step step, ?_⟩, laid.step moved, ?_, ?_⟩
      · exact step.unread sound unread (forkRun_unread allowed)
      · exact counted.step laid (forksOnly_alone only) (forksOnly_ownFault only) moved
      · exact mirrors_step ref sound laid counted unread mirrors allowed stepped

/-- A process reads in its own pages what it reads there in the reference machine. -/
theorem Paired.read_eq (paired : Paired k e) (home : (k.tasks t).dirPagesBaseAddr = some d)
    (busy : t ≠ k.idleTask) (own : k.OwnPage t (addr.toNat / pageSize)) :
    k.mm.read d addr = e.read t addr := by
  obtain ⟨_, laid, _, mirrors⟩ := paired.mirrors
  have inside := ownPage_iff.mp own
  have high := (laid.low home inside).2
  obtain ⟨_, _, heap, _⟩ := Mm.regions
  have bounded : addr.toNat % pageSize < pageSize := Nat.mod_lt _ (by decide)
  have below : addr.toNat / pageSize < totalPages := by
    simp only [totalPages]
    omega
  have readable : k.mm.Readable d (addr.toNat / pageSize) :=
    ⟨below, userEntry_own laid home busy inside⟩
  rw [Mm.read, Eager.read, if_pos readable, if_pos ((mirrors.owns_iff home busy).mpr inside)]
  exact congrArg some (mirrors.bytes t d _ _ home busy inside bounded)

/-- Idle has no page that it could read. -/
theorem Paired.reads (paired : Paired k e) (home : (k.tasks t).dirPagesBaseAddr = some d)
    (own : k.OwnPage t (addr.toNat / pageSize)) : k.mm.read d addr = e.read t addr := by
  by_cases idle : t = k.idleTask
  · obtain ⟨_, laid, _, mirrors⟩ := paired.mirrors
    have low := (laid.low home (ownPage_iff.mp own)).1
    have unmapped : ¬ k.mm.Readable d (addr.toNat / pageSize) := by
      intro readable
      rw [idle] at home
      have absent := mirrors.idle d _ home low
      exact absurd (readable.2.1.symm.trans absent) (by decide)
    have none : ¬ e.Owns t (addr.toNat / pageSize) := by
      have empty : e.heap t = .none := by
        rw [mirrors.heap]
        exact if_pos idle
      rw [Eager.Owns, empty]
      exact List.not_mem_nil
    rw [Mm.read, Eager.read, if_neg unmapped, if_neg none]
  · exact paired.read_eq home idle own

/-- Copy-on-write shows: every process reads in its data and heap pages what it reads in the
machine whose `sys_fork` copies them. -/
theorem fork_copies (paired : Paired k e) (home : (k.tasks t).dirPagesBaseAddr = some d)
    (own : k.OwnPage t (addr.toNat / pageSize)) : k.mm.read d addr = e.read t addr :=
  paired.reads home own

/-- The parent writes to a page that it shares with its child. -/
theorem fork_copies_child : ∃ e,
    Paired (Kernel.after (fun k label => decide (forkRun k label))
      [some (.call .fork), some (.store 0x108000 1)]) e ∧
    (Kernel.after (fun k label => decide (forkRun k label))
      [some (.call .fork), some (.store 0x108000 1)]).mm.read 7 0x108000 = e.read 2 0x108000 := by
  have booted : Paired (Kernel.after (fun k label => decide (forkRun k label)) [])
      (Eager.start _) := .boot ⟨Image.empty, rfl⟩
  have forked := booted.next (some (.call .fork)) trivial
    (@step_after _ [] _ (by decide +kernel))
  have stored := forked.next (some (.store 0x108000 1)) (by decide +kernel)
    (@step_after _ [some (.call .fork)] _ (by decide +kernel))
  exact ⟨_, stored, fork_copies stored (by decide +kernel) (by decide +kernel)⟩

/-- The reference machine follows every run, and whatever the processes have forked, written,
grown, given back and left behind, each live one can read every byte of its data and heap pages,
and reads in both machines the same. -/
theorem copy_on_write_refines (reached : Reachable forkRun k) :
    (∃ e, Paired k e) ∧ ∀ e, Paired k e → ∀ t d addr, (k.tasks t).dirPagesBaseAddr = some d →
      k.OwnPage t (addr.toNat / pageSize) →
      k.mm.read d addr = e.read t addr ∧ (t ≠ k.idleTask → (e.read t addr).isSome = true) := by
  constructor
  · induction reached with
    | start booted => exact ⟨_, .boot booted⟩
    | next label _ allowed stepped ih =>
        obtain ⟨e, paired⟩ := ih
        exact ⟨_, paired.next label allowed stepped⟩
  · intro e paired t d addr home own
    refine ⟨paired.reads home own, fun busy => ?_⟩
    obtain ⟨_, _, _, mirrors⟩ := paired.mirrors
    rw [Eager.read, if_pos ((mirrors.owns_iff home busy).mpr (ownPage_iff.mp own))]
    rfl

/-- The parent writes to a page that it shares with its child. -/
theorem copy_on_write_refines_written :
    ∃ e, Paired (Kernel.after (fun k label => decide (forkRun k label))
        [some (.call .fork), some (.store 0x108000 1)]) e ∧
      (Kernel.after (fun k label => decide (forkRun k label))
        [some (.call .fork), some (.store 0x108000 1)]).mm.read 8 0x108000 = e.read 1 0x108000 ∧
      (e.read 1 0x108000).isSome = true ∧
      (Kernel.after (fun k label => decide (forkRun k label))
        [some (.call .fork), some (.store 0x108000 1)]).mm.read 7 0x108000 = e.read 2 0x108000 ∧
      (e.read 2 0x108000).isSome = true := by
  have reached : Reachable (fun k label => decide (forkRun k label) = true) (Kernel.after
      (fun k label => decide (forkRun k label)) [some (.call .fork), some (.store 0x108000 1)]) :=
    reached_after (by decide +kernel)
  obtain ⟨⟨e, paired⟩, same⟩ :=
    copy_on_write_refines (reached.mono fun _ _ allowed => of_decide_eq_true allowed)
  obtain ⟨parent, there⟩ := same e paired 1 8 0x108000 (by decide +kernel) (by decide +kernel)
  obtain ⟨child, there'⟩ := same e paired 2 7 0x108000 (by decide +kernel) (by decide +kernel)
  exact ⟨e, paired, parent, there (by decide +kernel), child, there' (by decide +kernel)⟩

end Zeos
