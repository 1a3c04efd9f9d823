import Zeos.Console
import Zeos.Properties.Stores
import Zeos.Space.Mirrors

set_option autoImplicit false

/-! Where the stores for processes go: above the kernel, but for the word that `sys_clone` pushes,
and above the code, as long as `access_ok` judges rightly. -/

namespace Zeos

/-- More stores of the kernel for a task, from an address on. -/
def StoresAbove (low : Nat) (before after : List (TaskId × DWord)) : Prop :=
  ∃ more, after = more ++ before ∧ ∀ pair ∈ more, low ≤ pair.2.toNat

variable {low : Nat} {before middle after : List (TaskId × DWord)}

theorem StoresAbove.same (same : after = before) : StoresAbove low before after :=
  ⟨[], same, by simp⟩

theorem StoresAbove.trans (first : StoresAbove low before middle)
    (second : StoresAbove low middle after) : StoresAbove low before after := by
  obtain ⟨more, rfl, high⟩ := first
  obtain ⟨later, rfl, higher⟩ := second
  refine ⟨later ++ more, (List.append_assoc later more before).symm, fun pair member => ?_⟩
  rcases List.mem_append.mp member with inLater | inMore
  · exact higher pair inLater
  · exact high pair inMore

theorem StoresAbove.cons {pair : TaskId × DWord} (above : StoresAbove low before (pair :: middle))
    (grown : ∃ more, middle = more ++ before) :
    StoresAbove low before middle ∧ low ≤ pair.2.toNat := by
  obtain ⟨more, shape, high⟩ := above
  obtain ⟨less, rfl⟩ := grown
  have split : more = pair :: less := List.append_cancel_right shape.symm
  subst split
  exact ⟨⟨less, rfl, fun p member => high p (List.mem_cons_of_mem _ member)⟩,
    high pair List.mem_cons_self⟩

namespace Space

variable {s s' : Space} {label : Option Action} {d : DirId} {page f bound : Nat} {value : Byte}

/-! ### The address spaces -/

/-- A page above the kernel's is on a frame above the kernel's. -/
theorem user_frame (tidy : s.mm.Tidy) (high : numPagKernel ≤ page)
    (present : (s.mm.mapped page).present = true) :
    numPagKernel ≤ (s.mm.mapped page).pbaseAddr ∧
      (pagLogInitData ≤ page ∨ (s.mm.mapped page).rw = true →
        codeFrame numPagCode ≤ (s.mm.mapped page).pbaseAddr) := by
  obtain ⟨code, data, _, _⟩ := Mm.regions
  change 256 ≤ page at high
  unfold Mm.mapped at present ⊢
  split at present
  · split at present
    · rename_i dir _ inside
      rw [if_pos inside]
      by_cases inCode : page < pagLogInitData
      · have place : page = pagLogInitCode + (page - pagLogInitCode) := by omega
        rcases tidy.code dir (page - pagLogInitCode) (by simp only [numPagCode]; omega) with none | some
        · rw [place, none] at present
          cases present
        · rw [← place] at some
          rw [some]
          refine ⟨Nat.le_add_right .., fun beyond => ?_⟩
          rcases beyond with higher | writable
          · omega
          · cases writable
      · rcases tidy.entry dir page (by omega) with none | plain
        · rw [none] at present
          cases present
        · have user := (userFrame_iff.mp plain.2.2).1
          exact ⟨(Nat.le_add_right ..).trans user, fun _ => user⟩
    · cases present
  · cases present

/-- A store through such a page. -/
theorem ram_poke {addr : Nat} (outside : f ≠ (s.mm.mapped (addr / pageSize)).pbaseAddr) :
    (s.mm.poke addr value).ram f = s.mm.ram f :=
  Function.update_of_ne outside ..

/-- The running program stores above the code. -/
theorem user_page (tidy : s.mm.Tidy) (writable : s.mm.userWritable page = true) :
    codeFrame numPagCode ≤ (s.mm.mapped page).pbaseAddr := by
  simp only [Mm.userWritable, Bool.and_eq_true] at writable
  obtain ⟨⟨present, user⟩, rw⟩ := writable
  apply (user_frame tidy _ present).2 (Or.inr rw)
  by_contra low
  unfold Mm.mapped at user
  split at user
  · split at user
    · rw [tidy.kernel _ page (Nat.not_le.mp low)] at user
      cases user
    · cases user
  · cases user

/-- The kernel's stores from an address on are to frames from a bound on. -/
structure Divides (low bound : Nat) : Prop where
  below : bound ≤ codeFrame numPagCode
  frames : ∀ (s : Space) (addr : DWord), s.mm.Tidy → low ≤ addr.toNat →
    (s.mm.mapped (addr.toNat / pageSize)).present = true →
    bound ≤ (s.mm.mapped (addr.toNat / pageSize)).pbaseAddr

theorem divides_kernel : Divides lUserStart numPagKernel where
  below := Nat.le_add_right ..
  frames s addr tidy high present := by
    apply (user_frame tidy _ present).1
    simp only [lUserStart] at high
    simp only [numPagKernel, pageSize]
    omega

theorem divides_code : Divides (pagLogInitData * pageSize) (codeFrame numPagCode) where
  below := le_rfl
  frames s addr tidy high present := by
    obtain ⟨_, data, _, _⟩ := Mm.regions
    have page : pagLogInitData ≤ addr.toNat / pageSize := by
      simp only [pageSize] at high ⊢
      omega
    exact (user_frame tidy (by simp only [numPagKernel]; omega) present).2 (Or.inl page)

/-- A small change makes at most one store, and that is where it writes. -/
theorem Minor.ram_below (minor : Minor s s') (laid : s.Laid) (divides : Divides low bound)
    (inside : f < bound) : (s'.stores = s.stores ∧ s'.mm.ram f = s.mm.ram f) ∨
      ∃ t addr, s'.stores = (t, addr) :: s.stores ∧
        (low ≤ addr.toNat → s'.mm.ram f = s.mm.ram f) := by
  cases minor with
  | turn next =>
      refine Or.inl ⟨rfl, ?_⟩
      show (if _ then s.mm.setCr3 _ else s.mm).ram f = _
      split
      · rfl
      · rfl
  | store addr value present =>
      refine Or.inr ⟨s.current, addr, rfl, fun high => ram_poke ?_⟩
      exact (inside.trans_le (divides.frames s addr laid.tidy high present)).ne
  | attempt addr => exact Or.inr ⟨s.current, addr, rfl, fun _ => rfl⟩
  | miss page => exact Or.inl ⟨rfl, rfl⟩
  | write addr value writable =>
      have user := divides.below.trans (user_page laid.tidy writable)
      exact Or.inl ⟨rfl, ram_poke (inside.trans_le user).ne⟩

theorem Minors.ram_below (minors : Minors s s') (laid : s.Laid) (divides : Divides low bound)
    (inside : f < bound) : (∃ more, s'.stores = more ++ s.stores) ∧
      (StoresAbove low s.stores s'.stores → s'.mm.ram f = s.mm.ram f) := by
  induction minors with
  | refl => exact ⟨⟨[], rfl⟩, fun _ => rfl⟩
  | tail earlier minor ih =>
      obtain ⟨grown, kept⟩ := ih
      rcases minor.ram_below (laid.minors earlier) divides inside with quiet | stored
      · rw [quiet.1, quiet.2]
        exact ⟨grown, kept⟩
      · obtain ⟨t, addr, shape, same⟩ := stored
        rw [shape]
        refine ⟨?_, fun above => ?_⟩
        · obtain ⟨more, split⟩ := grown
          exact ⟨(t, addr) :: more, congrArg ((t, addr) :: ·) split⟩
        · obtain ⟨above, high⟩ := above.cons grown
          exact (same high).trans (kept above)

theorem Major.stores (major : Major label s s') : s'.stores = s.stores := by
  cases major with
  | split addr value home frame busy owner reach denied many got =>
      unfold Space.split
      generalize Mm.setSsPag _ home _ frame = m
      rfl
  | _ => rfl

/-- The frames of the kernel and of the code are never handed out. -/
theorem Major.ram_below (major : Major label s s') (laid : s.Laid)
    (inside : f < codeFrame numPagCode) : s'.mm.ram f = s.mm.ram f := by
  apply major.ram_kept laid
  rw [Mm.mem_freeFrames]
  intro free
  have fixed : Fixed f := by
    by_contra loose
    have user := (userFrame_iff.mp ⟨free.1, loose⟩).1
    omega
  rw [(laid.tidy.fixed f fixed).2] at free
  exact absurd free.2 (by decide)

/-- A step that stores for a task from `low` on only leaves the frames below `bound` alone. -/
theorem Step.ram_below (step : Step label s s') (laid : s.Laid) (divides : Divides low bound)
    (inside : f < bound) (above : StoresAbove low s.stores s'.stores) :
    s'.mm.ram f = s.mm.ram f := by
  cases step with
  | minor minors => exact (Minors.ram_below minors laid divides inside).2 above
  | major major minors =>
      rw [← major.stores] at above
      exact ((Minors.ram_below minors (laid.major major) divides inside).2 above).trans
        (major.ram_below laid (inside.trans_le divides.below))

end Space

variable {k k' : Kernel} {r r' : Roster} {label : Option Action} {home : DirId} {addr : DWord}
  {start : DWord} {count : Nat}

/-! ### Steps that store nothing for a task -/

theorem stores_pfRsi : (k.pfRsi addr).stores = k.stores := by
  unfold Kernel.pfRsi
  split
  · rfl
  · dsimp only
    generalize k.getPT k.current = dir
    generalize addr.toNat >>> 12 = page
    split
    · rfl
    · split
      · split
        · rfl
        · rfl
      · rfl

theorem stores_withFault {allowed : Mm → Bool} :
    (k.withFault addr allowed).stores = k.stores := by
  have handled := @stores_pfRsi { k with mm := k.mm.fault (addr.toNat / pageSize) } addr
  unfold Kernel.withFault
  split
  · rfl
  · dsimp only
    split
    · exact handled
    · exact handled

theorem stores_userStore {value : Byte} : (k.userStore addr value).stores = k.stores := by
  unfold Kernel.userStore Kernel.storeWith
  dsimp only
  split
  · exact stores_withFault
  · exact stores_withFault

theorem stores_foldl (addrs : List DWord) : ∀ k : Kernel,
    (addrs.foldl Kernel.kernelLoad k).stores = k.stores := by
  induction addrs with
  | nil => exact fun _ => rfl
  | cons addr rest ih => exact fun k => (ih _).trans stores_withFault

theorem stores_writeLoop (fuel : Nat) : ∀ (k : Kernel) (buffer : DWord) (size offset : Nat),
    (Kernel.writeLoop fuel k buffer size offset).stores = k.stores := by
  induction fuel with
  | zero => exact fun _ _ _ _ => rfl
  | succ fuel ih =>
      intro k buffer size offset
      unfold Kernel.writeLoop
      split
      · refine (ih _ _ _ _).trans ?_
        have copied : (Kernel.copyFromUser (min size chunkSize) k
            (buffer + BitVec.ofNat 32 offset)).1.stores = k.stores := by
          rw [Kernel.copyFromUser_foldl]
          exact stores_foldl _ k
        split
        · exact copied
        · exact copied
      · rfl

theorem stores_of_space (same : k'.space = k.space) : k'.stores = k.stores :=
  congrArg Space.stores same

theorem stores_schedNext {saved : Resume} : (k.schedNextRr saved).stores = k.stores := by
  rcases @turned_schedNext k saved with same | turned
  · exact stores_of_space same
  · obtain ⟨next, same⟩ := turned
    exact congrArg Space.stores same

theorem stores_clock : k.clockRoutine.stores = k.stores := by
  have wrote : Space.Wrote (fun _ => False) k.space k.clockRoutine.space := wrote_clock
  obtain ⟨more, shape, none⟩ := wrote.stores
  have empty : more = [] := List.eq_nil_iff_forall_not_mem.mpr fun pair member => (none pair member).2
  rw [empty] at shape
  exact shape

theorem stores_wakeReader : k.wakeReader.stores = k.stores := by
  unfold Kernel.wakeReader
  dsimp only
  generalize yielded : (if k.current ≠ k.idleTask then
    k.addProcessToScheduling k.current .sysToReady false else k) = k₁
  have same : k₁.space = k.space := by
    rw [← yielded]
    split
    · exact space_addProcess
    · rfl
  split
  · exact stores_of_space (space_hang.trans same)
  · exact stores_schedNext.trans (stores_of_space (space_addProcess.trans same))

theorem stores_keyboard {value : Byte} : (k.keyboardRoutine value).stores = k.stores := by
  unfold Kernel.keyboardRoutine
  split
  · rfl
  · split
    · rfl
    · dsimp only
      split
      · rfl
      · split
        · exact stores_wakeReader
        · rfl

theorem stores_semWait {nSem : Int} : (k.sysSemWait nSem).1.stores = k.stores := by
  unfold Kernel.sysSemWait
  split
  · rfl
  · split
    · rfl
    · split
      · refine stores_schedNext.trans (stores_of_space ?_)
        rw [space_updateStats, space_updateProcessStateRr, space_note]
      · rfl

theorem stores_sysWrite {fd size : Int} {buffer : DWord} :
    (k.sysWrite fd buffer size).1.stores = k.stores := by
  unfold Kernel.sysWrite
  split
  · rfl
  · split
    · rfl
    · split
      · rfl
      · exact stores_writeLoop _ k buffer _ 0

theorem stores_sysExit (ref : Refines k r) (sound : Roster.Sound r)
    (owner : k.space.dir k.current = some home) : k.sysExit.1.stores = k.stores := by
  obtain ⟨k₁, exited, frees⟩ := sysExit_frees ref sound owner
  rw [exited]
  apply stores_schedNext.trans
  rcases frees with ⟨_, same⟩ | ⟨_, _, _, same⟩
  · exact congrArg Space.stores same
  · exact congrArg Space.stores same

/-- A system call without a buffer to fill. -/
theorem stores_syscall (ref : Refines k r) (sound : Roster.Sound r) (laid : k.space.Laid)
    (busy : k.current ≠ k.idleTask) {request : Syscall}
    (quiet : storesForUser (some (.call request)) = false) :
    (k.syscall request).1.stores = k.stores := by
  obtain ⟨home, owner⟩ := ref.owner sound
  have moved : ∀ {label : Option Action} {s : Space}, s = k.space ∨ Space.Major label k.space s →
      s.stores = k.stores := by
    intro label s either
    rcases either with same | major
    · exact congrArg Space.stores same
    · exact major.stores
  cases request with
  | niSyscall | gettime | getpid => rfl
  | exit => exact stores_sysExit ref sound owner
  | fork => exact moved (sysFork_moves ref sound busy)
  | sbrk increment => exact moved (sysSbrk_moves laid owner busy increment)
  | write fd buffer size => exact stores_sysWrite
  | semWait nSem => exact stores_semWait
  | semInit nSem value => exact stores_of_space space_semInit
  | semSignal nSem => exact stores_of_space space_semSignal
  | semDestroy nSem => exact stores_of_space space_semDestroy
  | read | getStats | clone => cases quiet

theorem stores_deliver (ref : Refines k r) (sound : Roster.Sound r) (laid : k.space.Laid)
    {action : Action} (enabled : k.enabled action = true)
    (quiet : storesForUser (some action) = false) : (k.deliver action).stores = k.stores := by
  have entered : k.updateEnteringSys.space = k.space := space_updateEnteringSys
  have before : k.updateEnteringSys.stores = k.stores := stores_of_space entered
  have left : ∀ k₁ : Kernel, k₁.leave.stores = k₁.stores := fun _ => stores_of_space space_leave
  cases action with
  | call request =>
      have busy : k.current ≠ k.idleTask := by simpa [Kernel.enabled] using enabled
      have current : k.updateEnteringSys.current = k.current := congrArg Space.current entered
      have idle : k.updateEnteringSys.idleTask = k.idleTask := congrArg Space.idle entered
      refine (left _).trans ((stores_syscall (ref.of_view view_updateEnteringSys) sound
        (entered ▸ laid) ?_ quiet).trans before)
      rw [current, idle]
      exact busy
  | badCall => rfl
  | clock => exact (left _).trans (stores_clock.trans before)
  | keyboard value => exact (left _).trans (stores_keyboard.trans before)
  | load addr => exact stores_withFault
  | store addr value => exact stores_userStore

/-! ### Where the others store -/

/-- A block above the kernel. -/
def Above (start : DWord) (count : Nat) : Prop :=
  ∀ addr, InBlock start count addr → lUserStart ≤ addr.toNat

theorem above_of_fits (high : lUserStart ≤ start.toNat) (fits : start.toNat + count ≤ 2 ^ 32) :
    Above start count := by
  intro addr within
  obtain ⟨i, _, place⟩ := inBlock_toNat fits within
  omega

/-- What `access_ok` lets the kernel write begins above the kernel, and does not wrap around. -/
theorem fits_of_access (laid : k.space.Laid) (owner : k.space.dir k.current = some home)
    {size : DWord} (small : size.toNat < 0x80000000)
    (access : k.accessOk .write start size = true) :
    lUserStart ≤ start.toNat ∧ start.toNat + size.toNat ≤ 2 ^ 32 := by
  obtain ⟨inside, room⟩ := heap_room laid owner
  have few : heapPages k.currentTask.heapTop ≤ 228 := room
  obtain ⟨code, data, last, _⟩ := Mm.regions
  have fits : start.toNat + size.toNat ≤ 2 ^ 32 := by
    by_contra wraps
    rw [accessOk_wrap small (by omega)] at access
    cases access
  refine ⟨?_, fits⟩
  have granted := (accessOk_eq fits inside).mp access
  simp only [pageSize, numPagData] at granted
  simp only [lUserStart]
  omega

/-- The stack that `sys_clone` may be given, for the word that it pushes to stay above the
kernel. -/
def sparesKernel (_ : Kernel) : Option Action → Bool
  | some (.call (.clone _ stack _)) =>
      !(decide (lUserStart ≤ stack.toNat) && decide (stack.toNat < lUserStart + 4))
  | _ => true

theorem above_of_call (laid : k.space.Laid) (owner : k.space.dir k.current = some home)
    {request : Syscall} (allowed : sparesKernel k (some (.call request)) = true)
    (target : k.target request = some (start, count)) (passes : k.passes request = true) :
    Above start count := by
  cases request with
  | read fd buffer size =>
      simp only [Kernel.passes, Bool.and_eq_true, decide_eq_true_eq] at passes
      simp only [Kernel.target] at target
      split at target
      · cases target
      · rename_i fine
        cases target
        obtain ⟨number, small⟩ := size_toNat (show 0 ≤ size.toInt by omega)
        rw [number]
        obtain ⟨high, fits⟩ := fits_of_access laid owner small passes.2
        exact above_of_fits high fits
  | getStats pid st =>
      simp only [Kernel.passes, Bool.and_eq_true, decide_eq_true_eq] at passes
      simp only [Kernel.target] at target
      split at target
      · cases target
      · split at target
        · cases target
        · cases target
          obtain ⟨high, fits⟩ := fits_of_access laid owner (by decide) passes.2
          exact above_of_fits high fits
  | clone function stack exitFunc =>
      simp only [Kernel.passes, Bool.and_eq_true] at passes
      simp only [sparesKernel, Bool.not_eq_true', Bool.and_eq_false_iff, decide_eq_false_iff_not]
        at allowed
      simp only [Kernel.target] at target
      split at target
      · cases target
      · cases target
        obtain ⟨high, fits⟩ := fits_of_access laid owner (by decide) passes.2
        have four : (4 : DWord).toNat = 4 := rfl
        have bound := stack.isLt
        have below : (stack - 4).toNat = stack.toNat - 4 := by
          rw [BitVec.toNat_sub, four]
          omega
        apply above_of_fits
        · omega
        · omega
  | _ => cases target

/-- The buffers of the reads that wait are above the kernel. -/
def Kernel.ReadsAbove (k : Kernel) : Prop :=
  ∀ t buffer totalSize, k.space.dir t ≠ none → (t = k.current → k.mode = .switching) →
    (k.tasks t).kernelEsp.reads buffer totalSize → Above buffer totalSize.toNat

theorem Kernel.ReadsAbove.step (above : k.ReadsAbove) (ref : Refines k r)
    (sound : Roster.Sound r) (laid : k.space.Laid) (stepped : k.step label = some k') :
    k'.ReadsAbove := by
  obtain ⟨r', step, after, refused⟩ := ref.step sound stepped
  intro t buffer totalSize alive away reads
  have core : (k'.tasks t).core = r'.task t := after.core t
  have before : (k.tasks t).core = r.task t := ref.core t
  have alive' : (r'.task t).dir ≠ none := by
    rw [← core]
    exact alive
  have away' : r'.Away t := by
    rw [Roster.Away, ← after.current, ← after.mode]
    exact away
  have reads' : (r'.task t).resume.reads buffer totalSize := by
    rw [← core]
    exact reads
  rcases step.reads sound alive' away' reads' with waited | called
  · obtain ⟨living, resumed, reading⟩ := waited
    rw [← before] at living reading
    apply above t buffer totalSize living _ reading
    intro mine
    rw [resumed (mine.trans ref.current)] at stepped
    exact (step_none stepped).1
  · obtain ⟨mine, fd, size, rfl, rfl⟩ := called
    rw [← ref.current] at mine
    obtain ⟨home, owner⟩ := ref.owner sound
    have user := (step_action stepped).1
    have checked : k.readChecked fd.toInt buffer size = true := by
      by_contra unchecked
      have still := refused fd buffer size rfl (Bool.eq_false_iff.mpr unchecked)
      rw [still] at away'
      have switching := away' (mine.trans ref.current)
      rw [← ref.mode, user] at switching
      cases switching
    obtain ⟨_, _, positive, access⟩ := readChecked_iff.mp checked
    obtain ⟨number, small⟩ := size_toNat positive
    obtain ⟨high, fits⟩ := fits_of_access laid owner small access
    rw [number]
    exact above_of_fits high fits

theorem Refines.readsAbove (ref : Refines k r) (none : ∀ t, (r.task t).resume.reading = false) :
    k.ReadsAbove := by
  intro t buffer totalSize _ _ reads
  have quiet := none t
  rw [← ref.core t] at quiet
  exact absurd (reads.reading.symm.trans quiet) (by decide)

theorem above_step (ref : Refines k r) (sound : Roster.Sound r) (laid : k.space.Laid)
    (above : k.ReadsAbove) (allowed : sparesKernel k label = true)
    (stepped : k.step label = some k') : StoresAbove lUserStart k.stores k'.stores := by
  obtain ⟨home, owner⟩ := ref.owner sound
  cases label with
  | none =>
      obtain ⟨switching, rfl⟩ := step_none stepped
      rcases resume_block ref sound laid switching with same | stored
      · exact .same same
      · obtain ⟨buffer, totalSize, reads, _, more, shape, mine⟩ := stored
        have block := above k.current buffer totalSize (Space.housed owner) (fun _ => switching) reads
        exact ⟨more, shape, fun pair member => block pair.2 (mine pair member).2⟩
  | some action =>
      obtain ⟨_, enabled, rfl⟩ := step_action stepped
      by_cases quiet : storesForUser (some action) = false
      · exact .same (stores_deliver ref sound laid enabled quiet)
      · rw [Bool.not_eq_false] at quiet
        cases action with
        | call request =>
            have busy : k.current ≠ k.idleTask := by simpa [Kernel.enabled] using enabled
            have entered : k.updateEnteringSys.space = k.space := space_updateEnteringSys
            have current : k.updateEnteringSys.current = k.current := congrArg Space.current entered
            have idle : k.updateEnteringSys.idleTask = k.idleTask := congrArg Space.idle entered
            have before : k.updateEnteringSys.stores = k.stores := stores_of_space entered
            have stored : (k.deliver (.call request)).stores =
                (k.updateEnteringSys.syscall request).1.stores := stores_of_space space_leave
            have guards : k.updateEnteringSys.Guards request := by
              apply guards_call (ref.of_view view_updateEnteringSys) sound (entered ▸ laid) _ quiet
              rw [current, idle]
              exact busy
            rw [stored, ← before]
            cases target : k.target request with
            | none => exact .same (guards.idle (target_updateEnteringSys.trans target))
            | some block =>
                have place := (@target_updateEnteringSys k request).trans target
                by_cases passes : k.passes request = true
                · obtain ⟨more, shape, mine⟩ := guards.block block.1 block.2 place
                  have high := above_of_call laid owner allowed target passes
                  exact ⟨more, shape, fun pair member => high pair.2 (mine pair member).2⟩
                · have denied := passes_updateEnteringSys.trans (Bool.eq_false_iff.mpr passes)
                  rw [guards.refused block.1 block.2 place denied]
                  exact .same rfl
        | _ => cases quiet

/-- What every run keeps. -/
structure Kernel.Regular (k : Kernel) : Prop where
  refines : ∃ r, Refines k r ∧ Roster.Sound r
  laid : k.stuck = true ∨ k.space.Laid
  reads : k.ReadsAbove

theorem Kernel.Regular.boot (image : Image) : (Kernel.boot image).Regular where
  refines := ⟨Roster.boot, boot_refines image, Roster.boot_sound⟩
  laid := Or.inr (boot_space image).laid
  reads := (boot_refines image).readsAbove (by decide)

/-- A step changes the frames below a bound only by stores of the kernel. -/
theorem Kernel.Regular.ram_below (regular : k.Regular) (stepped : k.step label = some k')
    {bound f : Nat} (divides : Space.Divides low bound) (inside : f < bound)
    (above : StoresAbove low k.stores k'.stores) : k'.mm.ram f = k.mm.ram f := by
  obtain ⟨r, ref, sound⟩ := regular.refines
  have laid := regular.laid.resolve_left (stuck_step stepped)
  rcases ref.step_space sound laid stepped with moved | last
  · exact moved.ram_below laid divides inside above
  · obtain ⟨_, addr, value, home, _, _, _, _, same⟩ := last
    have ram : k'.space.mm.ram = (k.space.released home (addr.toNat / pageSize)).ram := by rw [same]
    exact congrFun (ram.trans Space.ram_released) f

theorem Kernel.Regular.step (regular : k.Regular) (stepped : k.step label = some k') :
    k'.Regular ∧ (sparesKernel k label = true → StoresAbove lUserStart k.stores k'.stores) := by
  obtain ⟨r, ref, sound⟩ := regular.refines
  have laid := regular.laid.resolve_left (stuck_step stepped)
  obtain ⟨r', step, after, _⟩ := ref.step sound stepped
  have reads := regular.reads.step ref sound laid stepped
  refine ⟨⟨⟨r', after, sound.step step⟩, ?_, reads⟩, fun allowed =>
    above_step ref sound laid regular.reads allowed stepped⟩
  rcases ref.step_space sound laid stepped with moved | last
  · exact Or.inr (laid.step moved)
  · exact Or.inl last.1

theorem regular_of_reachable {admits : Kernel → Option Action → Prop}
    (reached : Reachable admits k) : k.Regular :=
  reached.invariant Kernel.Regular
    (by
      rintro _ ⟨image, rfl⟩
      exact .boot image)
    fun _ _ _ before _ stepped => (before.step stepped).1

/-- The kernel stores for the processes from the user area up only, and neither these stores nor
those of the programs nor the copies of `copy_frame` go to a frame of the kernel, as long as no
`sys_clone` is given a stack in the first four bytes of the user area: `access_ok` lets the kernel
push below them. What the kernel writes for itself into its frames is not in `ram`. -/
theorem stores_spare_kernel {k k' : Kernel} (reached : Reachable anyAction k)
    {labels : List (Option Action)}
    (ran : Transition.run Kernel.step sparesKernel k labels = some k') :
    (∃ more, k'.stores = more ++ k.stores ∧ ∀ pair ∈ more, lUserStart ≤ pair.2.toNat) ∧
      ∀ frame < numPagKernel, k'.mm.ram frame = k.mm.ram frame := by
  have later : Transition.Reachable Kernel.step (fun s label => sparesKernel s label = true)
      (fun s => s = k) k' := .of_run (.start rfl) ran
  have kept : k'.Regular ∧ StoresAbove lUserStart k.stores k'.stores ∧
      ∀ frame < numPagKernel, k'.mm.ram frame = k.mm.ram frame := by
    apply later.invariant fun s => s.Regular ∧ StoresAbove lUserStart k.stores s.stores ∧
      ∀ frame < numPagKernel, s.mm.ram frame = k.mm.ram frame
    · rintro _ rfl
      exact ⟨regular_of_reachable reached, .same rfl, fun _ _ => rfl⟩
    · rintro s label s' ⟨regular, stored, same⟩ allowed stepped
      obtain ⟨regular', above⟩ := regular.step stepped
      refine ⟨regular', stored.trans (above allowed), fun frame inside => ?_⟩
      exact (regular.ram_below stepped Space.divides_kernel inside (above allowed)).trans
        (same frame inside)
  exact kept.2

/-- A process writes to its stack and to its heap, forks, and clones a task with a stack at the
start of its data. -/
theorem stores_spare_kernel_clone : ∃ k',
    Transition.run Kernel.step sparesKernel (Kernel.after everyStep [])
      [some (.store 0x108000 1), some (.call (.sbrk 4096)), some (.call .fork),
        some (.call (.clone 0x100000 0x108000 7))] = some k' ∧
    (∃ more, k'.stores = more ++ (Kernel.after everyStep []).stores ∧
      ∀ pair ∈ more, lUserStart ≤ pair.2.toNat) ∧
    ∀ frame < numPagKernel, k'.mm.ram frame = (Kernel.after everyStep []).mm.ram frame := by
  have ran : (Transition.run Kernel.step sparesKernel (Kernel.after everyStep [])
      [some (.store 0x108000 1), some (.call (.sbrk 4096)), some (.call .fork),
        some (.call (.clone 0x100000 0x108000 7))]).isSome = true := by
    decide +kernel
  obtain ⟨k', ended⟩ := Option.isSome_iff_exists.mp ran
  have reached : Reachable anyAction (Kernel.after everyStep []) :=
    (@reached_after everyStep [] (by decide +kernel)).any
  exact ⟨k', ended, stores_spare_kernel reached ended⟩

/-- The word below the code is in the last page of the kernel, which ring 0 may write to. -/
example : (Kernel.after everyStep [some (.call (.clone 0x100000 0x100000 0x1234567))]).mm.ram 255 0xFFC
    = 0x67 := by
  decide +kernel

/-! ### The code -/

theorem ownPage_above (laid : k.space.Laid) (owner : k.space.dir k.current = some home)
    (own : k.OwnPage k.current (addr.toNat / pageSize)) :
    pagLogInitData * pageSize ≤ addr.toNat := by
  have page := (laid.low owner (ownPage_iff.mp own)).1
  simp only [pageSize] at page ⊢
  omega

theorem above_judged (ref : Refines k r) (sound : Roster.Sound r) (laid : k.space.Laid)
    (own : k.ReadsOwn) (allowed : judged k label) (stepped : k.step label = some k') :
    StoresAbove (pagLogInitData * pageSize) k.stores k'.stores := by
  obtain ⟨home, owner⟩ := ref.owner sound
  have high : k.WritesOwn label k' →
      StoresAbove (pagLogInitData * pageSize) k.stores k'.stores := by
    intro writes
    obtain ⟨more, shape, mine⟩ := writes.own
    exact ⟨more, shape, fun pair member => ownPage_above laid owner (mine pair member).2.1⟩
  cases label with
  | none => exact high (writesOwn_resume ref sound laid own stepped)
  | some action =>
      by_cases quiet : storesForUser (some action) = false
      · obtain ⟨_, enabled, rfl⟩ := step_action stepped
        exact .same (stores_deliver ref sound laid enabled quiet)
      · rw [Bool.not_eq_false] at quiet
        cases action with
        | call request => exact high (writesOwn_call ref sound laid quiet allowed stepped)
        | _ => cases quiet

theorem Kernel.Regular.judged (regular : k.Regular) (own : k.ReadsOwn) (allowed : judged k label)
    (stepped : k.step label = some k') :
    k'.ReadsOwn ∧ StoresAbove (pagLogInitData * pageSize) k.stores k'.stores := by
  obtain ⟨r, ref, sound⟩ := regular.refines
  have laid := regular.laid.resolve_left (stuck_step stepped)
  exact ⟨own.step ref sound laid allowed stepped,
    above_judged ref sound laid own allowed stepped⟩

/-- As long as `access_ok` judges rightly, nothing that the processes do changes the code that
they share. -/
theorem code_kept {k k' : Kernel} (reached : Reachable judged k) {labels : List (Option Action)}
    (ran : Transition.run Kernel.step (fun k label => decide (judged k label)) k labels = some k')
    {page : Nat} (inside : page < numPagCode) :
    k'.mm.ram (codeFrame page) = k.mm.ram (codeFrame page) := by
  have later : Transition.Reachable Kernel.step
      (fun s label => decide (judged s label) = true) (fun s => s = k) k' := .of_run (.start rfl) ran
  have start : k.Regular ∧ k.ReadsOwn := by
    apply reached.invariant fun s => s.Regular ∧ s.ReadsOwn
    · rintro _ ⟨image, rfl⟩
      exact ⟨.boot image, (boot_refines image).readsOwn (by decide)⟩
    · intro s label s' before allowed stepped
      exact ⟨(before.1.step stepped).1, (before.1.judged before.2 allowed stepped).1⟩
  have below : codeFrame page < codeFrame numPagCode := by
    simp only [codeFrame]
    omega
  have kept : (k'.Regular ∧ k'.ReadsOwn) ∧
      k'.mm.ram (codeFrame page) = k.mm.ram (codeFrame page) := by
    apply later.invariant fun s =>
      (s.Regular ∧ s.ReadsOwn) ∧ s.mm.ram (codeFrame page) = k.mm.ram (codeFrame page)
    · rintro _ rfl
      exact ⟨start, rfl⟩
    · intro s label s' before allowed stepped
      obtain ⟨⟨regular, own⟩, same⟩ := before
      obtain ⟨own', above⟩ := regular.judged own (of_decide_eq_true allowed) stepped
      refine ⟨⟨(regular.step stepped).1, own'⟩, Eq.trans ?_ same⟩
      exact regular.ram_below stepped Space.divides_code below above
  exact kept.2

/-- A process gets a page of heap and its statistics there, writes to its stack and forks. -/
theorem code_kept_heap : ∃ k', Transition.run Kernel.step (fun k label => decide (judged k label))
      (Kernel.after everyStep []) [some (.call (.sbrk 4095)), some (.call (.getStats 1 0x1FF000)),
        some (.store 0x108000 1), some (.call .fork)] = some k' ∧
    k'.mm.ram (codeFrame 0) = (Kernel.after everyStep []).mm.ram (codeFrame 0) := by
  have ran : (Transition.run Kernel.step (fun k label => decide (judged k label))
      (Kernel.after everyStep []) [some (.call (.sbrk 4095)), some (.call (.getStats 1 0x1FF000)),
        some (.store 0x108000 1), some (.call .fork)]).isSome = true := by
    decide +kernel
  obtain ⟨k', ended⟩ := Option.isSome_iff_exists.mp ran
  have reached : Reachable judged (Kernel.after everyStep []) := .start ⟨Image.empty, rfl⟩
  exact ⟨k', ended, code_kept reached ended (by decide)⟩

/-- `access_ok` takes the code for memory that the kernel may fill. -/
example : (Kernel.after everyStep [some (.call (.getStats 1 0x100000))]).mm.ram (codeFrame 0) 24
    ≠ (Kernel.after everyStep []).mm.ram (codeFrame 0) 24 := by
  decide +kernel

end Zeos
