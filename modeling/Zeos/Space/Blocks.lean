import Zeos.Space.Exact

set_option autoImplicit false

/-! Where ring 0 stores: a system call writes to a block of addresses only, through the page
table of the running task. -/

namespace Zeos

/-- The addresses of a block. -/
def InBlock (start : DWord) (count : Nat) (addr : DWord) : Prop :=
  ∃ i < count, addr = start + BitVec.ofNat 32 i

namespace Space

variable {s s₁ s' : Space} {block : DWord → Prop} {addr : DWord} {value : Byte}

/-- The kernel has stored bytes for the running task, at addresses of the block, and has left
the page tables alone. -/
structure Wrote (block : DWord → Prop) (s s' : Space) : Prop where
  entries : s'.mm.getEntry = s.mm.getEntry
  dir : s'.dir = s.dir
  heapTop : s'.heapTop = s.heapTop
  idle : s'.idle = s.idle
  stores : ∃ more, s'.stores = more ++ s.stores ∧ ∀ pair ∈ more, pair.1 = s.current ∧ block pair.2
  ram : ∀ f o, s'.mm.ram f o = s.mm.ram f o ∨ ∃ addr, block addr ∧
    (s.mm.mapped (addr.toNat / pageSize)).present = true ∧
    (s.mm.mapped (addr.toNat / pageSize)).pbaseAddr = f

/-- The same, and the task still runs. -/
structure Poked (block : DWord → Prop) (s s' : Space) : Prop extends Wrote block s s' where
  current : s'.current = s.current
  cr3 : s'.mm.cr3 = s.mm.cr3

theorem Wrote.mono {wider : DWord → Prop} (wrote : Wrote block s s')
    (within : ∀ addr, block addr → wider addr) : Wrote wider s s' where
  entries := wrote.entries
  dir := wrote.dir
  heapTop := wrote.heapTop
  idle := wrote.idle
  stores := by
    obtain ⟨more, shape, mine⟩ := wrote.stores
    exact ⟨more, shape, fun pair member => ⟨(mine pair member).1, within _ (mine pair member).2⟩⟩
  ram f o := by
    apply (wrote.ram f o).imp_right
    intro stored
    obtain ⟨addr, inside, place⟩ := stored
    exact ⟨addr, within addr inside, place⟩

theorem Poked.refl : Poked block s s where
  entries := rfl
  dir := rfl
  heapTop := rfl
  idle := rfl
  stores := ⟨[], rfl, by simp⟩
  ram _ _ := Or.inl rfl
  current := rfl
  cr3 := rfl

theorem Poked.mapped (poked : Poked block s s₁) : s₁.mm.mapped = s.mm.mapped := by
  funext page
  rw [Mm.mapped, Mm.mapped, poked.cr3, poked.entries]

theorem Poked.then (first : Poked block s s₁) (second : Wrote block s₁ s') : Wrote block s s' where
  entries := second.entries.trans first.entries
  dir := second.dir.trans first.dir
  heapTop := second.heapTop.trans first.heapTop
  idle := second.idle.trans first.idle
  stores := by
    obtain ⟨more, shape, mine⟩ := first.stores
    obtain ⟨later, shape', mine'⟩ := second.stores
    refine ⟨later ++ more, ?_, ?_⟩
    · rw [shape', shape, List.append_assoc]
    · intro pair member
      rcases List.mem_append.mp member with new | old
      · rw [← first.current]
        exact mine' pair new
      · exact mine pair old
  ram f o := by
    rcases second.ram f o with same | stored
    · rw [same]
      exact first.ram f o
    · rw [first.mapped] at stored
      exact Or.inr stored

theorem Poked.trans (first : Poked block s s₁) (second : Poked block s₁ s') : Poked block s s' where
  toWrote := first.then second.toWrote
  current := second.current.trans first.current
  cr3 := second.cr3.trans first.cr3

theorem Poked.attempt (within : block addr) : Poked block s (s.attempt addr) where
  entries := rfl
  dir := rfl
  heapTop := rfl
  idle := rfl
  stores := by
    refine ⟨[(s.current, addr)], rfl, ?_⟩
    intro pair member
    rw [List.mem_singleton.mp member]
    exact ⟨rfl, within⟩
  ram _ _ := Or.inl rfl
  current := rfl
  cr3 := rfl

theorem Poked.miss {page : Nat} : Poked block s (s.miss page) where
  entries := rfl
  dir := rfl
  heapTop := rfl
  idle := rfl
  stores := ⟨[], rfl, by simp⟩
  ram _ _ := Or.inl rfl
  current := rfl
  cr3 := rfl

theorem Poked.store (within : block addr)
    (present : (s.mm.mapped (addr.toNat / pageSize)).present = true) :
    Poked block s (s.store addr value) where
  entries := rfl
  dir := rfl
  heapTop := rfl
  idle := rfl
  stores := (@Poked.attempt s block addr within).stores
  ram f o := by
    by_cases here : f = (s.mm.mapped (addr.toNat / pageSize)).pbaseAddr
    · exact Or.inr ⟨addr, within, present, here.symm⟩
    · left
      show Function.update s.mm.ram _ _ f o = _
      rw [Function.update_of_ne here]
  current := rfl
  cr3 := rfl

theorem Wrote.turn (next : TaskId) : Wrote block s (s.turn next) where
  entries := by
    unfold Space.turn
    dsimp only
    split <;> rfl
  dir := rfl
  heapTop := rfl
  idle := rfl
  stores := ⟨[], rfl, by simp⟩
  ram f o := by
    left
    unfold Space.turn
    dsimp only
    split <;> rfl

end Space

open Space (Wrote Poked)

variable {k k' : Kernel} {home : DirId} {block : DWord → Prop} {addr buffer : DWord}
  {value : Byte}

theorem poked_of_same (same : k'.space = k.space) : Poked block k.space k'.space :=
  same ▸ Poked.refl

theorem poked_kernelStore (laid : k.space.Laid) (owner : k.space.dir k.current = some home)
    (within : block addr) : Poked block k.space (k.kernelStore addr value).space := by
  have attempt : Kernel.space { k with stores := (k.current, addr) :: k.stores } =
      k.space.attempt addr := rfl
  have laid' := laid.minor (.attempt addr)
  rw [← attempt] at laid'
  unfold Kernel.kernelStore Kernel.storeWith
  dsimp only
  rcases withFault_quiet laid' owner addr
    (fun m => m.kernelWritable (addr.toNat / pageSize)) (by
      intro both
      exact (kernelWritable_eq laid).trans both.1) with ⟨fine, same⟩ | ⟨stuck, missed⟩
  · rw [same]
    split
    · exact Poked.attempt within
    · exact Poked.store within ((kernelWritable_eq laid).symm.trans fine)
  · rw [if_pos stuck, missed, attempt]
    exact (Poked.attempt within).trans Poked.miss

theorem poked_kernelStores (values : List Byte) : ∀ (k : Kernel) (addr : DWord), k.space.Laid →
    k.space.dir k.current = some home →
    (∀ i < values.length, block (addr + BitVec.ofNat 32 i)) →
    Poked block k.space (k.kernelStores addr values).space := by
  induction values with
  | nil => exact fun _ _ _ _ _ => Poked.refl
  | cons value rest ih =>
      intro k addr laid owner within
      have here : addr + BitVec.ofNat 32 0 = addr := BitVec.add_zero addr
      have first := within 0 (Nat.zero_lt_succ _)
      rw [here] at first
      have laid' := laid.minors (@minors_kernelStore k home laid owner addr value)
      rw [Kernel.kernelStores]
      apply (poked_kernelStore laid owner first).trans
      apply ih _ _ laid' (owner_of_view view_storeWith owner)
      intro i below
      have next : addr + 1 + BitVec.ofNat 32 i = addr + BitVec.ofNat 32 (i + 1) := by
        rw [BitVec.add_assoc, Nat.add_comm i 1, BitVec.ofNat_add]
        rfl
      rw [next]
      exact within (i + 1) (Nat.succ_lt_succ below)

/-- The ring after a character has left it. -/
theorem contents_drop {kb : Keyboard} (fromInside : kb.buffFrom < keyboardBufferSize)
    (toInside : kb.buffTo < keyboardBufferSize) (some : kb.isBufferEmpty = false) :
    kb.contents.length = kb.drop.contents.length + 1 ∧ kb.drop.buffFrom < keyboardBufferSize := by
  have different : kb.buffFrom ≠ kb.buffTo := beq_eq_false_iff_ne.mp some
  refine ⟨?_, RingBuffer.next_lt fromInside⟩
  rw [Keyboard.contents, RingBuffer.contents_pop fromInside toInside different]
  rfl

/-- `read_from_keyboard_buffer` writes as many bytes as there are characters. -/
theorem poked_readBuffer (size : Nat) : ∀ (k : Kernel) (buffer : DWord) (count : Nat),
    k.space.Laid → k.space.dir k.current = some home →
    k.keyboard.buffFrom < keyboardBufferSize → k.keyboard.buffTo < keyboardBufferSize →
    (∀ i < size, i < k.keyboard.contents.length → block (buffer + BitVec.ofNat 32 (count + i))) →
    Poked block k.space (Kernel.readFromKeyboardBuffer size k buffer count).1.space := by
  induction size with
  | zero => exact fun _ _ _ _ _ _ _ _ => Poked.refl
  | succ size ih =>
      intro k buffer count laid owner fromInside toInside within
      unfold Kernel.readFromKeyboardBuffer
      split
      · exact Poked.refl
      · rename_i some
        dsimp only
        obtain ⟨length, fromInside'⟩ :=
          contents_drop fromInside toInside (Bool.eq_false_iff.mpr some)
        have first : block (buffer + BitVec.ofNat 32 count) :=
          within 0 (Nat.zero_lt_succ size) (by omega)
        have minors := @minors_kernelStore k home laid owner (buffer + BitVec.ofNat 32 count)
          k.keyboard.front
        have stored := @poked_kernelStore k home block _ k.keyboard.front laid owner first
        have same : (k.kernelStore (buffer + BitVec.ofNat 32 count) k.keyboard.front).view =
          k.view := view_storeWith
        have owner' := owner_of_view same owner
        have laid' := laid.minors minors
        have cells := congrArg View.buffer same
        have start := congrArg View.buffFrom same
        have stop := congrArg View.buffTo same
        generalize k.kernelStore (buffer + BitVec.ofNat 32 count) k.keyboard.front = k₁
          at stored laid' owner' cells start stop ⊢
        change k₁.keyboard.keyboardBuffer = k.keyboard.keyboardBuffer at cells
        change k₁.keyboard.buffFrom = k.keyboard.buffFrom at start
        change k₁.keyboard.buffTo = k.keyboard.buffTo at stop
        have ring : k₁.keyboard.drop.buffFrom = k.keyboard.drop.buffFrom := by
          rw [Keyboard.drop, Keyboard.drop, start]
        have left : k₁.keyboard.drop.contents = k.keyboard.drop.contents := by
          rw [Keyboard.contents, Keyboard.contents, ring]
          show RingBuffer.contents _ k₁.keyboard.keyboardBuffer _ k₁.keyboard.buffTo = _
          rw [cells, stop]
          rfl
        apply stored.trans
        apply ih { (k₁.note _) with keyboard := k₁.keyboard.drop } buffer (count + 1) laid' owner'
        · exact ring ▸ fromInside'
        · exact stop ▸ toInside
        · intro i below room
          change i < k₁.keyboard.drop.contents.length at room
          rw [left] at room
          rw [Nat.add_right_comm, Nat.add_assoc]
          exact within (i + 1) (Nat.succ_lt_succ below) (by omega)

/-- `sched_next_rr` gives the CPU away, or breaks the machine. -/
theorem turned_schedNext {saved : Resume} : (k.schedNextRr saved).space = k.space ∨
    ∃ next, (k.schedNextRr saved).space = k.space.turn next := by
  unfold Kernel.schedNextRr
  split
  · exact Or.inl rfl
  · rename_i next _
    dsimp only
    rw [space_taskSwitch]
    have same : ((({ (k.updateProcessStateRr next none).updateStats next .readyToSys with
        currentTicks := 0 } : Kernel).updateStats next .currentTicksUpdated)).space = k.space := by
      rw [space_updateStats]
      change ((k.updateProcessStateRr next none).updateStats next .readyToSys).space = _
      rw [space_updateStats, space_updateProcessStateRr]
    rw [same]
    exact Or.inr ⟨next, rfl⟩

theorem wrote_schedNext {saved : Resume} : Wrote block k.space (k.schedNextRr saved).space := by
  rcases @turned_schedNext k saved with same | turned
  · exact (poked_of_same same).toWrote
  · obtain ⟨next, same⟩ := turned
    rw [same]
    exact Wrote.turn next

theorem wrote_of_same (same : k'.space = k.space) {s : Space} (wrote : Wrote block k'.space s) :
    Wrote block k.space s := same ▸ wrote

theorem wrote_clock : Wrote block k.space k.clockRoutine.space := by
  unfold Kernel.clockRoutine
  split
  · unfold Kernel.executeScheduling
    dsimp only
    have ticked : Kernel.space (Kernel.updateSchedDataRr { k with zeosTicks := k.zeosTicks + 1 }) =
        k.space := by
      unfold Kernel.updateSchedDataRr
      exact space_updateStats
    generalize Kernel.updateSchedDataRr { k with zeosTicks := k.zeosTicks + 1 } = k₁ at ticked ⊢
    split
    · apply wrote_of_same _ wrote_schedNext
      rw [space_updateStats, ← ticked]
      split
      · exact space_updateProcessStateRr
      · rfl
    · exact (poked_of_same ticked).toWrote
  · exact Poked.refl.toWrote

/-- A load of the running program stores nothing. -/
theorem poked_userLoad (laid : k.space.Laid) (owner : k.space.dir k.current = some home) :
    Poked block k.space (k.userLoad addr).space := by
  have enough : (k.mm.mapped (addr.toNat / pageSize)).present = true ∧
      (k.mm.mapped (addr.toNat / pageSize)).user = true →
      k.mm.userReadable (addr.toNat / pageSize) = true := by
    intro both
    rw [Mm.userReadable, both.1, both.2]
    rfl
  rcases withFault_quiet laid owner addr (fun m => m.userReadable (addr.toNat / pageSize)) enough
    with quiet | stopped
  · exact poked_of_same (congrArg Kernel.space quiet.2)
  · obtain ⟨_, missed⟩ := stopped
    unfold Kernel.userLoad
    rw [missed]
    exact Poked.miss

theorem wrote_blockInRead {first : Bool} {saved : Resume} :
    Wrote block k.space (k.blockInRead first saved).space := by
  unfold Kernel.blockInRead
  have same : ((k.updateProcessState k.current (some .keyboardqueue) first).updateStats
      (k.updateProcessState k.current (some .keyboardqueue) first).current .sysToBlocked).space =
      k.space := by
    rw [space_updateStats, space_updateProcessState]
  rw [← same]
  exact wrote_schedNext

theorem wrote_readLoop {totalSize size : Int} :
    Wrote block k.space (k.readKeyboardLoop buffer totalSize size).1.space := by
  unfold Kernel.readKeyboardLoop
  split
  · exact wrote_blockInRead (k := { k with
      keyboard := { k.keyboard with remainingToRead := size } })
  · exact Poked.refl.toWrote

theorem InBlock.mono {start : DWord} {count count' : Nat} (within : InBlock start count addr)
    (more : count ≤ count') : InBlock start count' addr := by
  obtain ⟨i, below, same⟩ := within
  exact ⟨i, Nat.lt_of_lt_of_le below more, same⟩

/-- The block of a later round is the last part of the buffer. -/
theorem InBlock.tail {totalSize size : Int} {count : Nat}
    (within : InBlock (buffer + BitVec.ofInt 32 (totalSize - size)) count addr)
    (fits : count ≤ size.toNat) (some : 0 ≤ size) (part : size ≤ totalSize) :
    InBlock buffer totalSize.toNat addr := by
  obtain ⟨i, below, same⟩ := within
  have offset : BitVec.ofInt 32 (totalSize - size) = BitVec.ofNat 32 (totalSize - size).toNat := by
    rw [← BitVec.ofInt_natCast, Int.toNat_of_nonneg (by omega)]
  refine ⟨(totalSize - size).toNat + i, by omega, ?_⟩
  rw [same, offset, BitVec.add_assoc, ← BitVec.ofNat_add]

section
variable {r : Roster} {totalSize size : Int}

/-- `sys_read_keyboard` writes the characters that are there to its buffer. -/
theorem wrote_readFirst (ref : Refines k r) (laid : k.space.Laid)
    (owner : k.space.dir k.current = some home) :
    Wrote (InBlock buffer (min totalSize.toNat r.pending.length)) k.space
      (k.readKeyboardFirst buffer totalSize).1.space := by
  unfold Kernel.readKeyboardFirst
  apply Poked.then _ wrote_readLoop
  apply poked_readBuffer _ _ _ _ laid owner ref.fromInside ref.toInside
  intro i below room
  rw [ref.contents] at room
  rw [Nat.zero_add]
  exact ⟨i, by omega, rfl⟩

theorem wrote_readAgain (ref : Refines k r) (laid : k.space.Laid)
    (owner : k.space.dir k.current = some home) :
    Wrote (InBlock (buffer + BitVec.ofInt 32 (totalSize - size)) (min size.toNat r.pending.length))
      k.space (k.readKeyboardAgain buffer totalSize size).1.space := by
  unfold Kernel.readKeyboardAgain
  apply Poked.then _ wrote_readLoop
  apply poked_readBuffer _ _ _ _ laid owner ref.fromInside ref.toInside
  intro i below room
  rw [ref.contents] at room
  rw [Nat.zero_add]
  exact ⟨i, by omega, rfl⟩

/-- `sys_read` writes to its buffer if it passes its checks and no reader waits. -/
theorem wrote_sysRead (ref : Refines k r) (laid : k.space.Laid)
    (owner : k.space.dir k.current = some home) {fd : Int} {length : DWord}
    (within : k.readChecked fd buffer length = true → listEmpty k.links .keyboardqueue = true →
      ∀ addr, InBlock buffer (min length.toInt.toNat r.pending.length) addr → block addr) :
    Wrote block k.space (k.sysRead fd buffer length).1.space := by
  by_cases checked : k.readChecked fd buffer length = true
  · rw [(sysRead_checked checked).2]
    unfold Kernel.sysReadKeyboard
    dsimp only
    split
    · exact @wrote_blockInRead (k.note (.readCalled k.current buffer length.toInt.toNat)) block _ _
    · rename_i some
      have empty : ¬ (!listEmpty k.links .keyboardqueue) = true := some
      have noted := ref.note (.readCalled k.current buffer length.toInt.toNat)
      apply (@wrote_readFirst (k.note (.readCalled k.current buffer length.toInt.toNat)) home buffer
        _ _ noted laid owner).mono
      exact within checked (by simpa using empty)
  · rw [sysRead_refused (Bool.eq_false_iff.mpr checked)]
    exact Poked.refl.toWrote

end

/-- `sys_get_stats` writes to its buffer if it passes its checks and finds the process. -/
theorem poked_sysGetStats (laid : k.space.Laid) (owner : k.space.dir k.current = some home)
    {pid : Int} {st : DWord}
    (within : ¬ pid < 0 → ¬ (st = 0 ∨ (!k.accessOk .write st 28) = true) → ∀ i,
      ((List.finRange nrTasks).find? fun i => (k.tasks i).pid == pid) = some i →
      (k.tasks i).state ≠ .invalid → ∀ addr, InBlock st 28 addr → block addr) :
    Poked block k.space (k.sysGetStats pid st).1.space := by
  unfold Kernel.sysGetStats
  split
  · exact Poked.refl
  · rename_i positive
    split
    · exact Poked.refl
    · rename_i passed
      split
      · exact Poked.refl
      · rename_i i found
        split
        · exact Poked.refl
        · rename_i alive
          dsimp only
          generalize refreshed : (if (k.tasks i).state = .ready ∨ (k.tasks i).state = .blocked then
            k.updateStats i .refresh else k) = k₁
          have space : k₁.space = k.space := by
            rw [← refreshed]
            split
            · exact space_updateStats
            · rfl
          have view : k₁.view = k.view := by
            rw [← refreshed]
            split
            · exact view_updateStats
            · rfl
          rw [← space]
          apply poked_kernelStores _ k₁ st (space ▸ laid) (owner_of_view view owner)
          intro j below
          exact within positive passed i found alive _ ⟨j, below, rfl⟩

/-- `sys_clone` pushes a word on the stack of the new thread. -/
theorem stores_sysClone {r : Roster} (ref : Refines k r) (sound : Roster.Sound r)
    (laid : k.space.Laid) (busy : k.current ≠ k.idleTask) (function stack exitFunc : DWord) :
    ∃ more, (k.sysClone function stack exitFunc).1.stores = more ++ k.stores ∧
      ∀ pair ∈ more, pair.1 = k.current ∧ InBlock (stack - 4) 4 pair.2 := by
  rcases sysClone_joins ref sound function stack exitFunc with same | joined
  · exact ⟨[], congrArg Space.stores same, by simp⟩
  · obtain ⟨task, home, k₁, owner, free, placed, stored⟩ := joined
    have apart : k.current ≠ task := by
      intro same
      rw [same, free] at owner
      cases owner
    have current : k₁.current = k.current := congrArg Space.current placed
    have stores : k₁.stores = k.stores := congrArg Space.stores placed
    have laid₁ : k₁.space.Laid := by
      rw [placed]
      exact laid.join busy owner free
    have owner₁ : k₁.space.dir k₁.current = some home := by
      rw [current, placed]
      exact (Function.update_of_ne apart ..).trans owner
    have poked : Poked (InBlock (stack - 4) 4) k₁.space
        (k₁.kernelStores (stack - 4) (dwordBytes exitFunc)).space :=
      poked_kernelStores _ k₁ _ laid₁ owner₁ fun i below => ⟨i, below, rfl⟩
    obtain ⟨more, shape, mine⟩ := poked.stores
    refine ⟨more, ?_, ?_⟩
    · rw [← stores]
      exact (congrArg Space.stores stored).trans shape
    · intro pair member
      rw [← current]
      exact mine pair member

/-! ### The heap of a task that is not running -/

namespace Space

variable {s s' : Space} {label : Option Action} {t : TaskId}

theorem heapTop_minors (minors : Minors s s') : s'.heapTop = s.heapTop := by
  induction minors with
  | refl => rfl
  | tail _ minor ih =>
      rw [← ih]
      cases minor <;> rfl

/-- Only `sys_sbrk` moves the top of the heap of a live task, the running one. -/
theorem Step.heapTop (step : Step label s s') (alive : s.dir t ≠ none)
    (away : t = s.current → ∀ increment, label ≠ some (.call (.sbrk increment))) :
    s'.heapTop t = s.heapTop t := by
  cases step with
  | minor minors => rw [heapTop_minors minors]
  | major major minors =>
      rw [heapTop_minors minors]
      cases major with
      | fork home child dir busy owner free spare =>
          have other : t ≠ child := by
            intro same
            rw [same] at alive
            exact alive free
          exact Function.update_of_ne other ..
      | join function stack exitFunc child home busy owner free =>
          have other : t ≠ child := by
            intro same
            rw [same] at alive
            exact alive free
          exact Function.update_of_ne other ..
      | leave home other busy owner different here => rfl
      | release home busy owner last => rfl
      | refused increment count m refused => rfl
      | grow increment home top m frames busy owner inside grows vacant done =>
          have other : t ≠ s.current := fun same => away same increment rfl
          exact Function.update_of_ne other ..
      | shrink increment home top busy owner inside shrinks =>
          have other : t ≠ s.current := fun same => away same increment rfl
          exact Function.update_of_ne other ..
      | own addr value home busy owner reach denied single => rw [heapTop_own]
      | split addr value home frame busy owner reach denied many got => rw [heapTop_split]

end Space

end Zeos
