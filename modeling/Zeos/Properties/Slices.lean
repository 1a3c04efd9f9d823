import Zeos.Properties.Scheduling
import Zeos.Timing.Boot
import Zeos.Timing.Slice

set_option autoImplicit false

/-! The time slice: what is left of the quantum, and the clock interrupt that ends it. -/

namespace Zeos

variable {k k' : Kernel} {r : Roster} {n : Nat} {label : Option Action}

/-- A run from boot, and the clock interrupts that the running task had since it was
dispatched. -/
inductive Kernel.Sliced : Kernel → Nat → Prop where
  | boot (image : Image) : Sliced (Kernel.boot image) 0
  | next {k k' : Kernel} {n : Nat} (label : Option Action) : Sliced k n →
      k.step label = some k' →
      Sliced k' (if k'.mode = .switching then 0 else if label = some .clock then n + 1 else n)

/-- What a step means for the task that runs before it; `before` and `after` are what
`readyqueue` holds. -/
structure Kernel.SliceStep (k : Kernel) (n : Nat) (label : Option Action) (k' : Kernel)
    (before after : List TaskId) : Prop where
  stays : k'.mode = .user → k'.current = k.current
  early : label = some .clock → (n : Int) + 1 < k.currentTask.quantum →
    k'.mode = .user ∧ after = before
  last : label = some .clock → (n : Int) + 1 = k.currentTask.quantum →
    k'.mode = .switching ∧ (before ++ [k.current]).head? = some k'.current ∧
      after = (before ++ [k.current]).tail
  others : label ≠ some .clock → k'.mode = .switching →
    (k'.tasks k.current).state = .blocked ∨ (k'.tasks k.current).state = .invalid ∨
      ∃ value, label = some (.keyboard value)

/-! ### Runs -/

theorem boot_sliced (clock : Nat → DWord) : (Timing.boot clock).Sliced 0 := by
  have state : (Timing.boot clock).state =
      Function.update (Function.update (fun _ => .invalid) 0 .ready) 1 .run := rfl
  have quantum : (Timing.boot clock).quantum =
      Function.update (Function.update (fun _ => 0) 0 defaultQuantum) 1 defaultQuantum := rfl
  refine ⟨⟨?_, ?_⟩, ?_, rfl, by decide, rfl⟩
  · intro t alive
    rw [quantum]
    by_cases first : t = 1
    · rw [first, Function.update_self]
    · by_cases idle : t = 0
      · rw [idle]
        rfl
      · rw [state, Function.update_of_ne first, Function.update_of_ne idle] at alive
        exact absurd rfl alive
  · rw [state]
    show (TaskState.ready : TaskState) ≠ .invalid
    simp
  · rw [state]
    show (TaskState.run : TaskState) ≠ .invalid
    simp

theorem Kernel.Sliced.refines (run : k.Sliced n) :
    ∃ r, Refines k r ∧ Roster.Sound r ∧ k.timing.Sliced n := by
  induction run with
  | boot image =>
      refine ⟨Roster.boot, boot_refines image, Roster.boot_sound, ?_⟩
      rw [boot_timing]
      exact boot_sliced image.clock
  | next label _ stepped ih =>
      obtain ⟨r, ref, sound, sliced⟩ := ih
      obtain ⟨r', _, after, sound', _⟩ := ref.turn sound stepped
      exact ⟨r', after, sound', (ref.step_timing sound stepped).sliced sliced⟩

/-- The count goes on in every run. -/
theorem sliced_of_reachable (reached : Reachable anyAction k) : ∃ n, k.Sliced n := by
  induction reached with
  | start booted =>
      obtain ⟨image, rfl⟩ := booted
      exact ⟨0, .boot image⟩
  | next label _ _ stepped ih =>
      obtain ⟨n, run⟩ := ih
      exact ⟨_, .next _ run stepped⟩

theorem Kernel.Sliced.switched (run : k.Sliced n) (switching : k.mode = .switching) : n = 0 := by
  cases run with
  | boot image => rfl
  | next label _ _ => exact if_pos switching

/-! ### The clock and the queue -/

/-- The clock leaves `readyqueue` alone, or puts the running task at its tail and takes
its head. -/
theorem Refines.clock_queue (ref : Refines k r) (sound : Roster.Sound r)
    (busy : k.current ≠ k.idleTask) {before : List TaskId} (ready : k.ready before)
    (stepped : k.step (some .clock) = some k') :
    k'.mode = .user ∧ k'.ready before ∨
    k'.mode = .switching ∧ (before ++ [k.current]).head? = some k'.current ∧
      k'.ready (before ++ [k.current]).tail := by
  obtain ⟨mode, _, same⟩ := step_action stepped
  have user : r.mode = .user := ref.mode.symm.trans mode
  have entered : Refines k.updateEnteringSys r := ref.of_view view_updateEnteringSys
  have queue : r.queue .ready = before := ref.readyqueue_iff.mp ready
  rw [ref.current, ref.idle] at busy
  rw [same]
  rcases entered.clock_cases sound with ⟨_, stayed⟩ | ⟨_, left⟩
  · have after : Refines (k.deliver .clock) r := stayed.of_view view_leave
    exact Or.inl ⟨after.mode.trans user, after.readyqueue_iff.mpr queue⟩
  · have after : Refines (k.deliver .clock) (r.yield.schedNext .handler) :=
      left.of_view view_leave
    have yielded : r.yield.queue .ready = before ++ [r.current] := by
      rw [Roster.yield, if_pos busy]
      simp [Roster.place, Roster.setState, Roster.setTask, Roster.setQueue, queue]
    have next : r.yield.nextTask = (before ++ [r.current]).headD r.yield.idle := by
      rw [Roster.nextTask, yielded]
    refine Or.inr ⟨after.mode, ?_, after.readyqueue_iff.mpr ?_⟩
    · rw [after.current, ref.current, Roster.schedNext_current, next]
      cases before with
      | nil => rfl
      | cons first rest => rfl
    · rw [ref.current, ← yielded]
      rfl

/-- The time slice is exact. In every state of every run the remaining ticks of the running
task are its quantum less `current_ticks`, which counts the clock interrupts since the task
was dispatched; the switch that dispatches a task leaves it with all its quantum. A task
other than idle stays until the clock interrupt that completes its quantum, goes to the tail
of `readyqueue` there, and leaves the CPU earlier only when it blocks or exits or the keyboard
wakes a reader. -/
theorem slice_exact {k : Kernel} (reached : Reachable anyAction k) :
    (∃ n, k.Sliced n) ∧ ∀ n, k.Sliced n →
      k.currentTask.st.remainingTicks =
        BitVec.ofInt 32 (k.currentTask.quantum - k.currentTicks) ∧
      0 ≤ k.currentTicks ∧ k.currentTicks < k.currentTask.quantum ∧ k.currentTicks = n ∧
      (k.mode = .switching → k.currentTicks = 0) ∧
      ∀ label k' before, k.step label = some k' → k.current ≠ k.idleTask → k.ready before →
        ∃ after, k'.ready after ∧ k.SliceStep n label k' before after := by
  refine ⟨sliced_of_reachable reached, fun n run => ?_⟩
  obtain ⟨r, ref, sound, sliced⟩ := run.refines
  have quantum : k.currentTask.quantum = defaultQuantum := sliced.quanta _ sliced.running
  have ticks : k.currentTicks = n := sliced.ticks
  refine ⟨?_, ?_, ?_, ticks, ?_, ?_⟩
  · rw [quantum, ticks]
    exact sliced.remaining
  · omega
  · rw [quantum, ticks]
    exact sliced.inside
  · intro switching
    rw [ticks, run.switched switching]
    simp
  · intro label k' before stepped busy ready
    have step := ref.step_timing sound stepped
    obtain ⟨r', _, ref', _, _⟩ := ref.turn sound stepped
    by_cases tick : label = some .clock
    · subst tick
      have expires := step.expires sliced busy
      rcases ref.clock_queue sound busy ready stepped with ⟨user, kept⟩ | ⟨left, head, moved⟩
      · refine ⟨before, kept, step.current, fun _ _ => ⟨user, rfl⟩, ?_, fun apart => absurd rfl apart⟩
        intro _ full
        rw [quantum] at full
        have left : k'.mode = .switching := expires.mpr full
        rw [user] at left
        cases left
      · refine ⟨_, moved, step.current, ?_, fun _ _ => ⟨left, head, rfl⟩, fun apart => absurd rfl apart⟩
        intro _ more
        rw [quantum] at more
        have full := expires.mp left
        omega
    · refine ⟨r'.queue .ready, ref'.readyqueue_iff.mpr rfl, ?_⟩
      exact ⟨step.current, fun same => absurd same tick, fun same => absurd same tick,
        fun _ => step.gone tick⟩

/-- The first task forks, and the clock interrupts it twice. -/
theorem slice_exact_forked :
    let k := Kernel.after everyStep [some (.call .fork), some .clock, some .clock]
    (∃ n, k.Sliced n) ∧ ∀ n, k.Sliced n →
      k.currentTask.st.remainingTicks =
        BitVec.ofInt 32 (k.currentTask.quantum - k.currentTicks) ∧
      0 ≤ k.currentTicks ∧ k.currentTicks < k.currentTask.quantum ∧ k.currentTicks = n ∧
      (k.mode = .switching → k.currentTicks = 0) ∧
      ∀ label k' before, k.step label = some k' → k.current ≠ k.idleTask → k.ready before →
        ∃ after, k'.ready after ∧ k.SliceStep n label k' before after :=
  slice_exact (reached_after (by decide +kernel)).any

end Zeos
