import Zeos.Budget
import Zeos.Properties.Slices

set_option autoImplicit false

/-! Bounded waiting: how many clock interrupts a ready task waits for the CPU. -/

namespace Zeos

open Transition (total Meets meets_of_spent)
open Timing (sliceAfter)

def fullSlice : Nat := defaultQuantum.toNat

@[simp] theorem fullSlice_eq : fullSlice = 100 := rfl

def ticking (label : Option Action) : Nat := if label = some .clock then 1 else 0

/-- 1 for a key press that gives the CPU to a reader. -/
def waking (label : Option Action) (k : Kernel) : Nat :=
  match label with
  | some (.keyboard _) => if k.mode = .switching then 1 else 0
  | _ => 0

def Kernel.clocks : Kernel → List (Option Action) → Nat :=
  total Kernel.step fun _ label _ => ticking label

/-- The ticks that are lost to readers in a run: what the running task had of its slice when a key
press gave its CPU to a reader. -/
def Kernel.lostTicks : Kernel → List (Option Action) → Nat :=
  total Kernel.step fun k label k' => k.currentTicks.toNat * waking label k'

/-- The task waits in `readyqueue`, and every tick from now on brings it nearer to the CPU. -/
structure Kernel.Waiting (task : TaskId) (balance : Nat) (k : Kernel) : Prop where
  account : ∃ r n ahead behind, Refines k r ∧ Roster.Sound r ∧ r.Idling ∧ k.timing.Sliced n ∧
    r.queue .ready = ahead ++ task :: behind ∧ balance + n = fullSlice * (ahead.length + 1)

variable {k k' : Kernel} {task : TaskId} {label : Option Action} {labels : List (Option Action)}
  {balance : Nat}

theorem Kernel.Waiting.solvent (waiting : k.Waiting task balance) : 0 < balance := by
  obtain ⟨r, n, ahead, behind, _, _, _, sliced, _, sum⟩ := waiting.account
  have inside := sliced.inside
  rw [defaultQuantum] at inside
  rw [fullSlice_eq] at sum
  omega

/-- Until the task is dispatched, a step pays for the tick. -/
theorem Kernel.Waiting.pays (waiting : k.Waiting task balance)
    (stepped : k.step label = some k') :
    task ∈ dispatched label k' ∨ ∃ balance', k'.Waiting task balance' ∧
      ticking label + balance' ≤ balance + k.currentTicks.toNat * waking label k' := by
  obtain ⟨r, n, ahead, behind, ref, sound, idling, sliced, queue, sum⟩ := waiting.account
  obtain ⟨r', _, ref', sound', turn⟩ := ref.turn sound stepped
  have timed := ref.step_timing sound stepped
  have idling' := turn.idling sound idling
  have sliced' := timed.sliced sliced
  have inside := sliced.inside
  have inside' := sliced'.inside
  have elapsed : k.currentTicks.toNat = n := by
    rw [show k.currentTicks = n from sliced.ticks, Int.toNat_natCast]
  have busy : r.current ≠ r.idle := by
    intro idle
    rw [idling idle] at queue
    simp at queue
  rw [defaultQuantum] at inside inside'
  rw [fullSlice_eq] at sum
  cases turn with
  | stay more arrivals same user current line state =>
      right
      have mode : k'.timing.mode = .user := ref'.mode.trans user
      have count : sliceAfter label k'.timing.mode n = n + ticking label := by
        rw [sliceAfter, mode, if_neg (by decide), ticking]
        split <;> rfl
      rw [count] at sliced' inside'
      have more' : r'.queue .ready = ahead ++ task :: (behind ++ more) := by
        rw [line, queue, List.append_assoc, List.cons_append]
      have balanced : 100 * (ahead.length + 1) - (n + ticking label) + (n + ticking label) =
          fullSlice * (ahead.length + 1) := by
        rw [fullSlice_eq]
        omega
      exact ⟨100 * (ahead.length + 1) - (n + ticking label), ⟨r', n + ticking label, ahead,
        behind ++ more, ref', sound', idling', sliced', more', balanced⟩, by omega⟩
  | next more arrivals same switching apart current line state =>
      have mode : k'.timing.mode = .switching := ref'.mode.trans switching
      have listed : dispatched label k' = [k'.current] := by
        unfold dispatched
        split
        · exact absurd rfl (apart _)
        · exact if_pos mode
      rw [queue] at current line
      cases ahead with
      | nil =>
          left
          rw [listed, ref'.current, current]
          exact List.mem_cons_self
      | cons first others =>
          right
          have count : sliceAfter label k'.timing.mode n = 0 := by
            rw [sliceAfter, mode, if_pos rfl]
          rw [count] at sliced'
          have last : ticking label ≤ 1 := by
            unfold ticking
            split <;> decide
          have more' : r'.queue .ready = others ++ task :: (behind ++ more) := by
            rw [line, List.cons_append, List.cons_append, List.tail_cons, List.append_assoc,
              List.cons_append]
          rw [List.length_cons] at sum
          exact ⟨fullSlice * (others.length + 1), ⟨r', 0, others, behind ++ more, ref', sound',
            idling', sliced', more', rfl⟩, by rw [fullSlice_eq]; omega⟩
  | wake value key reader rest same switching pressed current readers line state resume pending =>
      right
      have mode : k'.timing.mode = .switching := ref'.mode.trans switching
      have count : sliceAfter label k'.timing.mode n = 0 := by
        rw [sliceAfter, mode, if_pos rfl]
      rw [count] at sliced'
      have woken : waking label k' = 1 := by
        rw [pressed]
        exact if_pos mode
      have quiet : ticking label = 0 := by
        rw [pressed]
        rfl
      rw [queue, List.append_assoc, List.cons_append] at line
      exact ⟨fullSlice * (ahead.length + 1), ⟨r', 0, ahead, _, ref', sound', idling', sliced', line,
        rfl⟩, by rw [fullSlice_eq, quiet, woken, elapsed]; omega⟩

theorem meets_dispatched : ∀ (labels : List (Option Action)) (k : Kernel),
    Meets Kernel.step (fun _ label k' => task ∈ dispatched label k') k labels →
      task ∈ dispatches k labels := by
  intro labels
  induction labels with
  | nil => exact fun _ => False.elim
  | cons label labels ih =>
      intro k meets
      rw [Meets] at meets
      rw [dispatches]
      cases stepped : k.step label with
      | none =>
          rw [stepped] at meets
          exact meets.elim
      | some k' =>
          rw [stepped] at meets
          rcases meets with now | later
          · exact List.mem_append_left _ now
          · exact List.mem_append_right _ (ih k' later)

theorem ahead_length {r : Roster} (sound : Roster.Sound r) (busy : r.current ≠ r.idle)
    {ahead behind : List TaskId} (queue : r.queue .ready = ahead ++ task :: behind) :
    ahead.length + 3 ≤ nrTasks := by
  have distinct : (r.idle :: r.current :: (ahead ++ task :: behind)).Nodup := by
    rw [← queue, List.nodup_cons, List.nodup_cons, List.mem_cons, not_or]
    exact ⟨⟨Ne.symm busy, sound.queues.idleOut .ready⟩, sound.out .ready, sound.queues.nodup .ready⟩
  have count := List.Nodup.length_le_card distinct
  simp only [List.length_cons, List.length_append, Fintype.card_fin] at count
  omega

/-- A ready task waits for the rest of the time slice of the running task and one quantum
for each task ahead of it, at most seven, and for the ticks that are lost to readers. Once so
many clock interrupts have come, the task has had the CPU. -/
theorem dispatched_in_time {k : Kernel} (reached : Reachable anyAction k) {task : TaskId}
    {ahead behind : List TaskId} (ready : k.ready (ahead ++ task :: behind)) :
    ahead.length + 3 ≤ nrTasks ∧ ∀ labels,
      fullSlice * (ahead.length + 1) - k.currentTicks.toNat + k.lostTicks labels ≤
        k.clocks labels → task ∈ dispatches k labels := by
  obtain ⟨n, run⟩ := sliced_of_reachable reached
  obtain ⟨_, _, _, sliced⟩ := run.refines
  obtain ⟨r, ref, sound, idling⟩ := reachable_idling reached
  have queue : r.queue .ready = ahead ++ task :: behind := ref.readyqueue_iff.mp ready
  have busy : r.current ≠ r.idle := by
    intro idle
    rw [idling idle] at queue
    simp at queue
  refine ⟨ahead_length sound busy queue, fun labels due => ?_⟩
  have ticks : k.currentTicks = n := sliced.ticks
  have inside := sliced.inside
  rw [ticks, Int.toNat_natCast] at due
  rw [defaultQuantum] at inside
  have waiting : k.Waiting task (fullSlice * (ahead.length + 1) - n) :=
    ⟨r, n, ahead, behind, ref, sound, idling, sliced, queue, by rw [fullSlice_eq]; omega⟩
  exact meets_dispatched labels k
    (meets_of_spent (fun balance k => k.Waiting task balance) (fun _ _ holds => holds.solvent)
      (fun _ _ _ _ holds stepped => holds.pays stepped) labels _ k waiting due)

/-- Four threads of one process, of which the first waits for a character. -/
def threeAndReader : Kernel :=
  Kernel.after everyStep (List.replicate 3 (some (.call (.clone 0x100000 0x110000 0))) ++
    [some (.call (.read 0 0x108000 1)), none])

/-- Task 2 runs, with tasks 3 and 4 behind it. Ten ticks later the character comes, which delays
task 4 by as much. -/
theorem dispatched_in_time_woken :
    (4 : TaskId) ∈ dispatches threeAndReader (List.replicate 10 (some .clock) ++
      [some (.keyboard 0x1e), none] ++ List.replicate 100 (some .clock) ++ [none] ++
      List.replicate 100 (some .clock)) := by
  have waits := @dispatched_in_time threeAndReader
    (reached_after (by decide +kernel)).any 4 [3] [] ⟨by decide, by decide +kernel⟩
  exact waits.2 _ (by decide +kernel)

end Zeos
