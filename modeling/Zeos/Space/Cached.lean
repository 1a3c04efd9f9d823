import Zeos.Space.Leaks
import Zeos.Tlb

set_option autoImplicit false

/-! The changes of the tables as events of a translation behind a cache, and which of them leave
the cache right. -/

namespace Zeos

open Tlb (Mmu Cache Coherent Filled)

/-- What the processor caches of an entry: the frame, and whether it may be written. -/
def PageTableEntry.target (entry : PageTableEntry) (page : Nat) : Option (Nat × Bool) :=
  if page < totalPages ∧ entry.present = true then some (entry.pbaseAddr, entry.rw) else none

def TableNote.event : TableNote → Tlb.Event DirId Nat (Nat × Bool)
  | .entry dir page value => .write dir page (value.target page)
  | .cr3 dir => .load dir
  | .fault page => .fault page

namespace Mm

variable {m m' m'' : Mm} {events more : List TableNote} {dir : DirId} {page : Nat}
  {entry : PageTableEntry}

/-- The tables as the processor walks them. -/
def mmu (m : Mm) : Mmu DirId Nat (Nat × Bool) where
  table dir page := (m.getEntry dir page).target page
  root := m.cr3

theorem walk_mmu : m.mmu.walk page = (m.mapped page).target page := by
  rw [Mmu.walk, mapped]
  show m.cr3.bind _ = _
  cases m.cr3 with
  | none => simp [PageTableEntry.target]
  | some dir =>
      rw [Option.bind_some]
      show (m.getEntry dir page).target page = _
      dsimp only
      split
      · rfl
      · rename_i past
        simp [PageTableEntry.target, past]

/-- What has happened to the tables, the first event first. -/
structure Logs (m : Mm) (events : List TableNote) (m' : Mm) : Prop where
  log : m'.log = events.reverse ++ m.log
  mmu : m'.mmu = m.mmu.run (events.map TableNote.event)

theorem Logs.trans (first : m.Logs events m') (second : m'.Logs more m'') :
    m.Logs (events ++ more) m'' where
  log := by rw [second.log, first.log, List.reverse_append, List.append_assoc]
  mmu := by rw [second.mmu, first.mmu, List.map_append, Mmu.run_append]

theorem Logs.quiet (log : m'.log = m.log) (entries : m'.getEntry = m.getEntry)
    (cr3 : m'.cr3 = m.cr3) : m.Logs [] m' where
  log := log
  mmu := by
    change m'.mmu = m.mmu
    rw [Mm.mmu, Mm.mmu, entries, cr3]

theorem Logs.setEntry : m.Logs [.entry dir page entry] (m.setEntry dir page entry) where
  log := rfl
  mmu := by
    apply Mmu.ext
    · funext d p
      show ((m.setEntry dir page entry).getEntry d p).target p = Function.update m.mmu.table dir
        (Function.update (m.mmu.table dir) page (entry.target page)) d p
      rw [getEntry_setEntry, Function.update_apply]
      by_cases here : d = dir
      · rw [if_pos here, Function.update_apply]
        by_cases there : p = page
        · rw [if_pos ⟨here, there⟩, if_pos there, there]
        · rw [if_neg fun both => there both.2, if_neg there, here]
          rfl
      · rw [if_neg fun both => here both.1, if_neg here]
        rfl
    · rfl

theorem Logs.setCr3 {d : Option DirId} : m.Logs [.cr3 d] (m.setCr3 d) := ⟨rfl, rfl⟩

theorem Logs.fault : m.Logs [.fault page] (m.fault page) := ⟨rfl, rfl⟩

/-- The tables change by events only. -/
def Logged (m m' : Mm) : Prop := ∃ events, m.Logs events m'

theorem Logged.refl : m.Logged m := ⟨[], .quiet rfl rfl rfl⟩

theorem Logged.trans (first : m.Logged m') (second : m'.Logged m'') : m.Logged m'' := by
  obtain ⟨events, before⟩ := first
  obtain ⟨more, after⟩ := second
  exact ⟨events ++ more, before.trans after⟩

theorem Logged.quiet (log : m'.log = m.log) (entries : m'.getEntry = m.getEntry)
    (cr3 : m'.cr3 = m.cr3) : m.Logged m' :=
  ⟨[], .quiet log entries cr3⟩

theorem Logged.setEntry : m.Logged (m.setEntry dir page entry) := ⟨_, .setEntry⟩

theorem Logged.upTo {body : Nat → Mm → Mm} (round : ∀ i (m : Mm), m.Logged (body i m)) (n : Nat) :
    m.Logged (Loop.upTo n body m) :=
  Loop.upTo_invariant n body m (fun _ current => m.Logged current) .refl
    fun i current _ before => before.trans (round i current)

theorem log_freeFrame {frame : Nat} : (m.freeFrame frame).log = m.log := by
  unfold Mm.freeFrame
  dsimp only
  split <;> split <;> rfl

theorem Logged.freeFrame {frame : Nat} : m.Logged (m.freeFrame frame) :=
  .quiet log_freeFrame getEntry_freeFrame cr3_freeFrame

theorem Logged.freeUserPages {top : DWord} : m.Logged (m.freeUserPages dir top) := by
  unfold Mm.freeUserPages
  dsimp only
  apply (Logged.upTo (fun _ _ => Logged.freeFrame.trans .setEntry) _).trans
  exact Logged.upTo (fun _ _ => Logged.freeFrame.trans .setEntry) _

theorem Logged.shareCowPage {dest : DirId} : m.Logged (m.shareCowPage dir dest page) := by
  unfold Mm.shareCowPage
  dsimp only
  apply Logged.trans _ Logged.setEntry
  apply Logged.trans _ Logged.setEntry
  apply Logged.trans _ Logged.setEntry
  split
  · exact .quiet rfl rfl rfl
  · exact .quiet rfl rfl rfl

theorem Logged.sharePages {dest : DirId} {heap : Nat} :
    m.Logged (Kernel.sharePages (Kernel.copyCodePages m dir dest) dir dest heap) := by
  unfold Kernel.sharePages Kernel.copyCodePages
  dsimp only
  apply (Logged.upTo (fun _ _ => .setEntry) _).trans
  apply (Logged.upTo (fun _ _ => .shareCowPage) _).trans
  exact Logged.upTo (fun _ _ => .shareCowPage) _

/-- What taking and freeing frames keeps, `reserve_frames` keeps. -/
theorem reserveFrames_keeps {α : Type} (read : Mm → α)
    (free : ∀ m frame, read (Mm.freeFrame m frame) = read m)
    (take : ∀ m frame, read (Mm.take m frame) = read m) (count : Nat) :
    ∀ (m : Mm) (taken : List Nat), read (Kernel.reserveFrames count m taken).1 = read m := by
  have freed : ∀ (taken : List Nat) (m : Mm),
      read (taken.foldl (fun m frame => m.freeFrame frame) m) = read m := by
    intro taken
    induction taken with
    | nil => exact fun _ => rfl
    | cons frame rest ih => exact fun m => (ih (m.freeFrame frame)).trans (free m frame)
  induction count with
  | zero => exact fun _ _ => rfl
  | succ count ih =>
      intro m taken
      rw [Kernel.reserveFrames, allocFrame_eq]
      cases m.freeFrames with
      | nil => exact freed taken m
      | cons frame rest => exact (ih (m.take frame) (taken ++ [frame])).trans (take m frame)

/-! ### Events that leave the cache right -/

/-- The tables change, and no cached translation goes stale. -/
def Steady (m m' : Mm) : Prop :=
  ∃ events, m.Logs events m' ∧ Tlb.Steady m.mmu (events.map TableNote.event)

theorem Steady.trans (first : m.Steady m') (second : m'.Steady m'') : m.Steady m'' := by
  obtain ⟨events, before, kept⟩ := first
  obtain ⟨more, after, kept'⟩ := second
  refine ⟨events ++ more, before.trans after, ?_⟩
  rw [List.map_append]
  apply kept.append
  rw [← before.mmu]
  exact kept'

theorem Steady.quiet (log : m'.log = m.log) (entries : m'.getEntry = m.getEntry)
    (cr3 : m'.cr3 = m.cr3) : m.Steady m' :=
  ⟨[], .quiet log entries cr3, .nil⟩

theorem Steady.fault : m.Steady (m.fault page) := ⟨_, .fault, .fault⟩

/-- A load of the directory ends every stale translation. -/
theorem Logged.flush {d : Option DirId} (logged : m.Logged m') : m.Steady (m'.setCr3 d) := by
  obtain ⟨events, before⟩ := logged
  refine ⟨events ++ [.cr3 d], before.trans .setCr3, ?_⟩
  rw [List.map_append]
  exact .load

theorem Steady.setEntry (empty : (m.getEntry dir page).present = false) :
    m.Steady (m.setEntry dir page entry) := by
  refine ⟨_, .setEntry, .write fun _ => ?_⟩
  show (m.getEntry dir page).target page = none
  simp [PageTableEntry.target, empty]

theorem Steady.reserveFrames {count : Nat} {result : Option (List Nat)}
    (done : Kernel.reserveFrames count m [] = (m', result)) : m.Steady m' := by
  have log := reserveFrames_keeps Mm.log (fun _ _ => log_freeFrame) (fun _ _ => rfl) count m []
  have entries := reserveFrames_keeps Mm.getEntry (fun _ _ => getEntry_freeFrame)
    (fun _ _ => rfl) count m []
  have cr3 := reserveFrames_keeps Mm.cr3 (fun _ _ => cr3_freeFrame) (fun _ _ => rfl) count m []
  rw [done] at log entries cr3
  exact .quiet log entries cr3

/-- Pages that were not mapped are mapped. -/
theorem Steady.mapPages {first count : Nat} {frames : Nat → Nat} (room : count ≤ first)
    (vacant : ∀ i < count, (m.getEntry dir (first - i)).present = false) :
    m.Steady (Loop.upTo count (fun i m => m.setSsPag dir (first - i) (frames i)) m) := by
  have all := Loop.upTo_invariant count (fun i m => m.setSsPag dir (first - i) (frames i)) m
    (fun n current => m.Steady current ∧
      ∀ i < count, n ≤ i → (current.getEntry dir (first - i)).present = false)
    ⟨.quiet rfl rfl rfl, fun i below _ => vacant i below⟩ (by
      intro n current below before
      obtain ⟨steady, empty⟩ := before
      refine ⟨steady.trans (.setEntry (empty n below (Nat.le_refl n))), ?_⟩
      intro i below' after
      rw [Mm.setSsPag, getEntry_setEntry, if_neg (by omega)]
      exact empty i below' (by omega))
  exact all.1

end Mm

namespace Space

variable {s s' s'' : Space} {label : Option Action} {home : DirId}

/-- What is cached is right, unless the running task has exited. -/
def Fresh (s : Space) (cache : Cache Nat (Nat × Bool)) : Prop :=
  s.dir s.current ≠ none → Coherent s.mm.mmu cache

/-- Whatever is cached in between, no stale translation is left. -/
def Keeps (s s' : Space) : Prop :=
  ∃ events, s.mm.Logs events s'.mm ∧ ∀ cache cache', s.Fresh cache →
    Filled s.mm.mmu cache (events.map TableNote.event) cache' → s'.Fresh cache'

theorem Keeps.trans (first : Keeps s s') (second : Keeps s' s'') : Keeps s s'' := by
  obtain ⟨events, before, kept⟩ := first
  obtain ⟨more, after, kept'⟩ := second
  refine ⟨events ++ more, before.trans after, ?_⟩
  intro cache cache' fresh filled
  rw [List.map_append] at filled
  obtain ⟨middle, start, rest⟩ := filled.middle
  rw [← before.mmu] at rest
  exact kept' middle cache' (kept cache middle fresh start) rest

theorem Keeps.steady (steady : s.mm.Steady s'.mm)
    (running : s'.dir s'.current ≠ none → s.dir s.current ≠ none) : Keeps s s' := by
  obtain ⟨events, logs, kept⟩ := steady
  refine ⟨events, logs, ?_⟩
  intro cache cache' fresh filled alive
  rw [logs.mmu]
  exact kept cache cache' (fresh (running alive)) filled

/-- The last event is a load of the directory. -/
theorem Keeps.flush {m : Mm} {d : Option DirId} (logged : s.mm.Logged m)
    (ends : s'.mm = m.setCr3 d) : Keeps s s' := by
  obtain ⟨events, before⟩ := logged
  have logs : s.mm.Logs (events ++ [.cr3 d]) s'.mm := by
    rw [ends]
    exact before.trans .setCr3
  refine ⟨_, logs, ?_⟩
  intro cache cache' _ filled _
  rw [List.map_append] at filled
  obtain ⟨middle, _, last⟩ := filled.middle
  rw [logs.mmu, List.map_append, Mmu.run_append]
  exact last.load

/-- The running task has no directory any more. -/
theorem Keeps.gone (logged : s.mm.Logged s'.mm) (gone : s'.dir s'.current = none) :
    Keeps s s' := by
  obtain ⟨events, logs⟩ := logged
  exact ⟨events, logs, fun _ _ _ _ alive => absurd gone alive⟩

theorem Keeps.minor (minor : Minor s s') : Keeps s s' := by
  cases minor with
  | turn next =>
      by_cases same : s.dir s.current = s.dir next
      · have still : (s.turn next).mm = s.mm := if_neg (not_not_intro same)
        apply Keeps.steady
        · rw [still]
          exact .quiet rfl rfl rfl
        · intro alive
          rw [same]
          exact alive
      · exact Keeps.flush .refl (if_pos same)
  | store addr value present => exact .steady (.quiet rfl rfl rfl) id
  | attempt addr => exact .steady (.quiet rfl rfl rfl) id
  | miss page => exact .steady .fault id
  | write addr value writable => exact .steady (.quiet rfl rfl rfl) id

theorem Keeps.minors (minors : Minors s s') : Keeps s s' := by
  induction minors with
  | refl => exact .steady (.quiet rfl rfl rfl) id
  | tail _ minor ih => exact ih.trans (.minor minor)

/-- Every change of the tables but the repair of a write fault. -/
theorem Keeps.major (laid : s.Laid) (calls : ∀ addr value, label ≠ some (.store addr value))
    (major : Major label s s') : Keeps s s' := by
  cases major with
  | fork home child dir busy owner free spare => exact .flush .sharePages rfl
  | join function stack exitFunc child home busy owner free =>
      exact .steady (.quiet rfl rfl rfl) fun _ => housed owner
  | leave home other busy owner different here =>
      exact .gone .refl (Function.update_self ..)
  | release home busy owner last => exact .gone .freeUserPages (Function.update_self ..)
  | refused increment count m refused =>
      exact .steady (.reserveFrames refused) id
  | grow increment home top m frames busy owner inside grows vacant done =>
      have room := grow_room laid busy owner vacant
      obtain ⟨_, _, heap, most⟩ := Mm.regions
      refine @Keeps.steady s (s.grow home top m frames) ?_ id
      have entries := Mm.reserveFrames_keeps Mm.getEntry (fun _ _ => Mm.getEntry_freeFrame)
        (fun _ _ => rfl) (heapPages top - s.runningPages) s.mm []
      rw [done] at entries
      apply Mm.Steady.trans (.reserveFrames done)
      apply Mm.Steady.mapPages
      · omega
      · intro i below
        rw [entries, Nat.sub_sub]
        exact vacant (s.runningPages + i) (by omega) (by omega)
  | shrink increment home top busy owner inside shrinks =>
      exact .flush (Mm.Logged.upTo (fun _ _ => Mm.Logged.freeFrame.trans .setEntry) _) rfl
  | own addr value home busy owner reach denied single => exact absurd rfl (calls addr value)
  | split addr value home frame busy owner reach denied many got =>
      exact absurd rfl (calls addr value)

theorem Keeps.step (laid : s.Laid) (calls : ∀ addr value, label ≠ some (.store addr value))
    (step : Step label s s') : Keeps s s' := by
  cases step with
  | minor moved => exact .minors moved
  | major major moved => exact (Keeps.major laid calls major).trans (.minors moved)

end Space

end Zeos
