import Zeos.Properties.Queues

set_option autoImplicit false

/-! The keyboard: a blocked reader can be woken, and the characters are delivered
in order, exactly once. -/

namespace Zeos

variable {k k' : Kernel} {r : Roster}

/-! ### A blocked reader can be woken -/

/-- All steps but a `sys_read` of no characters that has to queue behind another
reader. -/
def fedReads (k : Kernel) : Option Action → Bool
  | some (.call (.read fd buffer size)) =>
      !(size == 0 && k.readChecked fd.toInt buffer size && !listEmpty k.links .keyboardqueue)
  | _ => true

theorem Refines.readers_empty (ref : Refines k r) :
    listEmpty k.links .keyboardqueue = true ↔ r.queue .readers = [] :=
  listEmpty_queue (q := .readers) ref (by simp [Started])

/-- What `fedReads` says of a step. -/
theorem Refines.fed (ref : Refines k r) {label : Option Action} {r' : Roster}
    (allowed : fedReads k label = true)
    (refused : ∀ fd buffer size, label = some (.call (.read fd buffer size)) →
      k.readChecked fd.toInt buffer size = false → r' = r) (fd buffer size : DWord)
    (called : label = some (.call (.read fd buffer size))) (zero : size.toInt = 0) :
    r.queue .readers = [] ∨ r' = r := by
  cases checked : k.readChecked fd.toInt buffer size with
  | false => exact Or.inr (refused fd buffer size called checked)
  | true =>
      left
      have none : size = 0 := BitVec.eq_of_toInt_eq zero
      rw [called, fedReads, checked, none] at allowed
      rw [← ref.readers_empty]
      simpa using allowed

theorem reachable_room (reached : Reachable (fun k label => fedReads k label = true) k) :
    ∃ r, Refines k r ∧ Roster.Sound r ∧ r.RoomSound := by
  refine reached.invariant (fun k => ∃ r, Refines k r ∧ Roster.Sound r ∧ r.RoomSound) ?_ ?_
  · rintro _ ⟨image, rfl⟩
    exact ⟨Roster.boot, boot_refines image, Roster.boot_sound, Roster.boot_room⟩
  · rintro k label k' ⟨r, ref, sound, room⟩ allowed stepped
    obtain ⟨r', step, after, refused⟩ := ref.step sound stepped
    exact ⟨r', after, sound.step step, room.step sound step (ref.fed allowed refused)⟩

/-- In a run without reads of no characters behind another reader: when a reader is
blocked, the next key press finds room in the ring. -/
theorem blocked_reader_finds_room {k : Kernel}
    (reached : Reachable (fun k label => fedReads k label = true) k) (rest : k.atRest)
    (blocked : listEmpty k.links .keyboardqueue = false) : k.keyboard.isBufferFull = false := by
  obtain ⟨r, ref, _, room⟩ := reachable_room reached
  have user : r.mode = .user := ref.mode.symm.trans rest.1
  have waiting : r.queue .readers ≠ [] := by
    rw [Ne, ← ref.readers_empty, blocked]
    decide
  have space := room.room (Roster.not_active user) waiting
  by_contra full
  have filled := ref.full_iff.mp (by simpa using full)
  omega

/-- Task 1 waits for two characters and has got none; its child runs. -/
def waitingRun : List (Option Action) :=
  [some (.call .fork), some (.call (.read 0 0x108000 2)), none]

theorem blocked_reader_finds_room_waiting :
    (Kernel.after fedReads waitingRun).keyboard.isBufferFull = false :=
  blocked_reader_finds_room (reached_after (by decide +kernel))
    ⟨by decide +kernel, by decide +kernel⟩ (by decide +kernel)

/-- A read of no characters that queues, and the key press that wakes the task
before it in the queue. -/
def emptyRead : List (Option Action) :=
  [some (.call (.read 0 0x108000 0)), none, some (.keyboard 0x1e), none]

/-- Two tasks take turns to read no characters. Every key wakes the one that came
first, which takes nothing, so the ring fills up. -/
def starvedRun : List (Option Action) :=
  [some (.call .fork), some (.call (.read 0 0x108000 1)), none] ++
    emptyRead ++ emptyRead ++ emptyRead ++ emptyRead ++ emptyRead ++
    emptyRead ++ emptyRead ++ emptyRead ++ emptyRead ++ emptyRead ++
    [some (.call (.read 0 0x108000 2)), none]

/-- The last read asks for two characters, and blocks with the ring full. -/
theorem blocked_reader_starves :
    ¬ ∀ k, Reachable anyAction k → k.atRest → listEmpty k.links .keyboardqueue = false →
      k.keyboard.isBufferFull = false := by
  intro woken
  have room := woken (Kernel.after everyStep starvedRun) (reached_after (by decide +kernel)).any
    ⟨by decide +kernel, by decide +kernel⟩ (by decide +kernel)
  exact absurd room (by decide +kernel)

/-! ### Delivery in order, exactly once -/

open History

/-- What the history of the keyboard says: the data of the calls, in the order of
the calls, and then the ring are the characters accepted; calls that returned got
what they asked for, at consecutive places; and no call gets anything before the
earlier ones have returned. -/
structure Kernel.Delivered (k : Kernel) : Prop where
  fromInside : k.keyboard.buffFrom < keyboardBufferSize
  toInside : k.keyboard.buffTo < keyboardBufferSize
  stream : (calls k.trace).flatMap Call.data ++ k.keyboard.contents = accepted k.trace
  complete : ∀ call ∈ calls k.trace, call.done = true → call.data.length = call.size
  placed : ∀ call ∈ calls k.trace, call.stored = landed call.buffer 0 call.data
  arrival : ∃ finished opened, calls k.trace = finished ++ opened ∧
    (∀ call ∈ finished, call.done = true) ∧ (∀ call ∈ opened, call.done = false) ∧
    ∀ call ∈ opened.tail, call.data = []

theorem keyboard_stream_delivered {k : Kernel} (reached : Reachable anyAction k) :
    k.Delivered := by
  obtain ⟨r, ref, sound⟩ := reachable_sound reached
  obtain ⟨finished, opened, served⟩ := sound.reads.served
  have unfinished : ∀ call ∈ opened, call.done = false := by
    intro call member
    obtain ⟨i, below, rfl⟩ := List.getElem_of_mem member
    have long := served.awaiting.length_eq
    exact (served.awaiting.get (by omega) below).2.1
  refine ⟨ref.fromInside, ref.toInside, ?_, ?_, ?_, finished, opened, ?_, ?_, unfinished, ?_⟩
  · rw [ref.trace, ref.contents, served.made]
    exact served.stream
  · intro call member done
    rw [ref.trace, served.made, List.mem_append] at member
    rcases member with member | member
    · rw [Call.data, List.length_map]
      exact (served.returned call member).2
    · rw [unfinished call member] at done
      cases done
  · intro call member
    rw [ref.trace, served.made] at member
    exact served.aligned call member
  · rw [ref.trace, served.made]
  · exact fun call member => (served.returned call member).1
  · intro call member
    rw [Call.data, served.untouched call member, List.map_nil]

/-- A read of two characters that has got one of them and blocked. -/
theorem keyboard_stream_delivered_waiting :
    (Kernel.after everyStep [some (.call .fork), some (.keyboard 0x1e),
      some (.call (.read 0 0x108000 2)), none, some (.keyboard 0x1f)]).Delivered :=
  keyboard_stream_delivered (reached_after (by decide +kernel)).any

end Zeos
