import Zeos.Identity
import Zeos.Meter
import Zeos.Owners
import Zeos.Reads
import Zeos.Waits

set_option autoImplicit false

/-! The invariant of the abstract scheduler, kept by each of its steps. -/

namespace Zeos

namespace Roster

/-- All that depends neither on who has the CPU nor on the keyboard; `allowed`
tasks may own semaphores. -/
structure Steady (allowed : TaskId → Prop) (r : Roster) : Prop where
  queues : r.QueueSound
  owners : OwnerSound allowed r
  identity : IdentitySound r
  park : ParkSound r
  meter : MeterSound r
  waits : WaitSound r

/-- Soundness but for the keyboard stream. -/
structure Poised (r : Roster) : Prop extends Steady r.mayOwn r where
  running : r.Running

structure Sound (r : Roster) : Prop extends Poised r where
  reads : ReadSound r

variable {r r' : Roster} {task : TaskId} {sem : SemId}

theorem Poised.out (poised : Poised r) (q : Queue) : r.current ∉ r.queue q :=
  fun member => poised.running.out ⟨q, member⟩

theorem Poised.mayOwn (poised : Poised r) (busy : r.current ≠ r.idle) : r.mayOwn r.current :=
  ⟨live_of_running poised.running, busy⟩

/-- Once the running task has been put somewhere, the next one is chosen. -/
theorem Poised.dispatch {saved : Resume} (queues : r.QueueSound) (all : r.AllQueued)
    (owners : OwnerSound r.mayOwn r) (identity : IdentitySound r) (meter : MeterSound r)
    (park : ParkSound (r.save saved)) (waits : WaitSound (r.save saved))
    (user : r.mode = .user) : Poised (r.schedNext saved) where
  queues := schedNext_sound queues
  owners := owners.frame_mayOwn (frame_schedNext queues identity.idle)
  identity := identity.frame (frame_schedNext queues identity.idle)
  park := park.schedNext queues
  meter := meter.congr rfl
    (fun s => by rw [schedNext_queue, Function.update_of_ne (by simp)]) fun _ => rfl
  waits := waits.schedNext park queues user
  running := schedNext_running queues all

/-- A change of what only the keyboard stream reads. -/
theorem Poised.congr (poised : Poised r) (queue : r'.queue = r.queue) (task : r'.task = r.task)
    (current : r'.current = r.current) (mode : r'.mode = r.mode) (frame : Frame r r')
    (lifetime : ∀ s, History.lifetime s r'.trace = History.lifetime s r.trace)
    (waits : History.waits r'.trace = History.waits r.trace) : Poised r' where
  queues := poised.queues.congr queue (fun t => by rw [task]) frame.idle
  owners := poised.owners.frame_mayOwn frame
  identity := poised.identity.frame frame
  park := poised.park.congr queue (fun t => by rw [task]) frame.idle current mode
  meter := poised.meter.congr frame.sem (fun s => by rw [queue]) lifetime
  waits := poised.waits.congr waits (fun s => by rw [queue]) (fun t => by rw [task])
    fun t s => by rw [Owed, Owed, queue, mode, current, task]
  running := poised.running.congr queue (fun t => by rw [task]) frame.idle current

/-! ### Interrupts -/

theorem Sound.preempt (sound : Sound r) (user : r.mode = .user) :
    Poised (r.yield.schedNext .handler) ∧ Unread r (r.yield.schedNext .handler) := by
  obtain ⟨queues, all⟩ := sound.running.yield sound.queues
  have frame := frame_yield sound.running
  have park := sound.park.yield sound.queues sound.running user
  have user' : r.yield.mode = .user := yield_mode.trans user
  have out : r.yield.current ∉ r.yield.queue .readers := by
    rw [yield_current, yield_readers]
    exact sound.out .readers
  refine ⟨Poised.dispatch queues all (sound.owners.frame_mayOwn frame)
    (sound.identity.frame frame) ?_ park (sound.waits.yield sound.queues sound.running user) user',
    ?_⟩
  · refine sound.meter.congr frame.sem ?_ ?_
    · intro s
      rw [yield]
      split <;> simp [place, setQueue, setState, setTask]
    · intro s
      rw [yield]
      split <;> rfl
  · exact (Unread.yield user).trans (Unread.schedNext park user' out)

theorem Sound.accept {key : Byte} (sound : Sound r)
    (room : r.pending.length + 1 < keyboardBufferSize) : Sound (r.accept key) := by
  refine ⟨sound.toPoised.congr rfl rfl rfl rfl ?_ (fun _ => rfl) rfl, sound.reads.accept room⟩
  exact ⟨rfl, rfl, rfl, rfl, rfl, rfl, rfl, rfl, fun _ => rfl, fun _ => rfl, fun _ => Iff.rfl,
    fun _ _ empty => empty, fun _ => rfl⟩

theorem Sound.wake (sound : Sound r) (user : r.mode = .user) {rest : List TaskId}
    (waiting : r.queue .readers = task :: rest) : Sound (r.wake task) := by
  obtain ⟨queues, all⟩ := sound.running.yield sound.queues
  have frame := frame_yield sound.running
  have park := sound.park.yield sound.queues sound.running user
  have readers : r.yield.queue .readers = task :: rest := yield_readers.trans waiting
  have inside : task ∈ r.yield.queue .readers := by simp [readers]
  have apart : task ≠ r.current := by
    rintro rfl
    exact sound.out .readers (by simp [waiting])
  have idle : r.yield.live r.yield.idle := by
    rw [frame.idle, frame.live]
    exact sound.identity.idle
  have moved : Frame r.yield ((r.yield.take task .readers).place task .ready true) :=
    frame_move queues inside (by simp) (by simp) (by simp)
  have queues' := @move_sound _ _ _ .ready true queues inside
  have whole : Frame r (r.wake task) := by
    refine (frame.trans moved).trans (frame_schedNext queues' ?_)
    rw [moved.idle, moved.live]
    exact idle
  refine ⟨⟨⟨schedNext_sound queues', sound.owners.frame_mayOwn whole,
    sound.identity.frame whole, park.wake queues apart inside, ?_, ?_⟩,
    schedNext_running queues' (all.move queues inside)⟩,
    sound.reads.wake user waiting (sound.out .readers) park⟩
  · have trace : (r.wake task).trace = r.trace := by
      rw [Roster.wake, yield]
      split <;> rfl
    refine sound.meter.congr whole.sem ?_ fun s => by rw [trace]
    intro s
    rw [Roster.wake, schedNext_queue, yield]
    split <;> simp [take, place, setQueue, setState, setTask]
  · exact (sound.waits.yield sound.queues sound.running user).wake park queues
      (yield_mode.trans user) apart inside

/-! ### Reads -/

/-- The running reader blocks. -/
theorem Poised.blockReader (poised : Poised r) (user : r.mode = .user)
    (busy : r.current ≠ r.idle) {first : Bool} {saved : Resume}
    (fits : Queue.readers.Fits saved) :
    Poised ((r.place r.current .readers first).schedNext saved) := by
  obtain ⟨queues, all⟩ := @Running.place _ .readers first poised.running poised.queues busy
  have frame : Frame r (r.place r.current .readers first) :=
    frame_place (live_of_running poised.running) (by simp) (by simp)
  have notWait : ∀ s, saved ≠ .semWait s := by
    rintro s rfl
    cases fits.1
  refine Poised.dispatch queues all (poised.owners.frame_mayOwn frame)
    (poised.identity.frame frame) ?_ (poised.park.suspend poised.running user busy fits)
    (poised.waits.suspend poised.running user notWait (by simp)) user
  exact poised.meter.congr frame.sem
    (fun s => by simp [place, setQueue, setState, setTask]) fun _ => rfl

theorem popKeys_lifetime (size : Nat) (buffer : DWord) (s : SemId) : ∀ (count : Nat) (r : Roster),
    History.lifetime s (r.popKeys size buffer count).1.trace = History.lifetime s r.trace := by
  induction size with
  | zero => exact fun _ _ => rfl
  | succ size ih =>
      intro count r
      cases h : r.pending with
      | nil => simp [popKeys, h]
      | cons key rest =>
          simp only [popKeys, h]
          rw [ih]
          exact lifetime_other (by simp [History.subject])

theorem popKeys_waits (size : Nat) (buffer : DWord) : ∀ (count : Nat) (r : Roster),
    History.waits (r.popKeys size buffer count).1.trace = History.waits r.trace := by
  induction size with
  | zero => exact fun _ _ => rfl
  | succ size ih =>
      intro count r
      cases h : r.pending with
      | nil => simp [popKeys, h]
      | cons key rest =>
          simp only [popKeys, h]
          rw [ih]
          rfl

theorem Poised.popKeys (poised : Poised r) (size count : Nat) (buffer : DWord) :
    Poised (r.popKeys size buffer count).1 := by
  have lifetime := fun s => popKeys_lifetime size buffer s count r
  have waits := popKeys_waits size buffer count r
  have frame := @frame_popKeys r size count buffer
  obtain ⟨pending, trace, shape, _⟩ := popKeys_shape size buffer count r
  refine poised.congr ?_ ?_ ?_ ?_ frame lifetime waits <;> rw [shape]

/-- After a round the reader may block again. -/
theorem Poised.serve_park (poised : Poised r) (user : r.mode = .user) (busy : r.current ≠ r.idle)
    (start buffer : DWord) {totalSize size : Int} (sane : size ≤ totalSize) (s : Roster)
    (popped : s = (r.popKeys size.toNat start 0).1) (count : Nat) (positive : 0 < size - count) :
    s.mode = .user ∧ s.current ≠ s.idle ∧
      Queue.readers.Fits (.readLoop buffer totalSize (size - count)) ∧
      ParkSound ((s.place s.current .readers true).save
        (.readLoop buffer totalSize (size - count))) := by
  have after := poised.popKeys size.toNat 0 start
  rw [← popped] at after
  have fits : Queue.readers.Fits (.readLoop buffer totalSize (size - count)) :=
    ⟨rfl, positive, by omega⟩
  obtain ⟨pending, trace, shape, _⟩ := popKeys_shape size.toNat start 0 r
  have user' : s.mode = .user := by
    rw [popped, shape]
    exact user
  have busy' : s.current ≠ s.idle := by
    rw [popped, shape]
    exact busy
  exact ⟨user', busy', fits, after.park.suspend after.running user' busy' fits⟩

/-- A round of the read loop, and the return or the next block. -/
theorem Sound.serve (poised : Poised r) (busy : r.current ≠ r.idle)
    {finished rest : List History.Call} {call : History.Call}
    (serving : Serving r finished call rest)
    (bounded : r.pending.length < keyboardBufferSize) {start buffer : DWord}
    {totalSize size : Int} (place : start = buffer + BitVec.ofNat 32 call.stored.length)
    (own : call.buffer = buffer) (length : call.size = totalSize.toNat)
    (left : call.stored.length + size.toNat = totalSize.toNat) (sane : size ≤ totalSize) :
    Sound ((r.popKeys size.toNat start 0).1.readLoop buffer totalSize
      (size - (r.popKeys size.toNat start 0).2)) := by
  have popped := poised.popKeys size.toNat 0 start
  have again := poised.serve_park serving.user busy start buffer sane _ rfl
  refine ⟨?_, ?_⟩
  · rw [readLoop]
    split
    · rename_i positive
      obtain ⟨user, busy', fits, _⟩ := again _ positive
      exact popped.blockReader user busy' fits
    · refine popped.congr rfl rfl rfl rfl (frame_note (by simp)) ?_ rfl
      intro s
      exact lifetime_other (by simp [History.subject])
  · refine serving.serve (poised.out .readers) bounded place own length left ?_
    rintro _ rfl count positive
    exact (again count positive).2.2.2

theorem Poised.note_read (poised : Poised r) (buffer : DWord) (size : Nat) :
    Poised (r.note (.readCalled r.current buffer size)) := by
  refine poised.congr rfl rfl rfl rfl (frame_note (by simp)) ?_ rfl
  intro s
  exact lifetime_other (by simp [History.subject])

theorem Sound.read (sound : Sound r) (user : r.mode = .user) (busy : r.current ≠ r.idle)
    {buffer : DWord} {size : Int} (positive : 0 ≤ size) : Sound (r.read buffer size) := by
  have noted : Poised (r.note (.readCalled r.current buffer size.toNat)) :=
    sound.toPoised.note_read buffer size.toNat
  rw [Roster.read]
  by_cases alone : r.queue .readers = []
  · obtain ⟨finished, serving⟩ := sound.reads.begin user alone buffer size.toNat
    rw [if_pos (by exact alone)]
    exact Sound.serve noted busy serving sound.reads.bounded (by simp) rfl rfl (by simp)
      (le_refl size)
  · rw [if_neg (by exact alone)]
    have fits : Queue.readers.Fits (.readFirst buffer size) := ⟨rfl, positive⟩
    exact ⟨noted.blockReader user busy fits,
      sound.reads.enqueue user (sound.out .readers) alone
        (noted.park.suspend noted.running user busy fits)⟩

/-- What `sound` says once the dispatched task is back in user mode. -/
theorem Poised.resumed (poised : Poised r)
    (outside : ∀ s, (r.task r.current).resume ≠ .semWait s) :
    Poised { r with mode := .user } where
  queues := poised.queues.congr rfl (fun _ => rfl) rfl
  owners := poised.owners.frame_mayOwn frame_mode
  identity := poised.identity.frame frame_mode
  park := ⟨poised.park.fits, poised.park.idle, fun switching => by cases switching⟩
  meter := poised.meter.congr rfl (fun _ => rfl) fun _ => rfl
  waits := poised.waits.resumed outside
  running := poised.running.congr rfl (fun _ => rfl) rfl rfl

/-- Idle is never the woken reader. -/
theorem Poised.reader_busy (poised : Poised r)
    (reading : (r.task r.current).resume.reading = true) : r.current ≠ r.idle := by
  intro same
  have calm := poised.park.idle
  rw [← same] at calm
  cases h : (r.task r.current).resume <;> rw [h] at calm reading <;> cases calm <;> cases reading

theorem Sound.resumeFirst (sound : Sound r) (switching : r.mode = .switching) {buffer : DWord}
    {size : Int} (resume : (r.task r.current).resume = .readFirst buffer size) :
    Sound ({ r with mode := .user }.readFirst buffer size) := by
  have reading : (r.task r.current).resume.reading = true := by rw [resume]; rfl
  obtain ⟨finished, call, rest, serving, serves⟩ := sound.reads.serving ⟨switching, reading⟩
  rw [resume] at serves
  obtain ⟨own, length, none⟩ := serves
  have poised := sound.toPoised.resumed (by simp [resume])
  refine Sound.serve poised (sound.toPoised.reader_busy reading) serving sound.reads.bounded
    ?_ own length ?_ (le_refl size)
  · rw [none]
    simp
  · rw [none]
    simp

theorem Sound.resumeLoop (sound : Sound r) (switching : r.mode = .switching) {buffer : DWord}
    {totalSize size : Int} (resume : (r.task r.current).resume = .readLoop buffer totalSize size) :
    Sound ({ r with mode := .user }.readAgain buffer totalSize size) := by
  have reading : (r.task r.current).resume.reading = true := by rw [resume]; rfl
  obtain ⟨finished, call, rest, serving, serves⟩ := sound.reads.serving ⟨switching, reading⟩
  have sane := sound.park.current switching
  rw [resume] at serves sane
  obtain ⟨own, length, left⟩ := serves
  have poised := sound.toPoised.resumed (by simp [resume])
  refine Sound.serve poised (sound.toPoised.reader_busy reading) serving sound.reads.bounded
    ?_ own length left sane.2
  have got : totalSize - size = (call.stored.length : Int) := by
    have := sane.1
    have := sane.2
    omega
  rw [got]
  rfl

theorem Sound.resume (sound : Sound r) (outside : ∀ s, (r.task r.current).resume ≠ .semWait s)
    (idle : (r.task r.current).resume.reading = false) :
    Poised { r with mode := .user } ∧ Unread r { r with mode := .user } := by
  refine ⟨sound.toPoised.resumed outside, ?_⟩
  have inactive : ¬ r.Active := by
    rintro ⟨_, reading⟩
    rw [idle] at reading
    cases reading
  exact ⟨rfl, iff_of_false (not_active rfl) inactive, fun active => absurd active inactive,
    fun _ _ => rfl, rfl, rfl, rfl⟩

/-! ### Semaphores -/

/-- A change of one semaphore and of what its owner lists. -/
theorem Sound.semCreate (sound : Sound r) (user : r.mode = .user) (busy : r.current ≠ r.idle)
    {value : DWord} (unused : (r.sem sem).used = false) :
    Poised (r.semCreate sem value) ∧ Unread r (r.semCreate sem value) := by
  have empty := sound.owners.unused sem unused
  have queue : (r.semCreate sem value).queue = r.queue := by
    change Function.update r.queue (.waiters sem) [] = r.queue
    rw [← empty, Function.update_eq_self]
  have owners : OwnerSound r.mayOwn (r.semCreate sem value) :=
    sound.owners.semCreate unused (sound.toPoised.mayOwn busy)
  refine ⟨⟨⟨sound.queues.congr queue (fun _ => rfl) rfl, owners, sound.identity.congr rfl rfl rfl
    rfl rfl rfl, sound.park.congr queue (fun _ => rfl) rfl rfl rfl, sound.meter.semCreate, ?_⟩,
    sound.running.congr queue (fun _ => rfl) rfl rfl⟩, ?_⟩
  · refine sound.waits.congr rfl (fun s => by rw [queue]) (fun _ => rfl) fun t s => ?_
    rw [Owed, Owed, queue]
    rfl
  · exact Unread.of_user user user (by rw [queue]) (fun _ _ => rfl) rfl rfl rfl

/-- A change of a counter, and a note about it. -/
theorem Sound.semCount (sound : Sound r) (user : r.mode = .user) {count : Int} {entry : Note}
    (about : ∀ s pid value, entry ≠ .semCreated s pid value)
    (meter : MeterSound ((r.semCount sem count).note entry))
    (waits : History.waits (entry :: r.trace) = History.waits r.trace)
    (calls : History.calls (entry :: r.trace) = History.calls r.trace)
    (accepted : History.accepted (entry :: r.trace) = History.accepted r.trace) :
    Poised ((r.semCount sem count).note entry) ∧ Unread r ((r.semCount sem count).note entry) := by
  have owners : OwnerSound r.mayOwn (r.semCount sem count) := sound.owners.semCount
  refine ⟨⟨⟨sound.queues.congr rfl (fun _ => rfl) rfl, owners.frame_mayOwn (frame_note about),
    sound.identity.congr rfl rfl rfl rfl rfl rfl, sound.park.congr rfl (fun _ => rfl) rfl rfl rfl,
    meter, sound.waits.congr waits (fun _ => rfl) (fun _ => rfl) fun _ _ => Iff.rfl⟩,
    sound.running.congr rfl (fun _ => rfl) rfl rfl⟩, ?_⟩
  exact Unread.of_user user user rfl (fun _ _ => rfl) rfl calls accepted

theorem Sound.semTake (sound : Sound r) (user : r.mode = .user)
    (used : (r.sem sem).used = true) (some : (r.sem sem).count ≠ 0) :
    Poised (r.semTake sem) ∧ Unread r (r.semTake sem) :=
  sound.semCount user (by simp) (sound.meter.semTake used some) rfl rfl rfl

theorem Sound.semRaise (sound : Sound r) (user : r.mode = .user)
    (used : (r.sem sem).used = true) (idle : r.queue (.waiters sem) = []) :
    Poised (r.semRaise sem) ∧ Unread r (r.semRaise sem) :=
  sound.semCount user (by simp) (sound.meter.semRaise used idle) rfl rfl rfl

theorem Sound.semBlock (sound : Sound r) (user : r.mode = .user) (busy : r.current ≠ r.idle)
    (used : (r.sem sem).used = true) (none : (r.sem sem).count = 0) :
    Poised (r.semBlock sem) ∧ Unread r (r.semBlock sem) := by
  have noted : Frame r (r.note (.semBlocked sem r.current)) := frame_note (by simp)
  have queues : (r.note (.semBlocked sem r.current)).QueueSound :=
    sound.queues.congr rfl (fun _ => rfl) rfl
  have running : (r.note (.semBlocked sem r.current)).Running :=
    sound.running.congr rfl (fun _ => rfl) rfl rfl
  have park : ParkSound (r.note (.semBlocked sem r.current)) :=
    sound.park.congr rfl (fun _ => rfl) rfl rfl rfl
  obtain ⟨queues', all⟩ := @Running.place _ (.waiters sem) false running queues busy
  have placed : Frame (r.note (.semBlocked sem r.current))
      ((r.note (.semBlocked sem r.current)).place r.current (.waiters sem) false) :=
    frame_place (live_of_running running) (by simp) fun s same => by
      cases same
      exact used
  have frame := noted.trans placed
  have parked := @ParkSound.suspend _ (.waiters sem) false (.semWait sem) park running user busy rfl
  have out : r.current ∉ ((r.note (.semBlocked sem r.current)).place r.current (.waiters sem)
      false).queue .readers := by
    rw [mem_place]
    rintro (⟨same, _⟩ | member)
    · cases same
    · exact sound.toPoised.out .readers member
  refine ⟨Poised.dispatch queues' all (sound.owners.frame_mayOwn frame)
    (sound.identity.frame frame) ?_ parked (sound.waits.block sound.running user) user, ?_⟩
  · exact sound.meter.semBlock used none
  · refine Unread.trans ?_ (Unread.schedNext parked user out)
    refine Unread.of_user user user ?_ (fun _ _ => place_resume) rfl rfl rfl
    simp [place, note, setQueue, setState, setTask]

theorem Sound.semGrant (sound : Sound r) (user : r.mode = .user)
    (used : (r.sem sem).used = true) {rest : List TaskId}
    (waiting : r.queue (.waiters sem) = task :: rest) :
    Poised (r.semGrant sem task) ∧ Unread r (r.semGrant sem task) := by
  have inside : task ∈ r.queue (.waiters sem) := by simp [waiting]
  have frame : Frame r (r.semGrant sem task) :=
    (frame_move sound.queues inside (by simp) (by simp) (by simp)).trans (frame_note (by simp))
  have moved := @move_sound _ _ _ .ready false sound.queues inside
  have park : ParkSound ((r.take task (.waiters sem)).place task .ready false) :=
    sound.park.grant sound.queues inside
  have running : ((r.take task (.waiters sem)).place task .ready false).Running :=
    sound.running.move sound.queues inside
  refine ⟨⟨⟨moved.congr rfl (fun _ => rfl) rfl, sound.owners.frame_mayOwn frame,
    sound.identity.frame frame, park.congr rfl (fun _ => rfl) rfl rfl rfl,
    sound.meter.semGrant used waiting, sound.waits.semGrant sound.queues sound.park user inside⟩,
    running.congr rfl (fun _ => rfl) rfl rfl⟩, ?_⟩
  refine Unread.of_user user user ?_ (fun _ _ => place_resume) rfl rfl rfl
  simp [Roster.semGrant, take, place, note, setQueue, setState, setTask]

/-! ### Destruction -/

/-- All waiters of a destroyed semaphore become ready. -/
theorem mem_semDestroy {owner : TaskId} {q : Queue} :
    task ∈ (semDestroy owner r sem).queue q ↔
      q = .ready ∧ task ∈ r.queue (.waiters sem) ∨ task ∈ r.queue q ∧ q ≠ .waiters sem := by
  simp only [semDestroy_eq, Function.update_apply]
  by_cases ready : q = .ready
  · subst ready
    simp [or_comm]
  · by_cases waiters : q = .waiters sem
    · simp [waiters]
    · simp [ready, waiters]

theorem semDestroy_queued {owner : TaskId} :
    (semDestroy owner r sem).Queued task ↔ r.Queued task := by
  constructor
  · rintro ⟨q, member⟩
    rw [mem_semDestroy] at member
    rcases member with ⟨_, inside⟩ | ⟨inside, _⟩
    · exact ⟨_, inside⟩
    · exact ⟨q, inside⟩
  · rintro ⟨q, inside⟩
    by_cases same : q = .waiters sem
    · exact ⟨.ready, mem_semDestroy.mpr (Or.inl ⟨rfl, same ▸ inside⟩)⟩
    · exact ⟨q, mem_semDestroy.mpr (Or.inr ⟨inside, same⟩)⟩

theorem semDestroy_state {owner : TaskId} : ((semDestroy owner r sem).task task).state =
    if task ∈ r.queue (.waiters sem) then .ready else (r.task task).state := by
  rw [semDestroy_eq]
  simp only
  split <;> rfl

theorem semDestroy_sound {owner : TaskId} (queues : r.QueueSound) :
    (semDestroy owner r sem).QueueSound := by
  refine ⟨?_, ?_, ?_, ?_⟩
  · intro q
    simp only [semDestroy_eq, Function.update_apply]
    split
    · refine List.nodup_append.mpr ⟨queues.nodup .ready, queues.nodup _, ?_⟩
      rintro t member _ inside rfl
      cases queues.apart member inside
    · split
      · exact List.nodup_nil
      · exact queues.nodup q
  · intro q q' t first second
    rw [mem_semDestroy] at first second
    rcases first with ⟨rfl, first⟩ | ⟨first, different⟩ <;>
      rcases second with ⟨rfl, second⟩ | ⟨second, different'⟩
    · rfl
    · exact absurd (queues.apart second first) different'
    · exact absurd (queues.apart first second) different
    · exact queues.apart first second
  · intro q t member
    rw [mem_semDestroy] at member
    rw [semDestroy_state]
    rcases member with ⟨rfl, inside⟩ | ⟨inside, different⟩
    · rw [if_pos inside]
      rfl
    · rw [if_neg, queues.tagged inside]
      intro waiting
      exact different (queues.apart inside waiting)
  · intro q member
    rw [mem_semDestroy] at member
    have idle : (semDestroy owner r sem).idle = r.idle := by rw [semDestroy_eq]
    rw [idle] at member
    rcases member with ⟨_, inside⟩ | ⟨inside, _⟩
    · exact queues.idleOut _ inside
    · exact queues.idleOut _ inside

/-- A destruction by the owner, whoever has the CPU. -/
theorem Steady.semDestroy {allowed : TaskId → Prop} (steady : Steady allowed r)
    (user : r.mode = .user) {owner : TaskId} (member : sem ∈ r.owned owner) :
    Steady allowed (semDestroy owner r sem) where
  queues := semDestroy_sound steady.queues
  owners := steady.owners.semDestroy member
  identity := steady.identity.semDestroy steady.queues
  park := steady.park.semDestroy
  meter := steady.meter.semDestroy
  waits := steady.waits.semDestroy steady.queues steady.park user

theorem Unread.semDestroy (user : r.mode = .user) {owner : TaskId} :
    Unread r (semDestroy owner r sem) := by
  have silent : ∀ waiters : List TaskId,
      History.calls (waiters.map (.semAborted sem) ++ .semDestroyed sem :: r.trace) =
        History.calls r.trace ∧
      History.accepted (waiters.map (.semAborted sem) ++ .semDestroyed sem :: r.trace) =
        History.accepted r.trace := by
    intro waiters
    induction waiters with
    | nil => exact ⟨rfl, rfl⟩
    | cons first rest ih => exact ih
  rw [semDestroy_eq]
  refine Unread.of_user user user ?_ ?_ rfl (silent _).1 (silent _).2
  · simp
  · intro t _
    simp only
    split <;> rfl

theorem Sound.semDestroy (sound : Sound r) (user : r.mode = .user) {owner : TaskId}
    (member : sem ∈ r.owned owner) :
    Poised (semDestroy owner r sem) ∧ Unread r (semDestroy owner r sem) := by
  have steady := sound.toSteady.semDestroy user member
  have live : ∀ t, r.live t → (Roster.semDestroy owner r sem).live t := by
    intro t alive
    rw [Roster.live, semDestroy_state]
    split
    · simp
    · exact alive
  have current : (Roster.semDestroy owner r sem).current = r.current := by rw [semDestroy_eq]
  have idle : (Roster.semDestroy owner r sem).idle = r.idle := by rw [semDestroy_eq]
  refine ⟨⟨⟨steady.queues, steady.owners.mono ?_, steady.identity, steady.park, steady.meter,
    steady.waits⟩, ⟨?_, ?_, ?_⟩⟩, Unread.semDestroy user⟩
  · rintro s t - - ⟨alive, notIdle⟩
    exact ⟨live t alive, by rw [idle]; exact notIdle⟩
  · rw [current, semDestroy_queued]
    exact sound.running.out
  · rw [current, semDestroy_state, if_neg (sound.toPoised.out _)]
    exact sound.running.state
  · intro t notIdle notCurrent
    rw [idle] at notIdle
    rw [current] at notCurrent
    rw [semDestroy_queued]
    exact sound.running.others t notIdle notCurrent

/-! ### Creation and death -/

theorem spawn_queues (queues : r.QueueSound) {others : List TaskId} {dir : DirId}
    {start : Resume} (pool : r.queue .free = task :: others) :
    ((r.allocate task dir).launch task start).QueueSound ∧
      ∀ t, ((r.allocate task dir).launch task start).Queued t ↔ r.Queued t := by
  have inside : task ∈ r.queue .free := by simp [pool]
  have queue : ((r.allocate task dir).launch task start).queue =
      ((r.take task .free).place task .ready false).queue := by
    rw [spawn_eq pool]
    simp [take, place, setQueue, setState, setTask, pool]
  have moved := @move_sound _ _ _ .ready false queues inside
  refine ⟨moved.congr queue ?_ (by rw [spawn_eq pool]; rfl), ?_⟩
  · intro t
    rw [place_state, spawn_eq pool]
    simp only [Function.update_apply]
    split <;> rfl
  · intro t
    rw [Queued, queue]
    exact queued_move queues inside

theorem unread_opened (dir : DirId) : Unread r (r.note (.dirOpened dir)) :=
  ⟨rfl, Iff.rfl, fun _ => rfl, fun _ _ => rfl, rfl, rfl, rfl⟩

/-- The history of directories matters to none of the invariants. -/
theorem Sound.noteOpened (sound : Sound r) (dir : DirId) : Sound (r.note (.dirOpened dir)) := by
  refine ⟨sound.toPoised.congr rfl rfl rfl rfl (frame_note (by simp)) ?_ rfl,
    sound.reads.unread (unread_opened dir)⟩
  intro s
  exact lifetime_other (by simp [History.subject])

/-- A task of the pool becomes ready in `dir`; `freeDirs` are the spare
directories left. -/
theorem Sound.spawn (sound : Sound r) (user : r.mode = .user) {others : List TaskId}
    {dir : DirId} {start : Resume} {freeDirs : List DirId}
    (pool : r.queue .free = task :: others) (fits : start.reading = false)
    (notWait : ∀ s, start ≠ .semWait s)
    (spare : ∀ d, d ∈ freeDirs ↔ d ∈ r.freeDirs ∧ d ≠ dir) (distinct : freeDirs.Nodup) :
    Poised (((r.enter dir freeDirs).allocate task dir).launch task start) ∧
      Unread r (((r.enter dir freeDirs).allocate task dir).launch task start) := by
  have inside : task ∈ r.queue .free := by simp [pool]
  have dead : ¬ r.live task := by
    rw [live, sound.queues.tagged inside]
    exact fun alive => alive rfl
  have notCurrent : r.current ≠ task := by
    rintro same
    exact sound.toPoised.out .free (same ▸ inside)
  have owners : OwnerSound (r.enter dir freeDirs).mayOwn (r.enter dir freeDirs) :=
    ⟨sound.owners.unused, sound.owners.started, sound.owners.owner, sound.owners.listed,
      sound.owners.distinct⟩
  have queues : (r.enter dir freeDirs).QueueSound := sound.queues.congr rfl (fun _ => rfl) rfl
  have park : ParkSound (r.enter dir freeDirs) :=
    sound.park.congr rfl (fun _ => rfl) rfl rfl rfl
  have waits : WaitSound (r.enter dir freeDirs) :=
    sound.waits.congr rfl (fun _ => rfl) (fun _ => rfl) fun _ _ => Iff.rfl
  obtain ⟨queues', queued⟩ := @spawn_queues _ _ queues others dir start pool
  refine ⟨⟨⟨queues', owners.spawn pool dead, sound.identity.spawn pool dead spare distinct,
    park.spawn user queues pool fits, ?_, waits.spawn user queues pool notWait⟩,
    ⟨?_, ?_, ?_⟩⟩, ?_⟩
  · refine sound.meter.congr rfl ?_ fun _ => rfl
    intro s
    simp [launch, allocate, place, setQueue, setState, setTask, enter]
  · rw [queued]
    exact sound.running.out
  · rw [@spawn_eq (r.enter dir freeDirs) task others dir start pool]
    simp only [enter, Function.update_of_ne notCurrent]
    exact sound.running.state
  · intro t notIdle different
    rw [queued]
    exact sound.running.others t notIdle different
  · have resume : ∀ t ∈ r.queue .readers,
        ((((r.enter dir freeDirs).allocate task dir).launch task start).task t).resume =
          (r.task t).resume := by
      intro t member
      have different : t ≠ task := by
        rintro rfl
        cases sound.queues.apart member inside
      rw [@spawn_eq (r.enter dir freeDirs) task others dir start pool]
      simp only [enter, Function.update_of_ne different]
    refine Unread.of_user user user ?_ resume rfl rfl rfl
    simp [launch, allocate, place, setQueue, setState, setTask, enter]

theorem Sound.fork (sound : Sound r) (user : r.mode = .user) {others : List TaskId}
    {dir : DirId} {dirs : List DirId} (pool : r.queue .free = task :: others)
    (spare : r.freeDirs = dir :: dirs) :
    Poised (((r.newDir dir).allocate task dir).launch task .retFromFork) ∧
      Unread r (((r.newDir dir).allocate task dir).launch task .retFromFork) := by
  have distinct := sound.identity.spareDistinct
  rw [spare, List.nodup_cons] at distinct
  have unused : r.dirCount dir = 0 := (sound.identity.spare dir).mp (by simp [spare])
  have same : r.newDir dir = (r.enter dir dirs).note (.dirOpened dir) := by
    simp [newDir, enter, note, spare, unused]
  rw [same]
  have left : ∀ d, d ∈ dirs ↔ d ∈ r.freeDirs ∧ d ≠ dir := by
    intro d
    rw [spare, List.mem_cons]
    constructor
    · intro member
      exact ⟨Or.inr member, fun same => distinct.1 (same ▸ member)⟩
    · rintro ⟨same | member, different⟩
      · exact absurd same different
      · exact member
  have noted : Sound (r.note (.dirOpened dir)) := sound.noteOpened dir
  have spawned : Poised ((((r.note (.dirOpened dir)).enter dir dirs).allocate task dir).launch
      task .retFromFork) ∧ Unread (r.note (.dirOpened dir)) _ :=
    noted.spawn user pool rfl (by simp) left distinct.2
  exact ⟨spawned.1, (unread_opened dir).trans spawned.2⟩

theorem Sound.clone (sound : Sound r) (user : r.mode = .user) {others : List TaskId}
    {dir : DirId} (pool : r.queue .free = task :: others)
    (housed : (r.task r.current).dir = some dir) :
    Poised (((r.shareDir dir).allocate task dir).launch task .cloned) ∧
      Unread r (((r.shareDir dir).allocate task dir).launch task .cloned) := by
  have used : dir ∉ r.freeDirs := by
    rw [sound.identity.spare, sound.identity.counted]
    have occupied : 0 < dirUsers (fun t => (r.task t).dir) dir :=
      dirUsers_pos.mpr ⟨r.current, housed⟩
    omega
  refine sound.spawn user pool rfl (by simp) ?_ sound.identity.spareDistinct
  intro d
  constructor
  · intro member
    exact ⟨member, fun same => used (same ▸ member)⟩
  · exact And.left

/-! #### Exit -/

/-- The dying task is on `free_queue`, and the others are where they were. -/
theorem retire_sound (sound : Sound r) (user : r.mode = .user) (busy : r.current ≠ r.idle) :
    Steady (fun t => r.retire.mayOwn t ∨ t = r.current) r.retire ∧ r.retire.AllQueued ∧
      Unread r r.retire := by
  obtain ⟨queues, all⟩ := @Running.place _ .free false sound.running sound.queues busy
  have queue : r.retire.queue = (r.place r.current .free false).queue := by
    rw [retire_eq]
    simp [place, setQueue, setState, setTask]
  have state : ∀ t, (r.retire.task t).state =
      ((r.place r.current .free false).task t).state := by
    intro t
    rw [retire_eq, place_state]
    simp only [Function.update_apply]
    split <;> rfl
  have idle : r.retire.idle = r.idle := by rw [retire_eq]
  refine ⟨⟨queues.congr queue state idle, sound.owners.retire,
    sound.identity.retire (live_of_running sound.running) busy, sound.park.retire user, ?_,
    sound.waits.retire user⟩, ?_, ?_⟩
  · refine sound.meter.congr (by rw [retire_eq]) ?_ fun s => retire_trace _ fun _ _ =>
      lifetime_other (by simp [History.subject])
    intro s
    simp [retire_eq]
  · intro t notIdle
    rw [idle] at notIdle
    rw [Queued, queue]
    exact all t notIdle
  · refine Unread.of_user user (by rw [retire_eq]; exact user) ?_ ?_
      (by rw [retire_eq]) (retire_trace _ fun _ _ => rfl) (retire_trace _ fun _ _ => rfl)
    · simp [retire_eq]
    · intro t member
      have different : t ≠ r.current := by
        rintro rfl
        exact sound.toPoised.out .readers member
      simp only [retire_eq, Function.update_of_ne different]

/-- What every destruction during the exit of the running task of `r` keeps. -/
structure Dying (r s : Roster) : Prop where
  steady : Steady (fun t => r.retire.mayOwn t ∨ t = r.current) s
  all : s.AllQueued
  unread : Unread r s
  user : s.mode = .user
  current : s.current = r.current
  idle : s.idle = r.idle
  dead : r.current ∈ s.queue .free
  alive : ∀ t, r.retire.live t → s.live t

theorem Sound.dying (sound : Sound r) (user : r.mode = .user) (busy : r.current ≠ r.idle) :
    Dying r r.retire := by
  obtain ⟨steady, all, unread⟩ := retire_sound sound user busy
  exact ⟨steady, all, unread, by rw [retire_eq]; exact user, by rw [retire_eq], by rw [retire_eq],
    by simp [retire_eq], fun _ alive => alive⟩

theorem Dying.semDestroy {s : Roster} (dying : Dying r s) (member : sem ∈ s.owned r.current) :
    Dying r (semDestroy r.current s sem) := by
  have idle : (Roster.semDestroy r.current s sem).idle = s.idle := by rw [semDestroy_eq]
  refine ⟨dying.steady.semDestroy dying.user member, ?_,
    dying.unread.trans (Unread.semDestroy dying.user), by rw [semDestroy_eq]; exact dying.user,
    by rw [semDestroy_eq]; exact dying.current, idle.trans dying.idle,
    mem_semDestroy.mpr (Or.inr ⟨dying.dead, by simp⟩), ?_⟩
  · intro t notIdle
    rw [idle] at notIdle
    rw [semDestroy_queued]
    exact dying.all t notIdle
  · intro t alive
    rw [live, semDestroy_state]
    split
    · simp
    · exact dying.alive t alive

/-- Without its semaphores the dead task leaves a sound state. -/
theorem Dying.leave {s : Roster} (dying : Dying r s) (none : s.owned r.current = []) :
    Poised (s.schedNext .exited) ∧ Unread r (s.schedNext .exited) := by
  have dead : s.current ∈ s.queue .free := by
    rw [dying.current]
    exact dying.dead
  have owners : OwnerSound s.mayOwn s := by
    refine dying.steady.owners.mono ?_
    rintro sem t used owner (⟨alive, notIdle⟩ | rfl)
    · refine ⟨dying.alive t alive, ?_⟩
      rw [dying.idle]
      rw [retire_eq] at notIdle
      exact notIdle
    · have listed := (dying.steady.owners.listed sem r.current).mpr ⟨used, owner⟩
      rw [none] at listed
      cases listed
  have park : ParkSound (s.save .exited) :=
    dying.steady.park.bury dying.steady.queues dead dying.user
  have out : s.current ∉ s.queue .readers := fun member => by
    cases dying.steady.queues.apart member dead
  exact ⟨Poised.dispatch dying.steady.queues dying.all owners dying.steady.identity
    dying.steady.meter park (dying.steady.waits.bury dying.steady.queues dead dying.user)
    dying.user, dying.unread.trans (Unread.schedNext park dying.user out)⟩

/-- The exit, as the state in which all is destroyed and the next task chosen. -/
theorem Dying.exit (dying : Dying r r.retire) :
    ∃ s, Dying r s ∧ s.owned r.current = [] ∧ r.exit = s.schedNext .exited := by
  have rule := foldl_semDestroy (Dying r) (fun s sem dying member => dying.semDestroy member)
    (r.owned r.current) r.retire dying (by rw [retire_eq])
  refine ⟨_, rule.1, rule.2, ?_⟩
  rw [exit_eq]
  congr 1
  rw [← rule.2, Function.update_eq_self]

theorem Sound.exit (sound : Sound r) (user : r.mode = .user) (busy : r.current ≠ r.idle) :
    Poised r.exit ∧ Unread r r.exit := by
  obtain ⟨s, dying, none, shape⟩ := (sound.dying user busy).exit
  rw [shape]
  exact dying.leave none

theorem Sound.resumeWait (sound : Sound r) (switching : r.mode = .switching)
    (resume : (r.task r.current).resume = .semWait sem) :
    Poised ({ r with mode := .user }.waitReturn) ∧
      Unread r ({ r with mode := .user }.waitReturn) := by
  have waits := sound.waits.waitReturn switching sound.running resume
  rw [waitReturn_eq] at waits ⊢
  have same : ∀ t, (Function.update r.task r.current
      { r.task r.current with aborted := false } t).state = (r.task t).state ∧
      (Function.update r.task r.current
      { r.task r.current with aborted := false } t).resume = (r.task t).resume ∧
      (Function.update r.task r.current
      { r.task r.current with aborted := false } t).pid = (r.task t).pid ∧
      (Function.update r.task r.current
      { r.task r.current with aborted := false } t).dir = (r.task t).dir := by
    intro t
    rw [Function.update_apply]
    split
    · rename_i mine
      rw [mine]
      exact ⟨rfl, rfl, rfl, rfl⟩
    · exact ⟨rfl, rfl, rfl, rfl⟩
  have frame : Frame r { r with
      mode := .user
      task := Function.update r.task r.current { r.task r.current with aborted := false }
      trace := .waitReturned r.current (if (r.task r.current).aborted then -1 else 0) ::
        r.trace } := by
    refine ⟨rfl, rfl, rfl, rfl, rfl, rfl, rfl, rfl, fun t => (same t).2.2.1,
      fun t => (same t).2.2.2, ?_, fun _ _ empty => empty, fun _ => rfl⟩
    intro t
    rw [live, (same t).1, live]
  refine ⟨⟨⟨sound.queues.congr rfl (fun t => (same t).1) rfl, sound.owners.frame_mayOwn frame,
    sound.identity.frame frame, ⟨?_, ?_, fun user => by cases user⟩,
    sound.meter.congr rfl (fun _ => rfl) ?_, waits⟩,
    sound.running.congr rfl (fun t => (same t).1) rfl rfl⟩, ?_⟩
  · intro q t member
    rw [(same t).2.1]
    exact sound.park.fits member
  · rw [(same _).2.1]
    exact sound.park.idle
  · intro s
    exact lifetime_other (by simp [History.subject])
  · have inactive : ¬ r.Active := by
      rintro ⟨_, reading⟩
      rw [resume] at reading
      cases reading
    refine ⟨rfl, iff_of_false (not_active rfl) inactive, fun _ => rfl, ?_, rfl, rfl, rfl⟩
    intro t _
    exact (same t).2.1

/-! ### Every step -/

/-- The steps that are about reading, and all the others. -/
theorem Sound.cases {seen : Seen} {label : Option Action} (sound : Sound r)
    (step : Step seen r label r') :
    Poised r' ∧ Unread r r' ∨
    (∃ key, r.mode = .user ∧ r.pending.length + 1 < keyboardBufferSize ∧
      (r.queue .readers = [] ∨ r.pending.length + 2 < keyboardBufferSize) ∧ r' = r.accept key) ∨
    (∃ key reader rest, r.mode = .user ∧ r.pending.length + 1 < keyboardBufferSize ∧
      r.queue .readers = reader :: rest ∧ r' = (r.accept key).wake reader) ∨
    (∃ fd buffer size, label = some (.call (.read fd buffer size)) ∧ r.mode = .user ∧
      r.current ≠ r.idle ∧ 0 ≤ size.toInt ∧ r' = r.read buffer size.toInt) ∨
    (∃ buffer size, r.mode = .switching ∧ (r.task r.current).resume = .readFirst buffer size ∧
      r' = { r with mode := .user }.readFirst buffer size) ∨
    (∃ buffer totalSize size, r.mode = .switching ∧
      (r.task r.current).resume = .readLoop buffer totalSize size ∧
      r' = { r with mode := .user }.readAgain buffer totalSize size) := by
  cases step with
  | quiet action user =>
      exact Or.inl ⟨sound.toPoised, Unread.of_user user user rfl (fun _ _ => rfl) rfl rfl rfl⟩
  | preempt user => exact Or.inl (sound.preempt user)
  | press value key user pressed room slack =>
      exact Or.inr (Or.inl ⟨key, user, room, slack.imp_right And.left, rfl⟩)
  | wake value key reader rest user pressed room waiting =>
      exact Or.inr (Or.inr (Or.inl ⟨key, reader, rest, user, room, waiting, rfl⟩))
  | fork task dir others dirs user busy pool spare => exact Or.inl (sound.fork user pool spare)
  | clone function stack exitFunc task dir others user busy pool housed =>
      exact Or.inl (sound.clone user pool housed)
  | exit user busy => exact Or.inl (sound.exit user busy)
  | read fd buffer size user busy positive =>
      exact Or.inr (Or.inr (Or.inr (Or.inl ⟨fd, buffer, size, rfl, user, busy, positive, rfl⟩)))
  | semInit nSem value sem user busy index unused =>
      exact Or.inl (sound.semCreate user busy unused)
  | semTake nSem sem user busy index used some => exact Or.inl (sound.semTake user used some)
  | semBlock nSem sem user busy index used none =>
      exact Or.inl (sound.semBlock user busy used none)
  | semRaise nSem sem user busy index used idle => exact Or.inl (sound.semRaise user used idle)
  | semGrant nSem sem task rest user busy index used waiting =>
      exact Or.inl (sound.semGrant user used waiting)
  | semDestroy nSem sem owner user busy index used owned pid =>
      exact Or.inl (sound.semDestroy user ((sound.owners.listed sem owner).mpr ⟨used, owned⟩))
  | resume switching outside =>
      simp only [List.mem_cons, List.not_mem_nil, or_false] at outside
      refine Or.inl (sound.resume ?_ ?_)
      · intro s same
        rw [same] at outside
        simp at outside
      · rcases outside with same | same | same | same | same <;> rw [same] <;> rfl
  | resumeWait sem switching resume => exact Or.inl (sound.resumeWait switching resume)
  | resumeFirst buffer size switching resume =>
      exact Or.inr (Or.inr (Or.inr (Or.inr (Or.inl ⟨buffer, size, switching, resume, rfl⟩))))
  | resumeLoop buffer totalSize size switching resume =>
      exact Or.inr (Or.inr (Or.inr (Or.inr (Or.inr
        ⟨buffer, totalSize, size, switching, resume, rfl⟩))))

/-- The invariant is kept by every step of the abstract machine. -/
theorem Sound.step {seen : Seen} {label : Option Action} (sound : Sound r)
    (step : Step seen r label r') :
    Sound r' := by
  rcases sound.cases step with ⟨poised, unread⟩ | ⟨key, user, room, slack, rfl⟩ |
    ⟨key, reader, rest, user, room, waiting, rfl⟩ | ⟨fd, buffer, size, _, user, busy, positive, rfl⟩ |
    ⟨buffer, size, switching, resume, rfl⟩ | ⟨buffer, totalSize, size, switching, resume, rfl⟩
  · exact ⟨poised, sound.reads.unread unread⟩
  · exact sound.accept room
  · exact (sound.accept room).wake user waiting
  · exact sound.read user busy positive
  · exact sound.resumeFirst switching resume
  · exact sound.resumeLoop switching resume

theorem Poised.room (poised : Poised r) (busy : r.current ≠ r.idle)
    {finished rest : List History.Call} {call : History.Call}
    (serving : Serving r finished call rest)
    (hungry : ∀ t ∈ r.queue .readers, 1 ≤ (r.task t).resume.wanted)
    (bounded : r.pending.length < keyboardBufferSize) {start buffer : DWord}
    {totalSize size : Int} (place : start = call.buffer + BitVec.ofNat 32 call.stored.length)
    (sane : size ≤ totalSize) (wants : 1 ≤ size ∨ r.queue .readers = []) :
    RoomSound ((r.popKeys size.toNat start 0).1.readLoop buffer totalSize
      (size - (r.popKeys size.toNat start 0).2)) := by
  obtain ⟨_, counted, pending⟩ := serving.round (poised.out .readers) size.toNat place
  refine RoomSound.serve serving.user hungry bounded counted pending wants ?_
  rintro s popped count positive
  exact (poised.serve_park serving.user busy start buffer sane s popped count positive).2.2.2

/-- While no reader asks for nothing behind another one, the ring has room for a
key whenever somebody waits for it. -/
theorem RoomSound.step {label : Option Action} (room : RoomSound r) (sound : Sound r)
    {seen : Seen} (step : Step seen r label r')
    (fed : ∀ fd buffer size, label = some (.call (.read fd buffer size)) → size.toInt = 0 →
      r.queue .readers = [] ∨ r' = r) : RoomSound r' := by
  rcases sound.cases step with ⟨_, unread⟩ | ⟨key, user, _, slack, rfl⟩ |
    ⟨key, reader, rest, user, space, waiting, rfl⟩ |
    ⟨fd, buffer, size, called, user, busy, positive, same⟩ |
    ⟨buffer, size, switching, resume, rfl⟩ | ⟨buffer, totalSize, size, switching, resume, rfl⟩
  · exact room.unread unread
  · exact room.accept slack
  · have accepted : Sound (r.accept key) := sound.accept space
    have hungry := room.hungry
    rw [openReaders_user user] at hungry
    exact RoomSound.wake hungry waiting (sound.toPoised.out .readers)
      (accepted.park.yield accepted.queues accepted.running user)
  · have hungry := room.hungry
    rw [openReaders_user user] at hungry
    have noted := sound.toPoised.note_read buffer size.toInt.toNat
    by_cases alone : r.queue .readers = []
    · obtain ⟨finished, serving⟩ := sound.reads.begin user alone buffer size.toInt.toNat
      rw [same, Roster.read, if_pos (by exact alone)]
      exact noted.room busy serving hungry sound.reads.bounded (by simp) (le_refl _)
        (Or.inr alone)
    · by_cases zero : size.toInt = 0
      · rw [(fed fd buffer size called zero).resolve_left alone]
        exact room
      · have fits : Queue.readers.Fits (.readFirst buffer size.toInt) := ⟨rfl, positive⟩
        rw [same, Roster.read, if_neg (by exact alone)]
        refine RoomSound.block (noted.park.suspend noted.running user busy fits) hungry ?_
          (room.room (not_active user) alone)
        change 1 ≤ size.toInt
        omega
  · have reading : (r.task r.current).resume.reading = true := by rw [resume]; rfl
    have active : r.Active := ⟨switching, reading⟩
    obtain ⟨finished, call, rest, serving, serves⟩ := sound.reads.serving active
    rw [resume] at serves
    obtain ⟨own, length, none⟩ := serves
    have hungry := room.hungry
    rw [openReaders, if_pos active] at hungry
    have wants := hungry r.current (by simp)
    rw [resume] at wants
    refine (sound.toPoised.resumed (by simp [resume])).room
      (sound.toPoised.reader_busy reading) serving
      (fun t member => hungry t (List.mem_cons_of_mem _ member)) sound.reads.bounded ?_
      (le_refl _) (Or.inl wants)
    rw [own, none]
    simp
  · have reading : (r.task r.current).resume.reading = true := by rw [resume]; rfl
    have active : r.Active := ⟨switching, reading⟩
    obtain ⟨finished, call, rest, serving, serves⟩ := sound.reads.serving active
    have sane := sound.park.current switching
    rw [resume] at serves sane
    obtain ⟨own, length, left⟩ := serves
    have hungry := room.hungry
    rw [openReaders, if_pos active] at hungry
    refine (sound.toPoised.resumed (by simp [resume])).room
      (sound.toPoised.reader_busy reading) serving
      (fun t member => hungry t (List.mem_cons_of_mem _ member)) sound.reads.bounded ?_
      sane.2 (Or.inl sane.1)
    have got : totalSize - size = (call.stored.length : Int) := by
      have := sane.1
      have := sane.2
      omega
    rw [own, got]
    rfl

end Roster

end Zeos
