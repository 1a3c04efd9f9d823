import Mathlib.Data.List.Forall2
import Zeos.Park

set_option autoImplicit false

/-! The keyboard stream over a run. Calls of `sys_read` are served one after the
other, and the one being served is the first that has not returned. -/

namespace Zeos

namespace History

theorem landed_append (buffer : DWord) (keys more : List Byte) : ∀ count,
    landed buffer count (keys ++ more) =
      landed buffer count keys ++ landed buffer (count + keys.length) more := by
  induction keys with
  | nil => simp [landed]
  | cons key keys ih =>
      intro count
      simp only [List.cons_append, landed, ih, List.length_cons, List.cons.injEq, true_and]
      rw [show count + 1 + keys.length = count + (keys.length + 1) by omega]

/-- A piece that starts further on in the same buffer. -/
theorem landed_shift (buffer : DWord) (offset : Nat) (keys : List Byte) : ∀ count,
    landed (buffer + BitVec.ofNat 32 offset) count keys = landed buffer (offset + count) keys := by
  induction keys with
  | nil => exact fun _ => rfl
  | cons key keys ih =>
      intro count
      simp only [landed, ih, BitVec.add_assoc, ← BitVec.ofNat_add]
      rw [Nat.add_assoc]

theorem landed_data (buffer : DWord) (keys : List Byte) : ∀ count,
    (landed buffer count keys).map Prod.snd = keys := by
  induction keys with
  | nil => exact fun _ => rfl
  | cons key keys ih =>
      intro count
      simp only [landed, List.map_cons, ih]

theorem Call.update_done {call : Call} {task : TaskId} {change : Call → Call}
    (done : call.done = true) : call.update task change = call := by
  simp [Call.update, done]

theorem Call.update_other {call : Call} {task : TaskId} {change : Call → Call}
    (other : call.task ≠ task) : call.update task change = call := by
  simp [Call.update, other]

/-- Of the calls, only the first one that has not returned is changed. -/
theorem map_update {finished rest : List Call} {call : Call} {task : TaskId}
    {change : Call → Call} (done : ∀ c ∈ finished, c.done = true) (mine : call.task = task)
    (waiting : call.done = false) (others : ∀ c ∈ rest, c.task ≠ task) :
    (finished ++ call :: rest).map (Call.update task change) =
      finished ++ change call :: rest := by
  have first : finished.map (Call.update task change) = finished := by
    conv_rhs => rw [← List.map_id finished]
    exact List.map_congr_left fun c member => Call.update_done (done c member)
  have last : rest.map (Call.update task change) = rest := by
    conv_rhs => rw [← List.map_id rest]
    exact List.map_congr_left fun c member => Call.update_other (others c member)
  have own : call.update task change = change call := by
    rw [Call.update, if_pos ⟨mine, waiting⟩]
  rw [List.map_append, List.map_cons, first, own, last]

end History

namespace Roster

open History

variable {r r' : Roster} {task other : TaskId} {q q' : Queue} {sem : SemId}

/-- A woken reader has the CPU and has not gone on yet. -/
def Active (r : Roster) : Prop :=
  r.mode = .switching ∧ (r.task r.current).resume.reading = true

instance (r : Roster) : Decidable r.Active := by
  unfold Active
  infer_instance

/-- The readers whose calls have not returned, first come first. -/
def openReaders (r : Roster) : List TaskId :=
  if r.Active then r.current :: r.queue .readers else r.queue .readers

/-- What the stack of a reader says about its call. -/
def Serves : Resume → Call → Prop
  | .readFirst buffer size, call =>
      call.buffer = buffer ∧ call.size = size.toNat ∧ call.stored = []
  | .readLoop buffer totalSize size, call =>
      call.buffer = buffer ∧ call.size = totalSize.toNat ∧
        call.stored.length + size.toNat = totalSize.toNat
  | _, _ => False

/-- The call of a blocked or woken reader. -/
def Awaits (r : Roster) (task : TaskId) (call : Call) : Prop :=
  call.task = task ∧ call.done = false ∧ Serves (r.task task).resume call

/-- The calls made so far: those that returned, then those of the readers. -/
structure Served (r : Roster) (finished opened : List Call) : Prop where
  made : calls r.trace = finished ++ opened
  returned : ∀ c ∈ finished, c.done = true ∧ c.stored.length = c.size
  awaiting : List.Forall₂ r.Awaits r.openReaders opened
  untouched : ∀ c ∈ opened.tail, c.stored = []
  aligned : ∀ c ∈ finished ++ opened, c.stored = landed c.buffer 0 c.data
  stream : (finished ++ opened).flatMap Call.data ++ r.pending = accepted r.trace

structure ReadSound (r : Roster) : Prop where
  bounded : r.pending.length < keyboardBufferSize
  served : ∃ finished opened, Served r finished opened

/-- Nothing about reading differs. -/
structure Unread (r r' : Roster) : Prop where
  readers : r'.queue .readers = r.queue .readers
  active : r'.Active ↔ r.Active
  who : r.Active → r'.current = r.current
  resume : ∀ t ∈ r.openReaders, (r'.task t).resume = (r.task t).resume
  pending : r'.pending = r.pending
  calls : calls r'.trace = calls r.trace
  accepted : accepted r'.trace = accepted r.trace

theorem Unread.openReaders (same : Unread r r') : r'.openReaders = r.openReaders := by
  by_cases active : r.Active
  · rw [Roster.openReaders, Roster.openReaders, if_pos (same.active.mpr active), if_pos active,
      same.who active, same.readers]
  · rw [Roster.openReaders, Roster.openReaders, if_neg fun h => active (same.active.mp h),
      if_neg active, same.readers]

theorem Served.of_open {finished opened : List Call} (served : Served r finished opened)
    (readers : r'.openReaders = r.openReaders)
    (resume : ∀ t ∈ r.openReaders, (r'.task t).resume = (r.task t).resume)
    (pending : r'.pending = r.pending) (calls : calls r'.trace = calls r.trace)
    (accepted : accepted r'.trace = accepted r.trace) : Served r' finished opened where
  made := calls.trans served.made
  returned := served.returned
  awaiting := by
    rw [readers]
    have parts := List.forall₂_iff_zip.mp served.awaiting
    refine List.forall₂_iff_zip.mpr ⟨parts.1, ?_⟩
    intro t call member
    obtain ⟨mine, waiting, serves⟩ := parts.2 member
    refine ⟨mine, waiting, ?_⟩
    rw [resume t (List.of_mem_zip member).1]
    exact serves
  untouched := served.untouched
  aligned := served.aligned
  stream := by rw [pending, accepted, served.stream]

theorem ReadSound.unread (sound : ReadSound r) (same : Unread r r') : ReadSound r' := by
  obtain ⟨finished, opened, served⟩ := sound.served
  refine ⟨by rw [same.pending]; exact sound.bounded, finished, opened, ?_⟩
  exact served.of_open same.openReaders same.resume same.pending same.calls same.accepted

theorem not_active (user : r.mode = .user) : ¬ r.Active := by
  rintro ⟨switching, _⟩
  rw [user] at switching
  cases switching

theorem openReaders_user (user : r.mode = .user) : r.openReaders = r.queue .readers :=
  if_neg (not_active user)

/-! ### Scheduling leaves the stream alone -/

/-- A change between two states of the same mode `user`. -/
theorem Unread.of_user (user : r.mode = .user) (user' : r'.mode = .user)
    (readers : r'.queue .readers = r.queue .readers)
    (resume : ∀ t ∈ r.queue .readers, (r'.task t).resume = (r.task t).resume)
    (pending : r'.pending = r.pending) (calls : History.calls r'.trace = History.calls r.trace)
    (accepted : History.accepted r'.trace = History.accepted r.trace) : Unread r r' where
  readers := readers
  active := iff_of_false (not_active user') (not_active user)
  who active := absurd active (not_active user)
  resume := by
    rw [openReaders_user user]
    exact resume
  pending := pending
  calls := calls
  accepted := accepted

theorem Unread.trans {r'' : Roster} (first : Unread r r') (second : Unread r' r'') :
    Unread r r'' where
  readers := second.readers.trans first.readers
  active := second.active.trans first.active
  who active := (second.who (first.active.mpr active)).trans (first.who active)
  resume t member := by
    rw [second.resume t (by rw [first.openReaders]; exact member), first.resume t member]
  pending := second.pending.trans first.pending
  calls := second.calls.trans first.calls
  accepted := second.accepted.trans first.accepted

/-- The task that `sched_next_rr` chooses is not in the middle of a read. -/
theorem schedNext_reading {saved : Resume} (park : ParkSound (r.save saved)) :
    ((r.schedNext saved).task r.nextTask).resume.reading = false := by
  have same : ((r.schedNext saved).task r.nextTask).resume =
      ((r.save saved).task r.nextTask).resume := by
    rw [schedNext_resume, save_resume]
  rw [same]
  cases h : r.queue .ready with
  | nil =>
      have next : r.nextTask = r.idle := by simp [nextTask, h]
      have calm := park.idle
      rw [save_idle] at calm
      rw [next]
      generalize ((r.save saved).task r.idle).resume = resume at calm ⊢
      cases resume <;> first | rfl | cases calm
  | cons first rest =>
      have next : r.nextTask = first := by simp [nextTask, h]
      rw [next]
      exact park.fits (q := .ready) (by simp [h])

theorem Unread.schedNext {saved : Resume} (park : ParkSound (r.save saved))
    (user : r.mode = .user) (out : r.current ∉ r.queue .readers) :
    Unread r (r.schedNext saved) := by
  refine ⟨?_, ?_, ?_, ?_, rfl, rfl, rfl⟩
  · rw [schedNext_queue, Function.update_of_ne (by simp)]
  · refine iff_of_false ?_ (not_active user)
    rintro ⟨_, reading⟩
    rw [schedNext_current, schedNext_reading park] at reading
    cases reading
  · exact fun active => absurd active (not_active user)
  · intro t member
    rw [openReaders_user user] at member
    rw [schedNext_resume, if_neg]
    rintro rfl
    exact out member

/-- The running task joins another queue. -/
theorem Unread.place {first : Bool} (user : r.mode = .user) (notReaders : q ≠ .readers) :
    Unread r (r.place task q first) := by
  refine Unread.of_user user user ?_ (fun _ _ => place_resume) rfl rfl rfl
  simp only [Roster.place, setState, setTask, setQueue,
    Function.update_of_ne (Ne.symm notReaders)]

theorem Unread.yield (user : r.mode = .user) : Unread r r.yield := by
  rw [Roster.yield]
  split
  · exact Unread.place user (by simp)
  · exact Unread.of_user user user rfl (fun _ _ => rfl) rfl rfl rfl

/-- The first reader gets the CPU and stays the first to be served. -/
theorem wake_openReaders {rest : List TaskId} (apart : task ≠ r.current)
    (waiting : r.yield.queue .readers = task :: rest)
    (park : ParkSound (r.yield.save .handler)) :
    (r.wake task).Active ∧ (r.wake task).current = task ∧
      (r.wake task).queue .readers = rest := by
  have inside : task ∈ (r.yield.save .handler).queue .readers := by
    rw [save_queue, waiting]
    simp
  have reading := (park.fits inside).1
  rw [wake_eq apart]
  refine ⟨⟨rfl, ?_⟩, rfl, ?_⟩
  · rw [run_current, run_resume, take_task]
    exact reading
  · rw [run_queue]
    simp [take, setQueue, waiting]

@[simp] theorem yield_current : r.yield.current = r.current := by
  rw [yield]
  split <;> rfl

@[simp] theorem yield_mode : r.yield.mode = r.mode := by
  rw [yield]
  split <;> rfl

@[simp] theorem yield_resume : (r.yield.task task).resume = (r.task task).resume := by
  rw [yield]
  split
  · exact place_resume
  · rfl

theorem yield_readers : r.yield.queue .readers = r.queue .readers := by
  rw [yield]
  split <;> simp [place, setQueue, setState, setTask]

theorem ReadSound.wake (sound : ReadSound r) (user : r.mode = .user) {rest : List TaskId}
    (waiting : r.queue .readers = task :: rest) (out : r.current ∉ r.queue .readers)
    (park : ParkSound (r.yield.save .handler)) : ReadSound (r.wake task) := by
  have apart : task ≠ r.current := by
    rintro rfl
    exact out (by simp [waiting])
  obtain ⟨active, current, readers⟩ :=
    wake_openReaders apart (yield_readers.trans waiting) park
  obtain ⟨finished, opened, served⟩ := sound.served
  have same : r.yield.pending = r.pending ∧ r.yield.trace = r.trace := by
    rw [Roster.yield]
    split <;> exact ⟨rfl, rfl⟩
  have pending : (r.wake task).pending = r.pending := same.1
  have trace : (r.wake task).trace = r.trace := same.2
  refine ⟨pending ▸ sound.bounded, finished, opened, served.of_open ?_ ?_ pending
    (by rw [trace]) (by rw [trace])⟩
  · rw [openReaders_user user, openReaders, if_pos active, current, readers, waiting]
  · intro t member
    rw [openReaders_user user] at member
    have different : t ≠ r.current := by
      rintro rfl
      exact out member
    rw [wake_eq apart, run_resume, take_task, save_resume, yield_current, if_neg different,
      yield_resume]

/-- An accepted character joins the end of the stream. -/
theorem ReadSound.accept {key : Byte} (sound : ReadSound r)
    (room : r.pending.length + 1 < keyboardBufferSize) : ReadSound (r.accept key) := by
  obtain ⟨finished, opened, served⟩ := sound.served
  refine ⟨by simpa [Roster.accept, note] using room, finished, opened, served.made,
    served.returned, served.awaiting, served.untouched, served.aligned, ?_⟩
  change (finished ++ opened).flatMap Call.data ++ (r.pending ++ [key]) = accepted r.trace ++ [key]
  rw [← List.append_assoc, served.stream]

/-! ### Serving a reader -/

/-- Delivery moves characters from the ring to the one call that has not returned
among those of the running task. -/
theorem popKeys_serves {finished rest : List Call} (done : ∀ c ∈ finished, c.done = true)
    (size : Nat) (buffer : DWord) : ∀ (count : Nat) (r : Roster) (call : Call),
    calls r.trace = finished ++ call :: rest → call.task = r.current → call.done = false →
    (∀ c ∈ rest, c.task ≠ r.current) →
    (r.popKeys size buffer count).2 = count + min size r.pending.length ∧
    (r.popKeys size buffer count).1.pending = r.pending.drop size ∧
    accepted (r.popKeys size buffer count).1.trace = accepted r.trace ∧
    calls (r.popKeys size buffer count).1.trace = finished ++
      { call with stored := call.stored ++ landed buffer count (r.pending.take size) } :: rest := by
  induction size with
  | zero =>
      intro count r call made _ _ _
      simp [popKeys, made, landed]
  | succ size ih =>
      intro count r call made mine waiting others
      cases h : r.pending with
      | nil => simp [popKeys, h, made, landed]
      | cons key keys =>
          have step : calls ({ r with pending := keys }.note
              (.delivered r.current (buffer + BitVec.ofNat 32 count) key)).trace = finished ++
              { call with stored := call.stored ++ [(buffer + BitVec.ofNat 32 count, key)] } ::
                rest := by
            change (calls r.trace).map (Call.update r.current fun call =>
              { call with stored := call.stored ++ [(buffer + BitVec.ofNat 32 count, key)] }) = _
            rw [made, map_update done mine waiting others]
          obtain ⟨counted, pending, accepted, stored⟩ := ih (count + 1) _ _ step mine waiting others
          simp only [popKeys, h]
          refine ⟨?_, pending, accepted, ?_⟩
          · rw [counted]
            simp only [note, List.length_cons]
            omega
          · rw [stored]
            simp [note, landed]

/-- What a round of the read loop starts from: the running task is the reader
whose call is `call`, and the readers of `rest` wait behind it. -/
structure Serving (r : Roster) (finished : List Call) (call : Call) (rest : List Call) :
    Prop where
  user : r.mode = .user
  made : calls r.trace = finished ++ call :: rest
  returned : ∀ c ∈ finished, c.done = true ∧ c.stored.length = c.size
  mine : call.task = r.current
  waiting : call.done = false
  awaiting : List.Forall₂ r.Awaits (r.queue .readers) rest
  untouched : ∀ c ∈ rest, c.stored = []
  aligned : ∀ c ∈ finished ++ call :: rest, c.stored = landed c.buffer 0 c.data
  stream : (finished ++ call :: rest).flatMap Call.data ++ r.pending = accepted r.trace

/-- The calls behind the served one belong to blocked readers. -/
theorem Serving.others {finished rest : List Call} {call : Call}
    (serving : Serving r finished call rest) (out : r.current ∉ r.queue .readers) :
    ∀ c ∈ rest, c.task ≠ r.current := by
  intro c member same
  obtain ⟨index, below, rfl⟩ := List.mem_iff_getElem.mp member
  have parts := List.forall₂_iff_get.mp serving.awaiting
  have below' : index < (r.queue .readers).length := by rw [parts.1]; exact below
  have awaits := parts.2 index below' below
  have task : (rest.get ⟨index, below⟩).task = (r.queue .readers).get ⟨index, below'⟩ := awaits.1
  apply out
  rw [← same]
  change (rest.get ⟨index, below⟩).task ∈ _
  rw [task]
  exact List.get_mem _ _

/-- One round: as much of `size` as there is. -/
theorem Serving.round {finished rest : List Call} {call : Call}
    (serving : Serving r finished call rest) (out : r.current ∉ r.queue .readers)
    (size : Nat) {buffer : DWord}
    (place : buffer = call.buffer + BitVec.ofNat 32 call.stored.length) :
    Serving (r.popKeys size buffer 0).1 finished
        { call with stored := call.stored ++ landed buffer 0 (r.pending.take size) } rest ∧
      (r.popKeys size buffer 0).2 = min size r.pending.length ∧
      (r.popKeys size buffer 0).1.pending = r.pending.drop size := by
  obtain ⟨pendingOf, traceOf, shape, _⟩ := popKeys_shape size buffer 0 r
  obtain ⟨counted, pending, accepted, made⟩ := popKeys_serves
    (fun c member => (serving.returned c member).1) size buffer 0 r call serving.made serving.mine
    serving.waiting (serving.others out)
  refine ⟨⟨?_, made, serving.returned, ?_, serving.waiting, ?_, serving.untouched, ?_, ?_⟩,
    by rw [counted, Nat.zero_add], pending⟩
  · rw [shape]
    exact serving.user
  · rw [shape]
    exact serving.mine
  · rw [shape]
    exact serving.awaiting
  · intro c member
    rw [List.mem_append, List.mem_cons] at member
    rcases member with member | rfl | member
    · exact serving.aligned c (by simp [member])
    · have before := serving.aligned call (by simp)
      have data : call.data.length = call.stored.length := by simp [Call.data]
      have split : ({ call with
          stored := call.stored ++ landed buffer 0 (r.pending.take size) } : Call).data =
          call.data ++ r.pending.take size := by
        simp [Call.data, landed_data]
      rw [split, landed_append, ← before, place, landed_shift, data]
      simp
    · exact serving.aligned c (by simp [member])
  · have silent : rest.flatMap Call.data = [] := by
      rw [List.flatMap_eq_nil_iff]
      intro c member
      rw [Call.data, serving.untouched c member]
      rfl
    have stream := serving.stream
    rw [accepted, pending, ← stream]
    simp only [List.flatMap_append, List.flatMap_cons, silent, List.append_nil, Call.data,
      List.map_append, landed_data, List.append_assoc, List.take_append_drop]

/-- The readers once the running task has joined them. -/
theorem block_openReaders {first : Bool} {saved : Resume}
    (park : ParkSound ((r.place r.current .readers first).save saved)) :
    ((r.place r.current .readers first).schedNext saved).openReaders =
      if first then r.current :: r.queue .readers else r.queue .readers ++ [r.current] := by
  have inactive : ¬ ((r.place r.current .readers first).schedNext saved).Active := by
    rintro ⟨_, reading⟩
    rw [schedNext_current, schedNext_reading park] at reading
    cases reading
  rw [openReaders, if_neg inactive, schedNext_queue, Function.update_of_ne (by simp)]
  simp [place, setQueue, setState, setTask]

/-- A blocked reader still awaits its call. -/
theorem awaits_block {first : Bool} {saved : Resume} {rest : List Call}
    (out : r.current ∉ r.queue .readers)
    (awaiting : List.Forall₂ r.Awaits (r.queue .readers) rest) :
    List.Forall₂ ((r.place r.current .readers first).schedNext saved).Awaits
      (r.queue .readers) rest := by
  have parts := List.forall₂_iff_zip.mp awaiting
  refine List.forall₂_iff_zip.mpr ⟨parts.1, ?_⟩
  intro t call member
  obtain ⟨mine, waiting, serves⟩ := parts.2 member
  have different : t ≠ r.current := by
    rintro rfl
    exact out (List.of_mem_zip member).1
  refine ⟨mine, waiting, ?_⟩
  rw [schedNext_resume, place_current, if_neg different, place_resume]
  exact serves

theorem block_resume {first : Bool} {saved : Resume} :
    (((r.place r.current .readers first).schedNext saved).task r.current).resume = saved := by
  rw [schedNext_resume, place_current, if_pos rfl]

/-- After a round the reader returns if it has got everything, and otherwise
blocks again in front of the other readers. -/
theorem Serving.readLoop {finished rest : List Call} {call : Call}
    (serving : Serving r finished call rest) (out : r.current ∉ r.queue .readers)
    (bounded : r.pending.length < keyboardBufferSize) {buffer : DWord} {totalSize size : Int}
    (start : call.buffer = buffer) (length : call.size = totalSize.toNat)
    (left : call.stored.length + size.toNat = totalSize.toNat)
    (park : 0 < size →
      ParkSound ((r.place r.current .readers true).save (.readLoop buffer totalSize size))) :
    ReadSound (r.readLoop buffer totalSize size) := by
  rw [Roster.readLoop]
  split
  · rename_i positive
    refine ⟨bounded, finished, call :: rest, serving.made, serving.returned, ?_,
      serving.untouched, serving.aligned, serving.stream⟩
    rw [block_openReaders (park positive), if_pos rfl]
    refine .cons ⟨serving.mine, serving.waiting, ?_⟩ (awaits_block out serving.awaiting)
    rw [block_resume]
    exact ⟨start, length, left⟩
  · rename_i finishes
    have made : calls (r.note (.readDone r.current)).trace =
        (finished ++ [{ call with done := true }]) ++ rest := by
      change (calls r.trace).map (Call.update r.current fun call => { call with done := true }) = _
      rw [serving.made, map_update (fun c member => (serving.returned c member).1) serving.mine
        serving.waiting (serving.others out), List.append_assoc, List.singleton_append]
    refine ⟨bounded, finished ++ [{ call with done := true }], rest, made, ?_, ?_, ?_, ?_, ?_⟩
    · intro c member
      rw [List.mem_append, List.mem_singleton] at member
      rcases member with member | rfl
      · exact serving.returned c member
      · refine ⟨rfl, ?_⟩
        change call.stored.length = call.size
        omega
    · rw [openReaders_user (show (r.note _).mode = .user from serving.user)]
      exact serving.awaiting
    · intro c member
      exact serving.untouched c (List.mem_of_mem_tail member)
    · intro c member
      simp only [List.mem_append, List.mem_singleton] at member
      rcases member with (member | rfl) | member
      · exact serving.aligned c (by simp [member])
      · exact serving.aligned call (by simp)
      · exact serving.aligned c (by simp [member])
    · have stream := serving.stream
      simp only [List.flatMap_append, List.flatMap_cons, List.flatMap_nil, List.append_nil,
        List.append_assoc] at stream ⊢
      exact stream

/-- A round of the loop and what follows it. -/
theorem Serving.serve {finished rest : List Call} {call : Call}
    (serving : Serving r finished call rest) (out : r.current ∉ r.queue .readers)
    (bounded : r.pending.length < keyboardBufferSize) {start buffer : DWord}
    {totalSize size : Int} (place : start = buffer + BitVec.ofNat 32 call.stored.length)
    (own : call.buffer = buffer) (length : call.size = totalSize.toNat)
    (left : call.stored.length + size.toNat = totalSize.toNat)
    (park : ∀ s : Roster, s = (r.popKeys size.toNat start 0).1 → ∀ count : Nat,
      0 < size - count → ParkSound ((s.place s.current .readers true).save
        (.readLoop buffer totalSize (size - count)))) :
    ReadSound ((r.popKeys size.toNat start 0).1.readLoop buffer totalSize
      (size - (r.popKeys size.toNat start 0).2)) := by
  obtain ⟨pendingOf, traceOf, shape, _⟩ := popKeys_shape size.toNat start 0 r
  obtain ⟨after, counted, pending⟩ := serving.round out size.toNat (own ▸ place)
  refine after.readLoop ?_ ?_ own length ?_ (park _ rfl _)
  · rw [shape]
    exact out
  · rw [pending, List.length_drop]
    omega
  · simp only [List.length_append]
    have landedLength : (landed start 0 (r.pending.take size.toNat)).length =
        min size.toNat r.pending.length := by
      rw [← List.length_map (f := Prod.snd), landed_data, List.length_take]
    rw [counted, landedLength]
    omega

/-- The woken reader goes on with its call, the first that has not returned. -/
theorem ReadSound.serving (sound : ReadSound r) (active : r.Active) :
    ∃ finished call rest, Serving { r with mode := .user } finished call rest ∧
      Serves (r.task r.current).resume call := by
  obtain ⟨finished, opened, served⟩ := sound.served
  have awaiting := served.awaiting
  rw [openReaders, if_pos active] at awaiting
  cases awaiting with
  | @cons _ call _ rest first others =>
      refine ⟨finished, call, rest, ⟨rfl, served.made, served.returned, first.1, first.2.1,
        others, served.untouched, served.aligned, served.stream⟩, first.2.2⟩

/-- A read that finds no other reader starts at once. -/
theorem ReadSound.begin (sound : ReadSound r) (user : r.mode = .user)
    (alone : r.queue .readers = []) (buffer : DWord) (size : Nat) :
    ∃ finished, Serving (r.note (.readCalled r.current buffer size)) finished
      ⟨r.current, buffer, size, [], false⟩ [] := by
  obtain ⟨finished, opened, served⟩ := sound.served
  have awaiting := served.awaiting
  rw [openReaders_user user, alone] at awaiting
  cases awaiting
  have made := served.made
  have aligned := served.aligned
  have stream := served.stream
  rw [List.append_nil] at made aligned stream
  refine ⟨finished, user, ?_, served.returned, rfl, rfl, ?_, by simp, ?_, ?_⟩
  · change calls r.trace ++ [_] = _
    rw [made]
  · change List.Forall₂ _ (r.queue .readers) []
    rw [alone]
    exact .nil
  · intro c member
    rw [List.mem_append, List.mem_singleton] at member
    rcases member with member | rfl
    · exact aligned c member
    · rfl
  · change _ ++ r.pending = accepted r.trace
    rw [← stream]
    simp [Call.data]

/-- A read that finds others queues behind them. -/
theorem ReadSound.enqueue (sound : ReadSound r) (user : r.mode = .user)
    (out : r.current ∉ r.queue .readers) (busy : r.queue .readers ≠ []) {buffer : DWord}
    {size : Int} (park : ParkSound (((r.note (.readCalled r.current buffer size.toNat)).place
      r.current .readers false).save (.readFirst buffer size))) :
    ReadSound (((r.note (.readCalled r.current buffer size.toNat)).place r.current .readers
      false).schedNext (.readFirst buffer size)) := by
  obtain ⟨finished, opened, served⟩ := sound.served
  have awaiting := served.awaiting
  rw [openReaders_user user] at awaiting
  have some : opened ≠ [] := by
    rintro rfl
    exact busy (List.forall₂_nil_right_iff.mp awaiting)
  have readers : (((r.note (.readCalled r.current buffer size.toNat)).place r.current .readers
      false).schedNext (.readFirst buffer size)).openReaders = r.queue .readers ++ [r.current] :=
    (@block_openReaders (r.note (.readCalled r.current buffer size.toNat)) false _ park).trans
      rfl
  have resume : ((((r.note (.readCalled r.current buffer size.toNat)).place r.current .readers
      false).schedNext (.readFirst buffer size)).task r.current).resume =
        .readFirst buffer size :=
    @block_resume (r.note (.readCalled r.current buffer size.toNat)) false _
  have awaits : List.Forall₂ (((r.note (.readCalled r.current buffer size.toNat)).place r.current
      .readers false).schedNext (.readFirst buffer size)).Awaits (r.queue .readers) opened :=
    @awaits_block (r.note (.readCalled r.current buffer size.toNat)) false _ opened out awaiting
  refine ⟨sound.bounded, finished, opened ++ [⟨r.current, buffer, size.toNat, [], false⟩],
    ?_, served.returned, ?_, ?_, ?_, ?_⟩
  · change calls r.trace ++ [_] = _
    rw [served.made, List.append_assoc]
  · rw [readers]
    refine List.rel_append awaits (.cons ⟨rfl, rfl, ?_⟩ .nil)
    rw [resume]
    exact ⟨rfl, rfl, rfl⟩
  · obtain ⟨first, others, shape⟩ := List.exists_cons_of_ne_nil some
    have untouched := served.untouched
    rw [shape, List.tail_cons] at untouched
    rw [shape, List.cons_append, List.tail_cons]
    intro c member
    rw [List.mem_append, List.mem_singleton] at member
    rcases member with member | rfl
    · exact untouched c member
    · rfl
  · intro c member
    rw [← List.append_assoc, List.mem_append, List.mem_singleton] at member
    rcases member with member | rfl
    · exact served.aligned c member
    · rfl
  · change _ ++ r.pending = accepted r.trace
    rw [← served.stream]
    simp [Call.data]

/-! ### Room in the ring -/

/-- The ring has room while a reader waits, and every reader wants something. -/
structure RoomSound (r : Roster) : Prop where
  hungry : ∀ t ∈ r.openReaders, 1 ≤ (r.task t).resume.wanted
  room : ¬ r.Active → r.queue .readers ≠ [] → r.pending.length + 1 < keyboardBufferSize

theorem RoomSound.unread (sound : RoomSound r) (same : Unread r r') : RoomSound r' := by
  refine ⟨?_, ?_⟩
  · intro t member
    rw [same.openReaders] at member
    rw [same.resume t member]
    exact sound.hungry t member
  · intro inactive busy
    rw [same.active] at inactive
    rw [same.readers] at busy
    rw [same.pending]
    exact sound.room inactive busy

theorem RoomSound.accept {key : Byte} (sound : RoomSound r)
    (room : r.queue .readers = [] ∨ r.pending.length + 2 < keyboardBufferSize) :
    RoomSound (r.accept key) := by
  refine ⟨sound.hungry, ?_⟩
  intro _ busy
  change (r.pending ++ [key]).length + 1 < keyboardBufferSize
  rw [List.length_append, List.length_singleton]
  exact room.resolve_left busy

/-- The woken reader will make room. -/
theorem RoomSound.wake (sound : ∀ t ∈ r.queue .readers, 1 ≤ (r.task t).resume.wanted)
    {rest : List TaskId} (waiting : r.queue .readers = task :: rest)
    (out : r.current ∉ r.queue .readers) (park : ParkSound (r.yield.save .handler)) :
    RoomSound (r.wake task) := by
  have apart : task ≠ r.current := by
    rintro rfl
    exact out (by simp [waiting])
  obtain ⟨active, current, readers⟩ :=
    wake_openReaders apart (yield_readers.trans waiting) park
  refine ⟨?_, fun inactive => absurd active inactive⟩
  intro t member
  rw [openReaders, if_pos active, current, readers, ← waiting] at member
  have different : t ≠ r.current := by
    rintro rfl
    exact out member
  rw [wake_eq apart, run_resume, take_task, save_resume, yield_current, if_neg different,
    yield_resume]
  exact sound t member

/-- The running task joins the readers, wanting something. -/
theorem RoomSound.block {first : Bool} {saved : Resume}
    (park : ParkSound ((r.place r.current .readers first).save saved))
    (hungry : ∀ t ∈ r.queue .readers, 1 ≤ (r.task t).resume.wanted) (wants : 1 ≤ saved.wanted)
    (room : r.pending.length + 1 < keyboardBufferSize) :
    RoomSound ((r.place r.current .readers first).schedNext saved) := by
  refine ⟨?_, fun _ _ => room⟩
  intro t member
  rw [block_openReaders park] at member
  rw [schedNext_resume, place_current]
  by_cases same : t = r.current
  · rw [if_pos same]
    exact wants
  · rw [if_neg same, place_resume]
    apply hungry
    split at member
    · exact (List.mem_cons.mp member).resolve_left same
    · rw [List.mem_append, List.mem_singleton] at member
      exact member.resolve_right same

/-- A reader that wants something, or that nobody waits behind, leaves room. -/
theorem RoomSound.serve {start buffer : DWord} {totalSize size : Int} (user : r.mode = .user)
    (hungry : ∀ t ∈ r.queue .readers, 1 ≤ (r.task t).resume.wanted)
    (bounded : r.pending.length < keyboardBufferSize) (counted :
      (r.popKeys size.toNat start 0).2 = min size.toNat r.pending.length)
    (pending : (r.popKeys size.toNat start 0).1.pending = r.pending.drop size.toNat)
    (wants : 1 ≤ size ∨ r.queue .readers = [])
    (park : ∀ s : Roster, s = (r.popKeys size.toNat start 0).1 → ∀ count : Nat,
      0 < size - count → ParkSound ((s.place s.current .readers true).save
        (.readLoop buffer totalSize (size - count)))) :
    RoomSound ((r.popKeys size.toNat start 0).1.readLoop buffer totalSize
      (size - (r.popKeys size.toNat start 0).2)) := by
  obtain ⟨pendingOf, traceOf, shape, _⟩ := popKeys_shape size.toNat start 0 r
  rw [Roster.readLoop]
  split
  · rename_i positive
    refine RoomSound.block (park _ rfl _ positive) ?_ ?_ ?_
    · rw [shape]
      exact hungry
    · exact positive
    · have capacity : keyboardBufferSize = 10 := rfl
      rw [pending, List.length_drop]
      omega
  · have user' : ((r.popKeys size.toNat start 0).1.note
        (.readDone (r.popKeys size.toNat start 0).1.current)).mode = .user := by
      rw [shape]
      exact user
    refine ⟨?_, ?_⟩
    · rw [openReaders_user user', shape]
      exact hungry
    · intro _ busy
      have waiting : r.queue .readers ≠ [] := by
        rw [shape] at busy
        exact busy
      have positive := wants.resolve_right waiting
      change (r.popKeys size.toNat start 0).1.pending.length + 1 < keyboardBufferSize
      rw [pending, List.length_drop]
      omega

end Roster

end Zeos
