import Zeos.Mm

set_option autoImplicit false

/-! What the operations of `mm.c` read and write: entries, frames and their counts. -/

namespace Zeos

namespace Mm

variable {m : Mm} {dir dir' : DirId} {page page' frame frame' : Nat} {entry : PageTableEntry}

/-! ### Table entries -/

theorem getEntry_setEntry : (m.setEntry dir page entry).getEntry dir' page' =
    if dir' = dir ∧ page' = page then entry else m.getEntry dir' page' := by
  simp only [getEntry, setEntry, Function.update_apply]
  by_cases same : dir' = dir
  · subst same
    simp only [↓reduceIte, Function.update_apply, true_and]
  · simp only [same, ↓reduceIte, false_and]

@[simp] theorem physMem_setEntry : (m.setEntry dir page entry).physMem = m.physMem := rfl

@[simp] theorem cowCountMem_setEntry :
    (m.setEntry dir page entry).cowCountMem = m.cowCountMem := rfl

@[simp] theorem ram_setEntry : (m.setEntry dir page entry).ram = m.ram := rfl

@[simp] theorem cr3_setEntry : (m.setEntry dir page entry).cr3 = m.cr3 := rfl

@[simp] theorem cr0_setEntry : (m.setEntry dir page entry).cr0 = m.cr0 := rfl

@[simp] theorem cr3_setCr3 {d : Option DirId} : (m.setCr3 d).cr3 = d := rfl

@[simp] theorem cr0_setCr3 {d : Option DirId} : (m.setCr3 d).cr0 = m.cr0 := rfl

@[simp] theorem getEntry_setCr3 {d : Option DirId} : (m.setCr3 d).getEntry = m.getEntry := rfl

@[simp] theorem physMem_setCr3 {d : Option DirId} : (m.setCr3 d).physMem = m.physMem := rfl

@[simp] theorem cowCountMem_setCr3 {d : Option DirId} :
    (m.setCr3 d).cowCountMem = m.cowCountMem := rfl

@[simp] theorem ram_setCr3 {d : Option DirId} : (m.setCr3 d).ram = m.ram := rfl

@[simp] theorem getEntry_fault : (m.fault page).getEntry = m.getEntry := rfl

@[simp] theorem physMem_fault : (m.fault page).physMem = m.physMem := rfl

@[simp] theorem cowCountMem_fault : (m.fault page).cowCountMem = m.cowCountMem := rfl

@[simp] theorem ram_fault : (m.fault page).ram = m.ram := rfl

/-! ### Frames -/

@[simp] theorem getEntry_setCow {count : Byte} : (m.setCow frame count).getEntry = m.getEntry := rfl

@[simp] theorem physMem_setCow {count : Byte} : (m.setCow frame count).physMem = m.physMem := rfl

@[simp] theorem ram_setCow {count : Byte} : (m.setCow frame count).ram = m.ram := rfl

theorem cowCountMem_setCow {count : Byte} : (m.setCow frame count).cowCountMem frame' =
    if frame' = frame then count else m.cowCountMem frame' :=
  Function.update_apply ..

@[simp] theorem getEntry_setPhys {mark : Byte} : (m.setPhys frame mark).getEntry = m.getEntry := rfl

@[simp] theorem cowCountMem_setPhys {mark : Byte} :
    (m.setPhys frame mark).cowCountMem = m.cowCountMem := rfl

@[simp] theorem ram_setPhys {mark : Byte} : (m.setPhys frame mark).ram = m.ram := rfl

theorem physMem_setPhys {mark : Byte} : (m.setPhys frame mark).physMem frame' =
    if frame' = frame then mark else m.physMem frame' :=
  Function.update_apply ..

/-- The frames `alloc_frame` can hand out, in its order. -/
def freeFrames (m : Mm) : List Nat := scannedFrames.filter fun i => m.physMem i == FREE_FRAME

theorem mem_freeFrames : frame ∈ m.freeFrames ↔
    frame ∈ scannedFrames ∧ m.physMem frame = FREE_FRAME := by
  simp [freeFrames]

theorem mem_scannedFrames : frame ∈ scannedFrames ↔
    numPagKernel ≤ frame ∧ frame < totalPages ∧ frame % 2 = 0 := by
  simp only [scannedFrames, List.mem_map, List.mem_range, totalPages, numPagKernel]
  constructor
  · intro listed
    obtain ⟨i, below, same⟩ := listed
    omega
  · intro bounds
    exact ⟨(frame - 256) / 2, by omega, by omega⟩

theorem scannedFrames_nodup : scannedFrames.Nodup := by
  apply List.Nodup.map _ List.nodup_range
  intro i j same
  simp only at same
  omega

theorem freeFrames_nodup : m.freeFrames.Nodup := scannedFrames_nodup.filter _

/-- A frame marked used, with count 0. -/
def take (m : Mm) (frame : Nat) : Mm := (m.setPhys frame USED_FRAME).setCow frame 0

/-- `alloc_frame` takes the first free frame. -/
theorem allocFrame_eq (m : Mm) : m.allocFrame =
    match m.freeFrames with
    | [] => (m, none)
    | frame :: _ => (m.take frame, some frame) := by
  have first : scannedFrames.find? (fun i => m.physMem i == FREE_FRAME) = m.freeFrames.head? := by
    rw [freeFrames, List.head?_filter]
  unfold allocFrame
  rw [first]
  cases m.freeFrames with
  | nil => rfl
  | cons frame rest => rfl

theorem physMem_take : (m.take frame).physMem frame' =
    if frame' = frame then USED_FRAME else m.physMem frame' :=
  physMem_setPhys

theorem cowCountMem_take : (m.take frame).cowCountMem frame' =
    if frame' = frame then 0 else m.cowCountMem frame' :=
  cowCountMem_setCow

@[simp] theorem getEntry_take : (m.take frame).getEntry = m.getEntry := rfl

@[simp] theorem ram_take : (m.take frame).ram = m.ram := rfl

theorem freeFrames_take {rest : List Nat} (free : m.freeFrames = frame :: rest) :
    (m.take frame).freeFrames = rest := by
  have distinct : (frame :: rest).Nodup := free ▸ freeFrames_nodup
  have same : (m.take frame).freeFrames = m.freeFrames.filter fun i => i != frame := by
    rw [freeFrames, freeFrames, List.filter_filter]
    apply List.filter_congr
    intro i _
    rw [physMem_take]
    by_cases own : i = frame
    · simp [own]
    · simp [own]
  rw [same, free, List.filter_cons_of_neg (by simp)]
  apply List.filter_eq_self.mpr
  intro i member
  have different : i ≠ frame := by
    rintro rfl
    exact (List.nodup_cons.mp distinct).1 member
  simpa using different

/-! ### Releasing -/

/-- The count `free_frame` leaves. -/
theorem cowCountMem_freeFrame : (m.freeFrame frame).cowCountMem frame' =
    if frame' = frame ∧ numPagKernel < frame ∧ frame < totalPages then m.cowCountMem frame - 1
    else m.cowCountMem frame' := by
  unfold freeFrame
  by_cases counted : frame > numPagKernel ∧ frame < totalPages
  · simp only [counted, and_self, ↓reduceIte]
    split
    · rw [cowCountMem_setPhys, cowCountMem_setCow]
      simp
    · rw [cowCountMem_setCow]
      simp
  · have out : ¬ (frame' = frame ∧ numPagKernel < frame ∧ frame < totalPages) :=
      fun both => counted both.2
    rw [if_neg counted, if_neg out]
    dsimp only
    split <;> rfl

theorem physMem_freeFrame : (m.freeFrame frame).physMem frame' =
    if frame' = frame ∧ ((m.freeFrame frame).cowCountMem frame).toInt ≤ 0 then FREE_FRAME
    else m.physMem frame' := by
  unfold freeFrame
  dsimp only
  generalize counted : (if frame > numPagKernel ∧ frame < totalPages then
    m.setCow frame (m.cowCountMem frame - 1) else m) = m'
  have same : m'.physMem = m.physMem := by
    rw [← counted]
    split <;> rfl
  by_cases last : (m'.cowCountMem frame).toInt ≤ 0
  · rw [if_pos last, physMem_setPhys, same]
    simp [last]
  · rw [if_neg last, same]
    simp [last]

@[simp] theorem getEntry_freeFrame : (m.freeFrame frame).getEntry = m.getEntry := by
  unfold freeFrame
  dsimp only
  split <;> split <;> rfl

@[simp] theorem ram_freeFrame : (m.freeFrame frame).ram = m.ram := by
  unfold freeFrame
  dsimp only
  split <;> split <;> rfl

end Mm

end Zeos
