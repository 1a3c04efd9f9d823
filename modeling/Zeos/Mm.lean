import Zeos.Copy
import Zeos.List
import Zeos.Loop

set_option autoImplicit false

/-! `mm.c`: frames, page tables and page directories. -/

namespace Zeos

abbrev FREE_FRAME : Byte := 0
abbrev USED_FRAME : Byte := 1

/-- `get_heap_page_size`: the heap grows down from `HEAP_START`, which is its
last byte. -/
def getHeapPageSize (heapTop : DWord) : Int :=
  ((heapStart : Int) - (heapTop.toInt + 1) + pageSize).tdiv pageSize

namespace Mm

def getEntry (m : Mm) (dir : DirId) (page : Nat) : PageTableEntry := m.pagusrTable dir page

def setEntry (m : Mm) (dir : DirId) (page : Nat) (entry : PageTableEntry) : Mm :=
  { m with
    pagusrTable :=
      Function.update m.pagusrTable dir (Function.update (m.pagusrTable dir) page entry)
    log := .entry dir page entry :: m.log }

def setCr3 (m : Mm) (dir : Option DirId) : Mm := { m with cr3 := dir, log := .cr3 dir :: m.log }

/-- The processor faults on a page. -/
def fault (m : Mm) (page : Nat) : Mm := { m with log := .fault page :: m.log }

def getFrame (m : Mm) (dir : DirId) (page : Nat) : Nat := (m.getEntry dir page).pbaseAddr

def isSsPagFree (m : Mm) (dir : DirId) (page : Nat) : Bool := !(m.getEntry dir page).present

def setSsPag (m : Mm) (dir : DirId) (page frame : Nat) : Mm :=
  m.setEntry dir page ⟨true, true, true, frame⟩

def setRoPage (m : Mm) (dir : DirId) (page : Nat) : Mm :=
  m.setEntry dir page { m.getEntry dir page with rw := false }

def delSsPag (m : Mm) (dir : DirId) (page : Nat) : Mm := m.setEntry dir page noEntry

def setCow (m : Mm) (frame : Nat) (count : Byte) : Mm :=
  { m with cowCountMem := Function.update m.cowCountMem frame count }

def setPhys (m : Mm) (frame : Nat) (mark : Byte) : Mm :=
  { m with physMem := Function.update m.physMem frame mark }

/-- The frames `alloc_frame` looks at, in order: every second one. -/
def scannedFrames : List Nat :=
  (List.range ((totalPages - numPagKernel) / 2)).map fun i => numPagKernel + 2 * i

/-- `alloc_frame`; `none` is the result `-1`. -/
def allocFrame (m : Mm) : Mm × Option Nat :=
  match scannedFrames.find? fun i => m.physMem i == FREE_FRAME with
  | some i => ((m.setPhys i USED_FRAME).setCow i 0, some i)
  | none => (m, none)

/-- `free_frame`. Only the decrement is guarded by the range test; the second
`if` stands outside it. -/
def freeFrame (m : Mm) (frame : Nat) : Mm :=
  let m := if frame > numPagKernel ∧ frame < totalPages then
      m.setCow frame (m.cowCountMem frame - 1) else m
  if (m.cowCountMem frame).toInt ≤ 0 then m.setPhys frame FREE_FRAME else m

def shareCowPage (m : Mm) (source dest : DirId) (page : Nat) : Mm :=
  let frame := m.getFrame source page
  let m := m.setCow frame (m.cowCountMem frame + 1)
  let m := if m.cowCountMem frame = 1 then m.setCow frame (m.cowCountMem frame + 1) else m
  let m := m.setSsPag dest page frame
  let m := m.setRoPage source page
  m.setRoPage dest page

/-- `free_user_pages`. In the heap loop the frame of page `HEAP - pag` is freed,
and entry `HEAP + pag` is cleared. -/
def freeUserPages (m : Mm) (dir : DirId) (heapTop : DWord) : Mm :=
  let m := Loop.upTo numPagData (fun pag m =>
    let m := m.freeFrame (m.getEntry dir (pagLogInitData + pag)).pbaseAddr
    m.setEntry dir (pagLogInitData + pag) noEntry) m
  Loop.upTo (getHeapPageSize heapTop).toNat (fun pag m =>
    let m := m.freeFrame (m.getEntry dir (pagLogInitHeap - pag)).pbaseAddr
    m.setEntry dir (pagLogInitHeap + pag) noEntry) m

/-- The entry the processor finds for a page; the other entries of a directory
are empty, so no page from `TOTAL_PAGES` on is mapped. -/
def mapped (m : Mm) (page : Nat) : PageTableEntry :=
  match m.cr3 with
  | some dir => if page < totalPages then m.getEntry dir page else noEntry
  | none => noEntry

/-- The byte at a linear address, and a store to it. -/
def peek (m : Mm) (addr : Nat) : Byte :=
  m.ram (m.mapped (addr / pageSize)).pbaseAddr (addr % pageSize)

def poke (m : Mm) (addr : Nat) (value : Byte) : Mm :=
  let frame := (m.mapped (addr / pageSize)).pbaseAddr
  { m with ram :=
      Function.update m.ram frame (Function.update (m.ram frame) (addr % pageSize) value) }

def writeProtect (m : Mm) : Bool := m.cr0.getLsbD 16

/-- May ring 0 write here? Without `CR0.WP` the `rw` bit does not matter. -/
def kernelWritable (m : Mm) (page : Nat) : Bool :=
  (m.mapped page).present && ((m.mapped page).rw || !m.writeProtect)

def userReadable (m : Mm) (page : Nat) : Bool :=
  (m.mapped page).present && (m.mapped page).user

def userWritable (m : Mm) (page : Nat) : Bool :=
  (m.mapped page).present && (m.mapped page).user && (m.mapped page).rw

/-- `copy_frame`; `dir` is the directory of `current()`. -/
def copyFrame (m : Mm) (dir : DirId) (page frame : Nat) : Mm :=
  let m := m.setSsPag dir (pagLogInitHeap + 1) frame
  let m := copyData peek poke pageSize (page * pageSize) ((pagLogInitHeap + 1) * pageSize) m
  let m := m.delSsPag dir (pagLogInitHeap + 1)
  m.setCr3 (some dir)

/-- `set_user_pages`. -/
def setUserPages (m : Mm) (dir : DirId) : Mm :=
  let m := Loop.upTo numPagCode (fun pag m =>
    let (m, newPhPag) := m.allocFrame
    m.setEntry dir (pagLogInitCode + pag) ⟨true, false, true, newPhPag.getD (2 ^ 20 - 1)⟩) m
  Loop.upTo numPagData (fun pag m =>
    let (m, newPhPag) := m.allocFrame
    m.setEntry dir (pagLogInitData + pag) ⟨true, true, true, newPhPag.getD (2 ^ 20 - 1)⟩) m

/-- `init_table_pages`; the linker places the two guard pages. -/
def initTablePages (m : Mm) (guardBefore guardAfter : Nat) : Mm :=
  { m with pagusrTable := fun _ page =>
      if 1 ≤ page ∧ page < numPagKernel then
        ⟨!(page == guardBefore || page == guardAfter), true, false, page⟩
      else noEntry }

/-- `init_frames`. -/
def initFrames (m : Mm) : Mm :=
  { m with
    physMem := fun i => if i < numPagKernel then USED_FRAME else
      if i < totalPages then FREE_FRAME else m.physMem i
    cowCountMem := fun i => if i < numPagKernel then 0 else m.cowCountMem i }

/-- `set_pe_flag`. -/
def setPeFlag (m : Mm) : Mm := { m with cr0 := m.cr0 ||| 0x80000000 }

end Mm

namespace Kernel

/-- `get_PT`: table `i` belongs to directory `i` since `init_dir_pages`. A null
directory faults; no live task has one. -/
def getPT (k : Kernel) (task : TaskId) : DirId := (k.tasks task).dirPagesBaseAddr.getD 0

def getDIR (k : Kernel) (task : TaskId) : Option DirId := (k.tasks task).dirPagesBaseAddr

def setDir (k : Kernel) (task : TaskId) (dir : Option DirId) : Kernel :=
  k.setTask task { k.tasks task with dirPagesBaseAddr := dir }

def setDirCount (k : Kernel) (dir : DirId) (count : Int) : Kernel :=
  { k with dirCount := Function.update k.dirCount dir count }

/-- `init_dir_pages`. -/
def initDirPages (k : Kernel) : Kernel :=
  let k := { k with links := initListHead k.links .freeDirs }
  Loop.upTo nrTasks (fun i k =>
    let dir : DirId := Fin.ofNat nrTasks i
    let k := k.setDirCount dir 0
    { k with links := listAdd k.links (.dirAnchor dir) .freeDirs }) k

/-- `init_mm`. -/
def initMm (k : Kernel) (guardBefore guardAfter : Nat) : Kernel :=
  let k := { k with mm := (k.mm.initTablePages guardBefore guardAfter).initFrames }
  let k := k.initDirPages
  { k with mm := (k.mm.setCr3 (some 0)).setPeFlag }

/-- `allocate_DIR`. -/
def allocateDIR (k : Kernel) (task : TaskId) : Kernel × Bool :=
  if listEmpty k.links .freeDirs then (k, false)
  else match listFirst k.links .freeDirs with
    | some (.dirAnchor pos) =>
        let k := { k with links := listDel k.links (.dirAnchor pos) }
        let k := k.setDir task (some pos)
        ((k.setDirCount pos 1).note (.dirOpened pos), true)
    | _ => (k.hang, false)

/-- `reuse_DIR`. -/
def reuseDIR (k : Kernel) (dir : DirId) (task : TaskId) : Kernel :=
  let k := k.setDir task (some dir)
  k.setDirCount dir (k.dirCount dir + 1)

/-- `free_DIR`. -/
def freeDIR (k : Kernel) (task : TaskId) : Kernel :=
  let i := k.getPT task
  let k := k.setDirCount i (k.dirCount i - 1)
  let k := if k.dirCount i = 0 then
      let k := { k with mm := k.mm.freeUserPages i (k.tasks task).heapTop }
      let k := k.note (.dirReleased i)
      { k with links := listAdd k.links (.dirAnchor i) .freeDirs }
    else k
  k.setDir task none

end Kernel

end Zeos
