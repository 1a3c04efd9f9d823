import Mathlib.Logic.Relation
import Zeos.Boot
import Zeos.Heap

set_option autoImplicit false

/-! The address spaces of the machine, and what one step of the kernel does to them: at
most one change of the tables, then stores, faults and task switches. -/

namespace Zeos

/-- Memory with its tables, the directory and the top of the heap of each task, and the
stores of the kernel so far. -/
structure Space where
  mm : Mm
  heapTop : TaskId → DWord
  dir : TaskId → Option DirId
  current : TaskId
  idle : TaskId
  stores : List (TaskId × DWord)

def Kernel.space (k : Kernel) : Space where
  mm := k.mm
  heapTop t := (k.tasks t).heapTop
  dir t := (k.tasks t).dirPagesBaseAddr
  current := k.current
  idle := k.idleTask
  stores := k.stores

namespace Space

def pages (s : Space) (task : TaskId) : Nat := heapPages (s.heapTop task)

def runningPages (s : Space) : Nat := s.pages s.current

/-! ### Small changes -/

def turn (s : Space) (next : TaskId) : Space :=
  { s with
    mm := if s.dir s.current ≠ s.dir next then s.mm.setCr3 (s.dir next) else s.mm
    current := next }

def store (s : Space) (addr : DWord) (value : Byte) : Space :=
  { s with mm := s.mm.poke addr.toNat value, stores := (s.current, addr) :: s.stores }

/-- The kernel tries to store a byte, and stores none. -/
def attempt (s : Space) (addr : DWord) : Space :=
  { s with stores := (s.current, addr) :: s.stores }

def miss (s : Space) (page : Nat) : Space := { s with mm := s.mm.fault page }

def write (s : Space) (addr : DWord) (value : Byte) : Space :=
  { s with mm := s.mm.poke addr.toNat value }

/-- What happens to the address spaces but for the tables. -/
inductive Minor : Space → Space → Prop where
  | turn {s : Space} (next : TaskId) : Minor s (s.turn next)
  | store {s : Space} (addr : DWord) (value : Byte) :
      (s.mm.mapped (addr.toNat / pageSize)).present = true → Minor s (s.store addr value)
  | attempt {s : Space} (addr : DWord) : Minor s (s.attempt addr)
  | miss {s : Space} (page : Nat) : Minor s (s.miss page)
  | write {s : Space} (addr : DWord) (value : Byte) :
      s.mm.userWritable (addr.toNat / pageSize) = true → Minor s (s.write addr value)

abbrev Minors : Space → Space → Prop := Relation.ReflTransGen Minor

/-! ### Changes of the tables -/

/-- `sys_fork` of the running task, whose directory is `home`. -/
def fork (s : Space) (home : DirId) (child : TaskId) (dir : DirId) : Space :=
  { s with
    mm := (Kernel.sharePages (Kernel.copyCodePages s.mm home dir) home dir
      s.runningPages).setCr3 (some home)
    heapTop := Function.update s.heapTop child (s.heapTop s.current)
    dir := Function.update s.dir child (some dir) }

def join (s : Space) (child : TaskId) (home : DirId) : Space :=
  { s with
    heapTop := Function.update s.heapTop child (BitVec.ofNat 32 heapStart)
    dir := Function.update s.dir child (some home) }

/-- The running task exits, and others go on in its directory. -/
def leave (s : Space) : Space := { s with dir := Function.update s.dir s.current none }

def release (s : Space) (home : DirId) : Space :=
  { s with
    mm := s.mm.freeUserPages home (s.heapTop s.current)
    dir := Function.update s.dir s.current none }

def withHeap (s : Space) (m : Mm) (top : DWord) : Space :=
  { s with mm := m, heapTop := Function.update s.heapTop s.current top }

/-- `sys_sbrk` maps pages from below the heap on to `frames`. -/
def grow (s : Space) (home : DirId) (top : DWord) (m : Mm) (frames : List Nat) : Space :=
  s.withHeap (Loop.upTo (heapPages top - s.runningPages) (fun i m =>
    m.setSsPag home (pagLogInitHeap - s.runningPages - i) (frames.getD i 0)) m) top

def shrink (s : Space) (home : DirId) (top : DWord) : Space :=
  s.withHeap ((Loop.upTo (s.runningPages - heapPages top) (fun i m =>
    (m.freeFrame (m.getFrame home (pagLogInitHeap - heapPages top - i))).delSsPag home
      (pagLogInitHeap - heapPages top - i)) s.mm).setCr3 (some home)) top

def frame (s : Space) (home : DirId) (page : Nat) : Nat := s.mm.getFrame home page

/-- `pf_rsi` on the only reference to a frame. -/
def own (s : Space) (home : DirId) (page : Nat) : Space :=
  { s with
    mm := ((s.mm.fault page).setCow (s.frame home page) 0).setSsPag home page
      (s.frame home page) }

/-- The memory once `pf_rsi` has given up a reference to the frame of a page. -/
def released (s : Space) (home : DirId) (page : Nat) : Mm :=
  (s.mm.fault page).setCow (s.frame home page) (s.mm.cowCountMem (s.frame home page) - 1)

/-- `pf_rsi` on a frame with more references. -/
def split (s : Space) (home : DirId) (page frame : Nat) : Space :=
  { s with
    mm := (((s.released home page).take frame).copyFrame home page frame).setSsPag home page
      frame }

/-- The pages that `access_ok` lets the running task fault on: one more than its data
pages and one more than its heap pages. -/
def Reach (s : Space) (page : Nat) : Prop :=
  (pagLogInitCode ≤ page ∧ page ≤ pagLogInitData + numPagData) ∨
    (pagLogInitHeap ≤ page + s.runningPages ∧ page ≤ pagLogInitHeap)

/-- A change of the tables, by the action that makes it. -/
inductive Major : Option Action → Space → Space → Prop where
  | fork {s : Space} (home : DirId) (child : TaskId) (dir : DirId) : s.current ≠ s.idle →
      s.dir s.current = some home → s.dir child = none → (∀ t, s.dir t ≠ some dir) →
      Major (some (.call .fork)) s (s.fork home child dir)
  | join {s : Space} (function stack exitFunc : DWord) (child : TaskId) (home : DirId) :
      s.current ≠ s.idle → s.dir s.current = some home → s.dir child = none →
      Major (some (.call (.clone function stack exitFunc))) s (s.join child home)
  | leave {s : Space} (home : DirId) (other : TaskId) : s.current ≠ s.idle →
      s.dir s.current = some home → other ≠ s.current → s.dir other = some home →
      Major (some (.call .exit)) s s.leave
  | release {s : Space} (home : DirId) : s.current ≠ s.idle → s.dir s.current = some home →
      (∀ t, s.dir t = some home → t = s.current) → Major (some (.call .exit)) s (s.release home)
  | refused {s : Space} (increment : DWord) (count : Nat) (m : Mm) :
      Kernel.reserveFrames count s.mm [] = (m, none) →
      Major (some (.call (.sbrk increment))) s { s with mm := m }
  | grow {s : Space} (increment : DWord) (home : DirId) (top : DWord) (m : Mm)
      (frames : List Nat) : s.current ≠ s.idle → s.dir s.current = some home →
      top.toNat ≤ heapStart → s.runningPages < heapPages top →
      (∀ i, s.runningPages ≤ i → i < heapPages top →
        (s.mm.getEntry home (pagLogInitHeap - i)).present = false) →
      Kernel.reserveFrames (heapPages top - s.runningPages) s.mm [] = (m, some frames) →
      Major (some (.call (.sbrk increment))) s (s.grow home top m frames)
  | shrink {s : Space} (increment : DWord) (home : DirId) (top : DWord) : s.current ≠ s.idle →
      s.dir s.current = some home → top.toNat ≤ heapStart → heapPages top ≤ s.runningPages →
      Major (some (.call (.sbrk increment))) s (s.shrink home top)
  | own {s : Space} (addr : DWord) (value : Byte) (home : DirId) : s.current ≠ s.idle →
      s.dir s.current = some home → s.Reach (addr.toNat / pageSize) →
      s.mm.userWritable (addr.toNat / pageSize) = false →
      s.mm.cowCountMem (s.frame home (addr.toNat / pageSize)) = 1 →
      Major (some (.store addr value)) s (s.own home (addr.toNat / pageSize))
  | split {s : Space} (addr : DWord) (value : Byte) (home : DirId) (frame : Nat) :
      s.current ≠ s.idle → s.dir s.current = some home → s.Reach (addr.toNat / pageSize) →
      s.mm.userWritable (addr.toNat / pageSize) = false →
      2 ≤ s.mm.cowCountMem (s.frame home (addr.toNat / pageSize)) →
      (s.released home (addr.toNat / pageSize)).allocFrame =
        ((s.released home (addr.toNat / pageSize)).take frame, some frame) →
      Major (some (.store addr value)) s (s.split home (addr.toNat / pageSize) frame)

/-- What a step of the kernel does to the address spaces, unless `pf_rsi` finds no frame. -/
inductive Step : Option Action → Space → Space → Prop where
  | minor {label : Option Action} {s s' : Space} : Minors s s' → Step label s s'
  | major {label : Option Action} {s middle s' : Space} : Major label s middle →
      Minors middle s' → Step label s s'

end Space

end Zeos
