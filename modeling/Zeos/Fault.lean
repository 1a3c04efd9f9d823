import Zeos.Mm
import Zeos.Stats

set_option autoImplicit false

/-! Checked and unchecked accesses to user memory: `access_ok` of `utils.c`, the
page fault handler `pf_rsi` of `sys.c`, and the loads and stores of ring 0. -/

namespace Zeos

inductive Verify where
  | read | write
  deriving DecidableEq, Repr

namespace Kernel

/-- `sys_write_console` of a message. A stuck machine prints nothing more. -/
def text (k : Kernel) (message : String) : Kernel :=
  { k with console := if k.stuck then k.console
      else k.console ++ message.toList.map fun c => BitVec.ofNat 8 c.toNat }

/-- `access_ok`. The test for writing falls through to the test for reading. -/
def accessOk (k : Kernel) (type : Verify) (addr size : DWord) : Bool :=
  let addrIni := addr.toNat >>> 12
  let addrFin := (addr + size).toNat >>> 12
  if addrFin < addrIni then false
  else
    let numPagHeap := getHeapPageSize k.currentTask.heapTop
    -- The comparison is unsigned.
    let heapLow := (BitVec.ofInt 32 (pagLogInitHeap - numPagHeap)).toNat
    let inHeap := addrIni ≤ pagLogInitHeap ∧ addrIni ≥ heapLow
    if type = .write ∧ ((addrIni ≥ userFirstPage + numPagCode ∧
        addrFin ≤ userFirstPage + numPagCode + numPagData) ∨ inHeap) then true
    else decide ((addrIni ≥ userFirstPage ∧
        addrFin ≤ userFirstPage + numPagCode + numPagData) ∨ inHeap)

/-- `pf_rsi`. -/
def pfRsi (k : Kernel) (address : DWord) : Kernel :=
  if !k.accessOk .write address 1 then (k.text "WRONG ACCESS").hang
  else
    let logPage := address.toNat >>> 12
    let pt := k.getPT k.current
    let frame := k.mm.getFrame pt logPage
    if k.mm.cowCountMem frame = 1 then
      { k with mm := (k.mm.setCow frame 0).setSsPag pt logPage frame }
    else if k.mm.cowCountMem frame ≥ 2 then
      let m := k.mm.setCow frame (k.mm.cowCountMem frame - 1)
      match m.allocFrame with
      | (m, none) => ({ k with mm := m }.text "NOT ENOUGH PHYSICAL MEMORY").hang
      | (m, some frameNew) =>
          { k with mm := (m.copyFrame pt logPage frameNew).setSsPag pt logPage frameNew }
    -- The length given in the source takes in three bytes behind this text.
    else (k.text "KERNEL PANIC").hang

/-- The faulting instruction runs again after the handler; if the access is
still not allowed it faults for ever. -/
def withFault (k : Kernel) (addr : DWord) (allowed : Mm → Bool) : Kernel :=
  if allowed k.mm then k
  else
    let k := { k with mm := k.mm.fault (addr.toNat / pageSize) }
    let k := k.pfRsi addr
    if k.stuck || allowed k.mm then k else k.hang

def storeWith (k : Kernel) (addr : DWord) (value : Byte) (allowed : Mm → Bool) : Kernel :=
  let k := k.withFault addr allowed
  if k.stuck then k else { k with mm := k.mm.poke addr.toNat value }

/-- A store by ring 0 on behalf of the running task. -/
def kernelStore (k : Kernel) (addr : DWord) (value : Byte) : Kernel :=
  let k := { k with stores := (k.current, addr) :: k.stores }
  k.storeWith addr value fun m => m.kernelWritable (addr.toNat / pageSize)

/-- A load by ring 0 on behalf of the running task: the byte's page is made readable. -/
def kernelLoad (k : Kernel) (addr : DWord) : Kernel :=
  let k := { k with loads := (k.current, addr) :: k.loads }
  k.withFault addr fun m => (m.mapped (addr.toNat / pageSize)).present

/-- A store by the running user program. -/
def userStore (k : Kernel) (addr : DWord) (value : Byte) : Kernel :=
  k.storeWith addr value fun m => m.userWritable (addr.toNat / pageSize)

def userLoad (k : Kernel) (addr : DWord) : Kernel :=
  k.withFault addr fun m => m.userReadable (addr.toNat / pageSize)

/-- Stores to consecutive addresses. -/
def kernelStores (k : Kernel) (addr : DWord) : List Byte → Kernel
  | [] => k
  | value :: rest => (k.kernelStore addr value).kernelStores (addr + 1) rest

end Kernel

end Zeos
