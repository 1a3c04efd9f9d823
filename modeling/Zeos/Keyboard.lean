import Zeos.Sched

set_option autoImplicit false

/-! `keyboard.c`. -/

namespace Zeos

/-- `char_map`. -/
def charMap : List Byte := ([
    0, 0, 49, 50, 51, 52, 53, 54, 55, 56, 57, 48, 39, 161, 0, 0,
    113, 119, 101, 114, 116, 121, 117, 105, 111, 112, 96, 43, 0, 0, 97, 115,
    100, 102, 103, 104, 106, 107, 108, 241, 0, 186, 0, 231, 122, 120, 99, 118,
    98, 110, 109, 44, 46, 45, 0, 42, 0, 0, 0, 0, 0, 0, 0, 0,
    0, 0, 0, 0, 0, 0, 0, 55, 56, 57, 45, 52, 53, 54, 43, 49,
    50, 51, 48, 0, 0, 0, 60, 0, 0, 0, 0, 0, 0, 0, 0, 0,
    0, 0] : List Nat).map (BitVec.ofNat 8)

namespace Keyboard

def isBufferFull (kb : Keyboard) : Bool :=
  decide ((kb.buffFrom : Int) - kb.buffTo = 1) ||
    (kb.buffFrom == 0 && kb.buffTo == keyboardBufferSize - 1)

def isBufferEmpty (kb : Keyboard) : Bool := kb.buffFrom == kb.buffTo

/-- `keyboard_buffer[buff_to++] = key`, wrapped. -/
def put (kb : Keyboard) (key : Byte) : Keyboard :=
  { kb with
    keyboardBuffer := Function.update kb.keyboardBuffer kb.buffTo key
    buffTo := if kb.buffTo + 1 = keyboardBufferSize then 0 else kb.buffTo + 1 }

/-- The character `keyboard_buffer[buff_from]`, and `buff_from++`, wrapped. -/
def front (kb : Keyboard) : Byte := kb.keyboardBuffer kb.buffFrom

def drop (kb : Keyboard) : Keyboard :=
  { kb with buffFrom := if kb.buffFrom + 1 = keyboardBufferSize then 0 else kb.buffFrom + 1 }

end Keyboard

namespace Kernel

/-- `init_keyboard`. -/
def initKeyboard (k : Kernel) : Kernel :=
  { k with
    keyboard := { k.keyboard with buffFrom := 0, buffTo := 0, remainingToRead := 0 }
    links := initListHead k.links .keyboardqueue }

/-- The wake-up in `keyboard_routine`: the first reader runs at once. -/
def wakeReader (k : Kernel) : Kernel :=
  let k := if k.current ≠ k.idleTask then
      k.addProcessToScheduling k.current .sysToReady false else k
  match listHeadToTaskStruct (listFirst k.links .keyboardqueue) with
  | none => k.hang
  | some task => (k.addProcessToScheduling task .blockedToReady true).schedNextRr .handler

/-- The character of a key press, or `none` for a release or a scan code out of
the table. -/
def pressedKey (value : Byte) : Option Byte :=
  let position := (value &&& 0b01111111).toNat
  if value >>> 7 = 0 ∧ position < 98 then some (charMap.getD position 0) else none

/-- `keyboard_routine`; `value` is what the port holds. -/
def keyboardRoutine (k : Kernel) (value : Byte) : Kernel :=
  match pressedKey value with
  | none => k
  | some key =>
      if k.keyboard.isBufferFull then k
      else
        let k := { k with keyboard := k.keyboard.put key }.note (.accepted key)
        if listEmpty k.links .keyboardqueue then k
        else
          -- `--remaining_to_read`
          let remaining := k.keyboard.remainingToRead - 1
          let k := { k with keyboard := { k.keyboard with remainingToRead := remaining }
                            stuck := k.stuck || decide (remaining < intMin) }
          if remaining ≤ 0 ∨ k.keyboard.isBufferFull then k.wakeReader else k

/-- `block_in_read`. -/
def blockInRead (k : Kernel) (first : Bool) (saved : Resume) : Kernel :=
  let k := k.updateProcessState k.current (some .keyboardqueue) first
  let k := k.updateStats k.current .sysToBlocked
  k.schedNextRr saved

/-- `read_from_keyboard_buffer`; `count` characters are stored already. -/
def readFromKeyboardBuffer : Nat → Kernel → DWord → Nat → Kernel × Nat
  | 0, k, _, count => (k, count)
  | size + 1, k, buffer, count =>
      if k.keyboard.isBufferEmpty then (k, count)
      else
        let key := k.keyboard.front
        let place := buffer + BitVec.ofNat 32 count
        let k := (k.kernelStore place key).note (.delivered k.current place key)
        readFromKeyboardBuffer size { k with keyboard := k.keyboard.drop } buffer (count + 1)

/-- The test of `while(size > 0)` in `sys_read_keyboard`, up to the task switch
or to the return. -/
def readKeyboardLoop (k : Kernel) (buffer : DWord) (totalSize size : Int) : Kernel × Int :=
  if size > 0 then
    let k := { k with keyboard := { k.keyboard with remainingToRead := size } }
    (k.blockInRead true (.readLoop buffer totalSize size), totalSize)
  else (k.note (.readDone k.current), totalSize)

/-- `sys_read_keyboard` after the test of `keyboardqueue`. -/
def readKeyboardFirst (k : Kernel) (buffer : DWord) (totalSize : Int) : Kernel × Int :=
  let (k, count) := readFromKeyboardBuffer totalSize.toNat k buffer 0
  k.readKeyboardLoop buffer totalSize (totalSize - count)

/-- One more round of the loop, after the reader was woken. -/
def readKeyboardAgain (k : Kernel) (buffer : DWord) (totalSize size : Int) : Kernel × Int :=
  let (k, count) :=
    readFromKeyboardBuffer size.toNat k (buffer + BitVec.ofInt 32 (totalSize - size)) 0
  k.readKeyboardLoop buffer totalSize (size - count)

/-- `sys_read_keyboard`. -/
def sysReadKeyboard (k : Kernel) (buffer : DWord) (size : Int) : Kernel × Int :=
  let k := k.note (.readCalled k.current buffer size.toNat)
  if !listEmpty k.links .keyboardqueue then
    (k.blockInRead false (.readFirst buffer size), size)
  else k.readKeyboardFirst buffer size

end Kernel

end Zeos
