import Zeos.Copy

set_option autoImplicit false

/-! `build.c`: the disk image, made of the boot sector, the system and the user program. -/

namespace Zeos

abbrev File := List Byte

/-- `lb[i]`: the `i`-th `u32` of the buffer. -/
def lb (buf : File) (i : Nat) : Nat :=
  (buf.getD (4 * i) 0).toNat + 256 * (buf.getD (4 * i + 1) 0).toNat +
    65536 * (buf.getD (4 * i + 2) 0).toNat + 16777216 * (buf.getD (4 * i + 3) 0).toNat

def minixHeaderLen : Nat := 32

def minixHdr : File := [0x01, 0x03, 0x10, 0x04, 0x20, 0x00, 0x00, 0x00]

/-- `minix_open`: what is behind the header. -/
def minixOpen (name : String) (file : File) : Except String File :=
  let buf := file.take minixHeaderLen
  if buf.length ≠ minixHeaderLen then .error (name ++ ": Unable to read header")
  else if buf.take 8 ≠ minixHdr ∨ lb buf 5 ≠ 0 then .error (name ++ ": Non-Minix header")
  else if lb buf 3 ≠ 0 then .error (name ++ ": Illegal data segment")
  else if lb buf 4 ≠ 0 then .error (name ++ ": Illegal bss segment")
  else if lb buf 7 ≠ 0 then .error (name ++ ": Illegal symbol table")
  else .ok (file.drop minixHeaderLen)

/-- `sizeof(buf)`. -/
def bufSize : Nat := 1024

/-- The checks of the boot sector, and the numbers of the root device. -/
def bootBlock (file : File) : Except String File :=
  let buf := file.take bufSize
  if buf.length ≠ 512 then .error "Boot block must be exactly 512 bytes"
  else if buf.getD 510 0 ≠ 0x55 ∨ buf.getD 511 0 ≠ 0xaa then
    .error "Boot block hasn't got boot flag (0xAA55)"
  else .ok ((buf.set 508 0).set 509 0)

/-- `sb.st_size`, as an `unsigned int`. -/
def File.stSize (file : File) : Nat := file.length % 2 ^ 32

/-- The loop `while(sz > 0)`: the next `sz` bytes of a file go to the output. -/
def copyFile (out file : File) (sz : Nat) : File :=
  if sz = 0 then out
  else
    let l := min bufSize sz
    copyFile (out ++ file.take l) (file.drop l) (sz - l)
termination_by sz
decreasing_by
  have some : 0 < bufSize := by decide
  omega

/-- `lseek` and `write`. -/
def File.patch (out : File) (pos : Nat) (bytes : File) : File :=
  out.take pos ++ bytes ++ out.drop (pos + bytes.length)

/-- The low 24 bits of a size. -/
def sizeBytes (size : Nat) : File :=
  [BitVec.ofNat 8 size, BitVec.ofNat 8 (size >>> 8), BitVec.ofNat 8 (size >>> 16), 0]

/-- `im_size`, in paragraphs of 16 bytes; the sum is a `u32`. -/
def imSize (sysSize usrSize : Nat) : Nat := (sysSize + usrSize + 15) % 2 ^ 32 / 16

/-- `im_size & 0xff` and `(im_size >> 8) & 0xff`. -/
def imBytes (size : Nat) : File := [BitVec.ofNat 8 size, BitVec.ofNat 8 (size >>> 8)]

/-- The writes at 500, 512, 516 and 520. -/
def File.fill (out : File) (sysSize usrSize : Nat) : File :=
  (((out.patch 500 (imBytes (imSize sysSize usrSize))).patch 512 (sizeBytes sysSize)).patch 516
    (sizeBytes usrSize)).patch 520 (sizeBytes 0x7E1B)

/-- `main`. -/
def build (bootName : String) (boot system user : File) : Except String File :=
  match minixOpen bootName boot with
  | .error message => .error message
  | .ok rest =>
      match bootBlock rest with
      | .error message => .error message
      | .ok sector =>
          let out := copyFile (copyFile sector system system.stSize) user user.stSize
          .ok (out.fill system.stSize user.stSize)

variable {out file bytes : File} {pos i sz : Nat}

/-- The loop copies the bytes of the file. -/
theorem copyFile_eq (out file : File) (sz : Nat) : copyFile out file sz = out ++ file.take sz := by
  fun_induction copyFile out file sz with
  | case1 => rw [List.take_zero, List.append_nil]
  | case2 out file sz more l ih =>
      have part : l ≤ sz := Nat.min_le_right bufSize sz
      rw [ih, List.append_assoc, List.append_cancel_left_eq, ← List.take_add,
        Nat.add_sub_cancel' part]

theorem stSize_eq (small : file.length < 2 ^ 32) : file.stSize = file.length :=
  Nat.mod_eq_of_lt small

theorem patch_get (within : pos + bytes.length ≤ out.length) (i : Nat) :
    (out.patch pos bytes)[i]? =
      if pos ≤ i ∧ i < pos + bytes.length then bytes[i - pos]? else out[i]? := by
  have first : (out.take pos).length = pos := by
    rw [List.length_take]
    omega
  rw [File.patch, List.append_assoc]
  by_cases before : i < pos
  · rw [List.getElem?_append_left (by omega), List.getElem?_take_of_lt before,
      if_neg (by omega)]
  · rw [List.getElem?_append_right (by omega), first]
    by_cases inside : i < pos + bytes.length
    · rw [List.getElem?_append_left (by omega), if_pos ⟨by omega, inside⟩]
    · rw [List.getElem?_append_right (by omega), List.getElem?_drop, if_neg (by omega)]
      congr 1
      omega

theorem patch_length (within : pos + bytes.length ≤ out.length) :
    (out.patch pos bytes).length = out.length := by
  simp only [File.patch, List.length_append, List.length_take, List.length_drop]
  omega

theorem bootBlock_length {sector : File} (done : bootBlock file = .ok sector) :
    sector.length = 512 := by
  unfold bootBlock at done
  dsimp only at done
  split at done
  · cases done
  · rename_i whole
    split at done
    · cases done
    · cases done
      rw [List.length_set, List.length_set]
      exact not_not.mp whole

@[simp] theorem sizeBytes_length (size : Nat) : (sizeBytes size).length = 4 := rfl

@[simp] theorem imBytes_length (size : Nat) : (imBytes size).length = 2 := rfl

/-- No write makes the image longer. -/
theorem fill_lengths {sysSize usrSize : Nat} (room : 524 ≤ out.length) :
    (out.patch 500 (imBytes (imSize sysSize usrSize))).length = out.length ∧
      ((out.patch 500 (imBytes (imSize sysSize usrSize))).patch 512 (sizeBytes sysSize)).length =
        out.length ∧
      (((out.patch 500 (imBytes (imSize sysSize usrSize))).patch 512 (sizeBytes sysSize)).patch 516
        (sizeBytes usrSize)).length = out.length := by
  have first : (out.patch 500 (imBytes (imSize sysSize usrSize))).length = out.length :=
    patch_length (by rw [imBytes_length]; omega)
  have second : ((out.patch 500 (imBytes (imSize sysSize usrSize))).patch 512
      (sizeBytes sysSize)).length = out.length := by
    rw [patch_length (by rw [first, sizeBytes_length]; omega), first]
  have third : (((out.patch 500 (imBytes (imSize sysSize usrSize))).patch 512
      (sizeBytes sysSize)).patch 516 (sizeBytes usrSize)).length = out.length := by
    rw [patch_length (by rw [second, sizeBytes_length]; omega), second]
  exact ⟨first, second, third⟩

theorem fill_length {sysSize usrSize : Nat} (room : 524 ≤ out.length) :
    (out.fill sysSize usrSize).length = out.length := by
  obtain ⟨first, second, third⟩ := @fill_lengths out sysSize usrSize room
  rw [File.fill, patch_length (by rw [third, sizeBytes_length]; omega), third]

/-- The four writes are apart. -/
theorem fill_get {sysSize usrSize : Nat} (room : 524 ≤ out.length) (i : Nat) :
    (out.fill sysSize usrSize)[i]? =
      if 520 ≤ i ∧ i < 524 then (sizeBytes 0x7E1B)[i - 520]?
      else if 516 ≤ i ∧ i < 520 then (sizeBytes usrSize)[i - 516]?
      else if 512 ≤ i ∧ i < 516 then (sizeBytes sysSize)[i - 512]?
      else if 500 ≤ i ∧ i < 502 then (imBytes (imSize sysSize usrSize))[i - 500]?
      else out[i]? := by
  obtain ⟨first, second, third⟩ := @fill_lengths out sysSize usrSize room
  rw [File.fill, patch_get (by rw [third, sizeBytes_length]; omega),
    patch_get (by rw [second, sizeBytes_length]; omega),
    patch_get (by rw [first, sizeBytes_length]; omega),
    patch_get (by rw [imBytes_length]; omega)]
  rfl

/-- Where the parts are in the image: the size for the boot loader, the sizes for the kernel,
the system and the user program. -/
structure Layout (image system user : File) : Prop where
  imageSize : ∀ i < 2, image[500 + i]? = (imBytes (imSize system.length user.length))[i]?
  sysSize : ∀ i < 4, image[512 + i]? = (sizeBytes system.length)[i]?
  usrSize : ∀ i < 4, image[516 + i]? = (sizeBytes user.length)[i]?
  kernel : ∀ i, 12 ≤ i → i < system.length → image[512 + i]? = system[i]?
  program : ∀ i < user.length, image[512 + system.length + i]? = user[i]?
  length : image.length = 512 + system.length + user.length

/-- What `build` writes; the sizes take the first 12 bytes of the system. -/
theorem build_layout {bootName : String} {boot system user image : File}
    (built : build bootName boot system user = .ok image) (room : 12 ≤ system.length)
    (small : system.length + user.length < 2 ^ 32) : Layout image system user := by
  unfold build at built
  split at built
  · cases built
  split at built
  · cases built
  rename_i sector checked
  have sectorSize := bootBlock_length checked
  have sysAll : system.stSize = system.length := stSize_eq (by omega)
  have usrAll : user.stSize = user.length := stSize_eq (by omega)
  rw [sysAll, usrAll, copyFile_eq, copyFile_eq, List.take_length, List.take_length] at built
  cases built
  have whole : (sector ++ system ++ user).length = 512 + system.length + user.length := by
    rw [List.length_append, List.length_append, sectorSize]
  have holds : ∀ i, ((sector ++ system ++ user).fill system.length user.length)[i]? = _ :=
    fill_get (by omega)
  constructor
  case imageSize =>
    intro i inside
    rw [holds, if_neg (by omega), if_neg (by omega), if_neg (by omega), if_pos (by omega),
      Nat.add_sub_cancel_left]
  case sysSize =>
    intro i inside
    rw [holds, if_neg (by omega), if_neg (by omega), if_pos (by omega), Nat.add_sub_cancel_left]
  case usrSize =>
    intro i inside
    rw [holds, if_neg (by omega), if_pos (by omega), Nat.add_sub_cancel_left]
  case kernel =>
    intro i low high
    rw [holds, if_neg (by omega), if_neg (by omega), if_neg (by omega), if_neg (by omega),
      List.append_assoc, List.getElem?_append_right (by omega), sectorSize,
      Nat.add_sub_cancel_left, List.getElem?_append_left high]
  case program =>
    intro i inside
    rw [holds, if_neg (by omega), if_neg (by omega), if_neg (by omega), if_neg (by omega),
      List.getElem?_append_right (by rw [List.length_append]; omega), List.length_append,
      sectorSize, Nat.add_sub_cancel_left]
  case length =>
    rw [fill_length (by omega), whole]

end Zeos
