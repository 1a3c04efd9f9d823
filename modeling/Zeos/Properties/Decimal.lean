import Mathlib.Data.List.GetD
import Mathlib.Data.Nat.Digits.Lemmas
import Zeos.Libc

set_option autoImplicit false

/-! `itoa` writes decimal notation, and `strlen` measures it. -/

namespace Zeos

variable {s : Buffer} {b : DWord} {c : Byte} {a : Int} {i j n : Nat}

/-! ### The characters at `b` -/

theorem index_injective (inside : i < 2 ^ 32) (inside' : j < 2 ^ 32)
    (same : b + BitVec.ofNat 32 i = b + BitVec.ofNat 32 j) : i = j := by
  have equal := congrArg BitVec.toNat (BitVec.add_right_inj b |>.mp same)
  rw [BitVec.toNat_ofNat, BitVec.toNat_ofNat, Nat.mod_eq_of_lt inside,
    Nat.mod_eq_of_lt inside'] at equal
  exact equal

/-- Only the first `used` characters at `b` are stored to. -/
structure Buffer.Keeps (s s' : Buffer) (b : DWord) (used : Nat) : Prop where
  memory : ∀ addr, (∀ i < used, addr ≠ b + BitVec.ofNat 32 i) → s'.memory addr = s.memory addr
  stores : ∀ addr ∈ s'.stores, addr ∈ s.stores ∨ ∃ i < used, addr = b + BitVec.ofNat 32 i

namespace Buffer

theorem Keeps.refl (s : Buffer) (b : DWord) (used : Nat) : s.Keeps s b used :=
  ⟨fun _ _ => rfl, fun _ among => .inl among⟩

theorem Keeps.trans {s' last : Buffer} {used : Nat} (first : s.Keeps s' b used)
    (second : s'.Keeps last b used) : s.Keeps last b used := by
  constructor
  · intro addr outside
    exact (second.memory addr outside).trans (first.memory addr outside)
  · intro addr among
    rcases second.stores addr among with before | inside
    · exact first.stores addr before
    · exact .inr inside

theorem Keeps.mono {s' : Buffer} {used used' : Nat} (keeps : s.Keeps s' b used)
    (more : used ≤ used') : s.Keeps s' b used' := by
  constructor
  · intro addr outside
    exact keeps.memory addr fun i below => outside i (by omega)
  · intro addr among
    rcases keeps.stores addr among with before | ⟨i, below, place⟩
    · exact .inl before
    · exact .inr ⟨i, by omega, place⟩

theorem keeps_put {used : Nat} (below : i < used) : s.Keeps (s.put b i c) b used := by
  constructor
  · intro addr outside
    exact Function.update_of_ne (outside i below) ..
  · intro addr among
    rcases List.mem_cons.mp among with place | before
    · exact .inr ⟨i, below, place⟩
    · exact .inl before

theorem get_put (inside : i < 2 ^ 32) (inside' : j < 2 ^ 32) :
    (s.put b i c).get b j = if j = i then c else s.get b j := by
  unfold get put
  split
  · rename_i same
    rw [same]
    exact Function.update_self ..
  · rename_i different
    exact Function.update_of_ne (fun same => different (index_injective inside' inside same)) ..

/-! ### The digits -/

/-- The characters from `b[i]` on. -/
def puts (s : Buffer) (b : DWord) (i : Nat) : List Byte → Buffer
  | [] => s
  | c :: rest => (s.put b i c).puts b (i + 1) rest

theorem keeps_puts (chars : List Byte) : ∀ (s : Buffer) (i : Nat),
    s.Keeps (s.puts b i chars) b (i + chars.length) := by
  induction chars with
  | nil => exact fun s i => .refl s b _
  | cons c rest ih =>
      intro s i
      rw [List.length_cons, ← Nat.add_assoc, Nat.add_right_comm]
      exact (keeps_put (by omega)).trans (ih (s.put b i c) (i + 1))

theorem get_puts (chars : List Byte) : ∀ (s : Buffer) (i : Nat), i + chars.length ≤ 2 ^ 32 →
    ∀ j < i + chars.length, (s.puts b i chars).get b j =
      if j < i then s.get b j else chars.getD (j - i) 0 := by
  induction chars with
  | nil =>
      intro s i _ j below
      rw [List.length_nil, Nat.add_zero] at below
      exact (if_pos below).symm
  | cons c rest ih =>
      intro s i fits j below
      rw [List.length_cons] at fits below
      show ((s.put b i c).puts b (i + 1) rest).get b j = _
      rw [ih (s.put b i c) (i + 1) (by omega) j (by omega), get_put (by omega) (by omega)]
      by_cases first : j = i
      · rw [if_pos (by omega), if_pos first, if_neg (by omega), first, Nat.sub_self,
          List.getD_cons_zero]
      · by_cases before : j < i
        · rw [if_pos (by omega), if_neg first, if_pos before]
        · rw [if_neg (by omega), if_neg before, show j - i = j - (i + 1) + 1 by omega,
            List.getD_cons_succ]

/-- A digit in ASCII. -/
def digit (d : Nat) : Byte := BitVec.ofNat 8 (d + 48)

/-- The division loop writes the digits, the lowest one first. -/
theorem divideLoop_eq (a : Nat) : ∀ (s : Buffer) (i : Nat),
    divideLoop b a i s = (s.puts b i ((Nat.digits 10 a).map digit),
      i + (Nat.digits 10 a).length) := by
  induction a using Nat.strongRecOn with
  | ind a ih =>
      intro s i
      rw [divideLoop]
      cases a with
      | zero => rfl
      | succ a =>
          have quotient : ((a + 1 : Nat) : Int).tdiv 10 = ((a + 1) / 10 : Nat) := rfl
          have remainder : BitVec.ofInt 8 (((a + 1 : Nat) : Int).tmod 10 + 48) =
              digit ((a + 1) % 10) := rfl
          rw [if_pos (by omega), quotient, remainder, ih _ (by omega),
            Nat.digits_def' (by decide) (Nat.succ_pos a), List.map_cons, List.length_cons]
          rw [Nat.add_right_comm, Nat.add_assoc i]
          rfl

/-! ### The reversal -/

/-- After some rounds, so many characters at either end have changed places. -/
structure Swapped (s s' : Buffer) (b : DWord) (n rounds : Nat) : Prop where
  ends : ∀ j < n, j < rounds ∨ n - rounds ≤ j → s'.get b j = s.get b (n - 1 - j)
  middle : ∀ j, rounds ≤ j → j < n - rounds → s'.get b j = s.get b j
  keeps : s.Keeps s' b n

theorem Swapped.round {s' : Buffer} {rounds : Nat} (fits : n ≤ 2 ^ 32) (half : rounds < n / 2)
    (swapped : Swapped s s' b n rounds) :
    Swapped s (swapRound b n rounds s') b n (rounds + 1) := by
  have shape : ∀ j < n, (swapRound b n rounds s').get b j =
      if j = n - rounds - 1 then s'.get b rounds
      else if j = rounds then s'.get b (n - rounds - 1) else s'.get b j := by
    intro j below
    unfold swapRound
    rw [get_put (by omega) (by omega), get_put (by omega) (by omega)]
  refine ⟨fun j below reached => ?_, fun j above below => ?_, ?_⟩
  · rw [shape j below]
    by_cases upper : j = n - rounds - 1
    · rw [if_pos upper, swapped.middle rounds (Nat.le_refl _) (by omega)]
      congr 1
      omega
    · by_cases lower : j = rounds
      · rw [if_neg upper, if_pos lower, swapped.middle _ (by omega) (by omega)]
        congr 1
        omega
      · rw [if_neg upper, if_neg lower]
        exact swapped.ends j below (by omega)
  · rw [shape j (by omega), if_neg (by omega), if_neg (by omega)]
    exact swapped.middle j (by omega) (by omega)
  · have first : s'.Keeps (s'.put b rounds (s'.get b (n - rounds - 1))) b n :=
      keeps_put (by omega)
    exact swapped.keeps.trans (first.trans (keeps_put (by omega)))

/-- The loop of swaps reverses the characters, for even and odd lengths. -/
theorem swaps (fits : n ≤ 2 ^ 32) (s : Buffer) :
    (∀ j < n, (Loop.upTo (n / 2) (swapRound b n) s).get b j = s.get b (n - 1 - j)) ∧
      s.Keeps (Loop.upTo (n / 2) (swapRound b n) s) b n := by
  have start : Swapped s s b n 0 :=
    ⟨fun j below reached => absurd reached (by omega), fun _ _ _ => rfl, .refl s b n⟩
  have all := Loop.upTo_invariant (n / 2) (swapRound b n) s (fun rounds s' => Swapped s s' b n rounds)
    start fun rounds s' half swapped => swapped.round fits half
  refine ⟨fun j below => ?_, all.keeps⟩
  by_cases reached : j < n / 2 ∨ n - n / 2 ≤ j
  · exact all.ends j below reached
  · rw [all.middle j (by omega) (by omega)]
    congr 1
    omega

end Buffer

/-! ### The string -/

/-- The decimal digits, the highest one first. -/
def decimalDigits (a : Nat) : List Nat := if a = 0 then [0] else (Nat.digits 10 a).reverse

theorem decimalDigits_lt {a d : Nat} (among : d ∈ decimalDigits a) : d < 10 := by
  unfold decimalDigits at among
  split at among
  · rw [List.mem_singleton.mp among]
    decide
  · exact Nat.digits_lt_base (by decide) (List.mem_reverse.mp among)

theorem decimalDigits_value (a : Nat) :
    (decimalDigits a).foldl (fun value d => 10 * value + d) 0 = a := by
  unfold decimalDigits
  split
  · rename_i zero
    exact zero.symm
  · rw [List.foldl_reverse]
    have horner := Nat.ofDigits_eq_foldr 10 (Nat.digits 10 a)
    rw [Nat.ofDigits_digits] at horner
    have turned : (fun d value => 10 * value + d) = fun (d value : Nat) => d + 10 * value := by
      funext d value
      exact Nat.add_comm ..
    rw [turned]
    exact horner.symm

theorem decimalDigits_length_pos (a : Nat) : 0 < (decimalDigits a).length := by
  unfold decimalDigits
  split
  · decide
  · rename_i positive
    rw [List.length_reverse]
    exact List.length_pos_iff.mpr (Nat.digits_ne_nil_iff_ne_zero.mpr positive)

theorem decimalDigits_mono {a a' : Nat} (below : a ≤ a') :
    (decimalDigits a).length ≤ (decimalDigits a').length := by
  by_cases zero : a = 0
  · rw [decimalDigits, if_pos zero]
    exact decimalDigits_length_pos a'
  · rw [decimalDigits, decimalDigits, if_neg zero, if_neg (by omega), List.length_reverse,
      List.length_reverse]
    exact Nat.le_length_digits_le 10 a a' below

/-- An `int` has at most ten digits. -/
theorem decimalDigits_short {a : Nat} (small : a < 10 ^ 10) : (decimalDigits a).length ≤ 10 := by
  unfold decimalDigits
  split
  · decide
  · rw [List.length_reverse]
    exact (Nat.digits_length_le_iff (by decide) a).mpr small

theorem decimalDigits_leading {a : Nat} (long : 1 < (decimalDigits a).length) :
    (decimalDigits a).getD 0 0 ≠ 0 := by
  unfold decimalDigits at long ⊢
  split at long
  · exact absurd long (by decide)
  · rename_i positive
    have nonempty := Nat.digits_ne_nil_iff_ne_zero (b := 10).mpr positive
    have last := Nat.getLast_digit_ne_zero 10 positive
    rw [if_neg positive, List.getD_eq_getElem _ _ (by omega), List.getElem_reverse]
    rw [List.getLast_eq_getElem] at last
    exact last

/-- The string that `itoa` leaves. -/
theorem itoa_get {a : Nat} (small : a < 10 ^ 10) :
    (∀ j < (decimalDigits a).length,
      (s.itoa a b).get b j = Buffer.digit ((decimalDigits a).getD j 0)) ∧
    (s.itoa a b).get b (decimalDigits a).length = 0 ∧
    s.Keeps (s.itoa a b) b ((decimalDigits a).length + 1) := by
  have short := decimalDigits_short small
  by_cases zero : a = 0
  · have shape : s.itoa a b = (s.put b 0 48).put b 1 0 := if_pos (by omega)
    have digits : decimalDigits a = [0] := if_pos zero
    rw [shape, digits]
    refine ⟨fun j below => ?_, ?_, ?_⟩
    · have first : j = 0 := Nat.lt_one_iff.mp below
      rw [first, Buffer.get_put (by decide) (by decide), Buffer.get_put (by decide) (by decide)]
      rfl
    · exact (Buffer.get_put (by decide) (by decide)).trans (if_pos rfl)
    · exact (Buffer.keeps_put (by decide)).trans (Buffer.keeps_put (by decide))
  · have digits : decimalDigits a = (Nat.digits 10 a).reverse := if_neg zero
    rw [digits, List.length_reverse] at short ⊢
    generalize count : (Nat.digits 10 a).length = n at short ⊢
    have shape : s.itoa a b = (Loop.upTo (n / 2) (swapRound b n)
        (s.puts b 0 ((Nat.digits 10 a).map Buffer.digit))).put b n 0 := by
      have divided := @Buffer.divideLoop_eq b a s 0
      rw [Nat.zero_add, count] at divided
      unfold Buffer.itoa
      rw [if_neg (by omega), divided]
    obtain ⟨reversed, kept⟩ := Buffer.swaps (b := b) (show n ≤ 2 ^ 32 by omega)
      (s.puts b 0 ((Nat.digits 10 a).map Buffer.digit))
    have chars := Buffer.get_puts (b := b) ((Nat.digits 10 a).map Buffer.digit) s 0
      (by rw [List.length_map]; omega)
    have stored := Buffer.keeps_puts (b := b) ((Nat.digits 10 a).map Buffer.digit) s 0
    rw [List.length_map, count, Nat.zero_add] at chars stored
    rw [shape]
    refine ⟨fun j below => ?_, ?_, ?_⟩
    · rw [Buffer.get_put (by omega) (by omega), if_neg (by omega), reversed j below,
        chars _ (by omega), if_neg (by omega), Nat.sub_zero,
        List.getD_eq_getElem _ _ (by rw [List.length_map]; omega), List.getElem_map,
        List.getD_eq_getElem _ _ (by rw [List.length_reverse]; omega), List.getElem_reverse]
      simp only [count]
    · exact (Buffer.get_put (by omega) (by omega)).trans (if_pos rfl)
    · exact ((stored.mono (by omega)).trans (kept.mono (by omega))).trans
        (Buffer.keeps_put (by omega))

/-- `strlen` finds the first zero. -/
theorem strlenLoop_eq {memory : Memory} (zero : memory (b + BitVec.ofNat 32 n) = 0)
    (rounds : Nat) : ∀ i, i ≤ n → n < i + rounds →
    (∀ j, i ≤ j → j < n → memory (b + BitVec.ofNat 32 j) ≠ 0) →
    strlenLoop memory b rounds i = some n := by
  induction rounds with
  | zero => exact fun i before after => absurd after (by omega)
  | succ rounds ih =>
      intro i before after nonzero
      rw [strlenLoop]
      by_cases last : i = n
      · rw [last, zero]
        rfl
      · rw [if_pos (nonzero i (Nat.le_refl i) (by omega))]
        exact ih (i + 1) (by omega) (by omega) fun j above below => nonzero j (by omega) below

/-- The first characters at `b`. -/
def Buffer.chars (s : Buffer) (b : DWord) (n : Nat) : List Byte := (List.range n).map (s.get b)

/-- The string at `b`, if it ends. -/
def Buffer.string (s : Buffer) (b : DWord) : Option (List Byte) :=
  (strlen s.memory b).map (s.chars b)

/-- The number that ASCII digits stand for. -/
def decimalValue (chars : List Byte) : Nat :=
  chars.foldl (fun value c => 10 * value + (c.toNat - 48)) 0

/-- What `itoa` promises of the `n` characters that it leaves. -/
structure DecimalText (s s' : Buffer) (b : DWord) (a : Int) (n : Nat) : Prop where
  length : strlen s'.memory b = some n
  short : 1 ≤ n ∧ n + 1 ≤ 11
  digits : ∀ c ∈ s'.chars b n, 48 ≤ c.toNat ∧ c.toNat ≤ 57
  leading : n = 1 ∨ s'.get b 0 ≠ 48
  value : decimalValue (s'.chars b n) = a
  only : s.Keeps s' b (n + 1)

theorem digit_toNat {d : Nat} (small : d < 10) : (Buffer.digit d).toNat = d + 48 := by
  rw [Buffer.digit, BitVec.toNat_ofNat]
  omega

theorem itoa_chars {a : Nat} (small : a < 10 ^ 10) :
    (s.itoa a b).chars b (decimalDigits a).length = (decimalDigits a).map Buffer.digit := by
  apply List.ext_getElem
  · rw [Buffer.chars, List.length_map, List.length_map, List.length_range]
  · intro j below inside
    rw [List.length_map] at inside
    simp only [Buffer.chars, List.getElem_map, List.getElem_range]
    rw [(itoa_get small).1 j inside, List.getD_eq_getElem _ _ inside]

theorem itoa_length {a : Nat} (small : a < 10 ^ 10) :
    strlen (s.itoa a b).memory b = some (decimalDigits a).length := by
  have short := decimalDigits_short small
  obtain ⟨chars, zero, -⟩ := @itoa_get s b a small
  apply strlenLoop_eq zero 0x80000000 0 (Nat.zero_le _) (by omega)
  intro j _ below empty
  have shown := chars j below
  rw [Buffer.get, empty] at shown
  have value := congrArg BitVec.toNat shown
  rw [digit_toNat] at value
  · have none : (0 : Byte).toNat = 0 := rfl
    omega
  · rw [List.getD_eq_getElem _ _ below]
    exact decimalDigits_lt (List.getElem_mem _)

theorem decimalValue_digits (digits : List Nat) (small : ∀ d ∈ digits, d < 10) :
    decimalValue (digits.map Buffer.digit) = digits.foldl (fun value d => 10 * value + d) 0 := by
  rw [decimalValue, List.foldl_map]
  apply List.foldl_ext
  intro value d among
  rw [digit_toNat (small d among), Nat.add_sub_cancel]

theorem itoa_text {a : Nat} (small : a < 10 ^ 10) :
    DecimalText s (s.itoa a b) b a (decimalDigits a).length := by
  have short := decimalDigits_short small
  have positive := decimalDigits_length_pos a
  obtain ⟨chars, -, only⟩ := @itoa_get s b a small
  refine ⟨itoa_length small, by omega, ?_, ?_, ?_, only⟩
  · intro c among
    rw [itoa_chars small] at among
    obtain ⟨d, inside, rfl⟩ := List.mem_map.mp among
    have below := decimalDigits_lt inside
    rw [digit_toNat below]
    omega
  · by_cases one : (decimalDigits a).length = 1
    · exact .inl one
    · right
      have first := @decimalDigits_leading a (by omega)
      rw [chars 0 positive]
      intro zero
      have value := congrArg BitVec.toNat zero
      rw [digit_toNat] at value
      · exact first (Nat.add_right_cancel value)
      · rw [List.getD_eq_getElem _ _ positive]
        exact decimalDigits_lt (List.getElem_mem _)
  · rw [itoa_chars small, decimalValue_digits _ fun d => decimalDigits_lt, decimalDigits_value]

/-- Numbers with the same string are the same. -/
theorem itoa_injective {s' : Buffer} {b' : DWord} {a a' : Nat} (small : a < 10 ^ 10)
    (small' : a' < 10 ^ 10) (same : (s'.itoa a' b').string b' = (s.itoa a b).string b) : a' = a := by
  have text := @itoa_text s b a small
  have text' := @itoa_text s' b' a' small'
  rw [Buffer.string, Buffer.string, text.length, text'.length] at same
  have equal := congrArg decimalValue (Option.some.inj same)
  have value := text'.value
  rw [equal, text.value] at value
  exact Int.ofNat.inj value.symm

/-- For every `a` that is not negative, `itoa` leaves the decimal notation of `a` and stores
to no other place; other numbers get other strings, and longer strings are those of larger
numbers. -/
theorem itoa_decimal (low : 0 ≤ a) (high : a ≤ intMax) :
    ∃ n, DecimalText s (s.itoa a b) b a n ∧ ∀ (s' : Buffer) (b' : DWord) (a' : Int),
      0 ≤ a' → a' ≤ intMax →
        ((s'.itoa a' b').string b' = (s.itoa a b).string b → a' = a) ∧
        ∀ n', strlen (s'.itoa a' b').memory b' = some n' → n < n' → a < a' := by
  obtain ⟨a, rfl⟩ := Int.eq_ofNat_of_zero_le low
  have largest : intMax = 2147483647 := rfl
  refine ⟨_, itoa_text (by omega), ?_⟩
  intro s' b' a' low' high'
  obtain ⟨a', rfl⟩ := Int.eq_ofNat_of_zero_le low'
  constructor
  · intro same
    exact congrArg Int.ofNat (itoa_injective (by omega) (by omega) same)
  · intro n' measured longer
    rw [itoa_length (by omega)] at measured
    rw [← Option.some.inj measured] at longer
    by_contra smaller
    have shorter := @decimalDigits_mono a' a (by omega)
    omega

theorem itoa_decimal_largest : ∃ n,
    DecimalText ⟨fun _ => 0, []⟩ (Buffer.itoa ⟨fun _ => 0, []⟩ intMax 0xFFFFFFFE) 0xFFFFFFFE
      intMax n ∧
    ∀ (s' : Buffer) (b' : DWord) (a' : Int), 0 ≤ a' → a' ≤ intMax →
      ((s'.itoa a' b').string b' =
        (Buffer.itoa ⟨fun _ => 0, []⟩ intMax 0xFFFFFFFE).string 0xFFFFFFFE → a' = intMax) ∧
      ∀ n', strlen (s'.itoa a' b').memory b' = some n' → n < n' → intMax < a' :=
  itoa_decimal (by decide) (by decide)

end Zeos
