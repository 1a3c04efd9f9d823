import Zeos.State

set_option autoImplicit false

/-! `do_div` and `get_ticks` of `utils.c`. -/

namespace Zeos

/-- `divl`: the quotient and the remainder. It faults when the quotient does not fit. -/
def divl (high low base : DWord) : Option (DWord × DWord) :=
  let dividend := high.toNat * 2 ^ 32 + low.toNat
  if base.toNat ≤ high.toNat then none
  else some (BitVec.ofNat 32 (dividend / base.toNat), BitVec.ofNat 32 (dividend % base.toNat))

/-- `do_div`: what becomes of `n`, and `__mod`. `%` and `/` are a `divl` too. -/
def doDiv (n : BitVec 64) (base : DWord) : Option (BitVec 64 × DWord) :=
  let low := n.setWidth 32
  let high := (n >>> 32).setWidth 32
  let halves := if high ≠ 0 then (divl 0 high base).map fun (q, r) => (r, q) else some (high, high)
  halves.bind fun (upper, high) =>
    (divl upper low base).map fun (low, mod) => (high ++ low, mod)

def cyclesPerTick : DWord := 109000

/-- `get_ticks`, of what `rdtsc` reads. -/
def getTicks (edx eax : DWord) : Option DWord :=
  let ticks := (edx.setWidth 64 <<< 32) + eax.setWidth 64
  (doDiv ticks cyclesPerTick).map fun (ticks, _) => ticks.setWidth 32

/-- The first digit's remainder goes on to the second. -/
theorem long_division (high low base digit : Nat) :
    (high * digit + low) / base = high / base * digit + (high % base * digit + low) / base ∧
      (high * digit + low) % base = (high % base * digit + low) % base := by
  have split : high * digit + low
      = base * (high / base * digit) + (high % base * digit + low) := by
    calc high * digit + low = (base * (high / base) + high % base) * digit + low := by
          rw [Nat.div_add_mod]
      _ = base * (high / base * digit) + (high % base * digit + low) := by
          rw [Nat.add_mul, Nat.mul_assoc, Nat.add_assoc]
  constructor
  · rcases Nat.eq_zero_or_pos base with zero | positive
    · simp [zero]
    · rw [split, Nat.mul_add_div positive]
  · rw [split, Nat.mul_add_mod]

theorem divl_fits {high low base : DWord} (fits : high.toNat < base.toNat) :
    divl high low base
      = some (BitVec.ofNat 32 ((high.toNat * 2 ^ 32 + low.toNat) / base.toNat),
          BitVec.ofNat 32 ((high.toNat * 2 ^ 32 + low.toNat) % base.toNat)) := by
  simp [divl, Nat.not_le.2 fits]

/-- The quotient `divl` does not fault on is below `2 ^ 32`. -/
theorem quotient_fits {high low base : Nat} (fits : high < base) (small : low < 2 ^ 32) :
    (high * 2 ^ 32 + low) / base < 2 ^ 32 := by
  rw [Nat.div_lt_iff_lt_mul (by omega)]
  calc high * 2 ^ 32 + low < (high + 1) * 2 ^ 32 := by omega
    _ ≤ base * 2 ^ 32 := Nat.mul_le_mul_right _ (by omega)
    _ = 2 ^ 32 * base := Nat.mul_comm _ _

theorem toNat_append_halves (upper lower : DWord) :
    (upper ++ lower).toNat = upper.toNat * 2 ^ 32 + lower.toNat := by
  rw [BitVec.toNat_append, ← Nat.shiftLeft_add_eq_or_of_lt lower.isLt, Nat.shiftLeft_eq]

/-- The second `divl`, of the remainder `upper` the first one leaves. -/
theorem divl_second {high : Nat} {upper low base : DWord} (positive : 0 < base.toNat)
    (small : high < 2 ^ 32) (rest : upper.toNat = high % base.toNat) :
    (divl upper low base).map (fun (low, mod) => (BitVec.ofNat 32 (high / base.toNat) ++ low, mod))
      = some (BitVec.ofNat 64 ((high * 2 ^ 32 + low.toNat) / base.toNat),
          BitVec.ofNat 32 ((high * 2 ^ 32 + low.toNat) % base.toNat)) := by
  have fits : upper.toNat < base.toNat := rest ▸ Nat.mod_lt _ positive
  obtain ⟨quotient, remainder⟩ := long_division high low.toNat base.toNat (2 ^ 32)
  have below := quotient_fits fits low.isLt
  rw [divl_fits fits, Option.map_some, quotient, remainder, ← rest]
  refine congrArg some (Prod.ext (BitVec.eq_of_toNat_eq ?_) rfl)
  dsimp only
  rw [toNat_append_halves]
  have first : high / base.toNat < 2 ^ 32 := (Nat.div_le_self ..).trans_lt small
  simp only [BitVec.toNat_ofNat]
  rw [Nat.mod_eq_of_lt first, Nat.mod_eq_of_lt below, Nat.mod_eq_of_lt (by omega)]

theorem doDiv_nonzero (n : BitVec 64) {base : DWord} (positive : 0 < base.toNat) :
    doDiv n base
      = some (BitVec.ofNat 64 (n.toNat / base.toNat), BitVec.ofNat 32 (n.toNat % base.toNat)) := by
  have low : (n.setWidth 32).toNat = n.toNat % 2 ^ 32 := BitVec.toNat_setWidth ..
  have high : ((n >>> 32).setWidth 32).toNat = n.toNat / 2 ^ 32 := by
    have := n.isLt
    simp only [BitVec.toNat_setWidth, BitVec.toNat_ushiftRight, Nat.shiftRight_eq_div_pow]
    omega
  have whole : n.toNat / 2 ^ 32 * 2 ^ 32 + n.toNat % 2 ^ 32 = n.toNat := Nat.div_add_mod' ..
  have second (upper : DWord) (rest : upper.toNat = n.toNat / 2 ^ 32 % base.toNat) :=
    @divl_second _ upper (n.setWidth 32) base positive (by omega) rest
  rw [low, whole] at second
  by_cases short : (n >>> 32).setWidth 32 = (0 : DWord)
  · -- One `divl` is enough.
    have none : n.toNat / 2 ^ 32 = 0 := by rw [← high, short]; rfl
    simp only [doDiv, short, ne_eq, not_true_eq_false, if_false, Option.bind_some]
    rw [← second 0 (by rw [none]; simp), none]
    simp
  · have first : divl 0 ((n >>> 32).setWidth 32) base
        = some (BitVec.ofNat 32 (n.toNat / 2 ^ 32 / base.toNat),
            BitVec.ofNat 32 (n.toNat / 2 ^ 32 % base.toNat)) := by
      rw [divl_fits (by simpa using positive), high]
      simp
    have rest : n.toNat / 2 ^ 32 % base.toNat < 2 ^ 32 := (Nat.mod_lt _ positive).trans base.isLt
    have last := second (BitVec.ofNat 32 (n.toNat / 2 ^ 32 % base.toNat))
      (by rw [BitVec.toNat_ofNat, Nat.mod_eq_of_lt rest])
    simp only [doDiv, ne_eq, short, not_false_eq_true, if_true, first, Option.map_some,
      Option.bind_some]
    exact last

/-- `do_div` divides 64 bits by 32 exactly, whatever the quotient's size. Only zero faults. -/
theorem doDiv_exact (n : BitVec 64) (base : DWord) :
    doDiv n base = if base = 0 then none
      else some (BitVec.ofNat 64 (n.toNat / base.toNat), BitVec.ofNat 32 (n.toNat % base.toNat)) := by
  by_cases zero : base = 0
  · subst zero
    simp only [if_true, doDiv]
    split <;> simp [divl]
  · rw [if_neg zero]
    exact doDiv_nonzero n (Nat.pos_of_ne_zero fun h => zero (BitVec.eq_of_toNat_eq (by simpa using h)))

/-- `rdtsc`'s `EDX` and `EAX`. -/
def rdtsc (cycles : BitVec 64) : DWord × DWord :=
  ((cycles >>> 32).setWidth 32, cycles.setWidth 32)

theorem getTicks_rdtsc (cycles : BitVec 64) :
    getTicks (rdtsc cycles).1 (rdtsc cycles).2
      = some (BitVec.ofNat 32 (cycles.toNat / cyclesPerTick.toNat)) := by
  have joined : (((cycles >>> 32).setWidth 32).setWidth 64 <<< 32)
      + (cycles.setWidth 32).setWidth 64 = cycles := by
    have := cycles.isLt
    apply BitVec.eq_of_toNat_eq
    simp only [BitVec.toNat_add, BitVec.toNat_shiftLeft, BitVec.toNat_setWidth,
      BitVec.toNat_ushiftRight, Nat.shiftLeft_eq, Nat.shiftRight_eq_div_pow]
    omega
  have positive : 0 < cyclesPerTick.toNat := by decide
  have quotient : cycles.toNat / cyclesPerTick.toNat < 2 ^ 64 :=
    (Nat.div_le_self ..).trans_lt cycles.isLt
  simp only [getTicks, rdtsc, joined, doDiv_nonzero cycles positive, Option.map_some]
  refine congrArg some (BitVec.eq_of_toNat_eq ?_)
  rw [BitVec.toNat_setWidth, BitVec.toNat_ofNat, BitVec.toNat_ofNat, Nat.mod_eq_of_lt quotient]

/-- Two readings of `get_ticks` are as many ticks apart as the counter went through, to one. -/
theorem ticks_elapsed (earlier later : BitVec 64) (order : earlier.toNat ≤ later.toNat)
    (close : later.toNat - earlier.toNat < (2 ^ 32 - 1) * cyclesPerTick.toNat) :
    ∃ before now, getTicks (rdtsc earlier).1 (rdtsc earlier).2 = some before ∧
      getTicks (rdtsc later).1 (rdtsc later).2 = some now ∧
      (now - before).toNat * cyclesPerTick.toNat
          < later.toNat - earlier.toNat + cyclesPerTick.toNat ∧
      later.toNat - earlier.toNat < ((now - before).toNat + 1) * cyclesPerTick.toNat := by
  refine ⟨_, _, getTicks_rdtsc earlier, getTicks_rdtsc later, ?_⟩
  have cycles : cyclesPerTick.toNat = 109000 := rfl
  rw [cycles] at close ⊢
  have apart : (BitVec.ofNat 32 (later.toNat / 109000) - BitVec.ofNat 32 (earlier.toNat / 109000)).toNat
      = later.toNat / 109000 - earlier.toNat / 109000 := by
    simp only [BitVec.toNat_sub, BitVec.toNat_ofNat]
    omega
  rw [apart]
  omega

/-- The counter's low half wraps between the two. -/
theorem ticks_elapsed_wrap :
    ∃ before now, getTicks (rdtsc 0xFFFFFFFF).1 (rdtsc 0xFFFFFFFF).2 = some before ∧
      getTicks (rdtsc 0x100030000).1 (rdtsc 0x100030000).2 = some now ∧
      (now - before).toNat * 109000 < 0x100030000 - 0xFFFFFFFF + 109000 ∧
      0x100030000 - 0xFFFFFFFF < ((now - before).toNat + 1) * 109000 :=
  ticks_elapsed 0xFFFFFFFF 0x100030000 (by decide) (by decide)

end Zeos
