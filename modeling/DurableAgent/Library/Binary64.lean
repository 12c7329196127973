import Mathlib.Data.Int.Log
import Mathlib.Data.Rat.Floor
import Mathlib.Tactic.Linarith
import Mathlib.Tactic.FieldSimp
import Mathlib.Tactic.Ring

/-!
# Rounding to binary64

A float is a rational here. `nearest` is the rounding of IEEE 754 with a significand of 53 bits
and gradual underflow; the bound on the exponent from above is left to its callers.
-/

namespace DurableAgent.Library.Binary64

/-- The exponent of the last place of the significand. -/
def lastPlace (q : ℚ) : ℤ := max (Int.log 2 q - 52) (-1074)

/-- The nearest integer, of two the even one. -/
def roundHalfEven (q : ℚ) : ℤ :=
  if 2 * Int.fract q < 1 then ⌊q⌋
  else if 1 < 2 * Int.fract q then ⌊q⌋ + 1
  else if ⌊q⌋ % 2 = 0 then ⌊q⌋ else ⌊q⌋ + 1

def nearest (q : ℚ) : ℚ := roundHalfEven (q / 2 ^ lastPlace q) * 2 ^ lastPlace q

/-- The conversion of an integer, which overflows where the nearest float is out of range. -/
def ofNat (n : Nat) : Option ℚ :=
  if nearest n < 2 ^ 1024 then some (nearest n) else none

theorem roundHalfEven_bounds (q : ℚ) :
    q - 1 / 2 ≤ roundHalfEven q ∧ (roundHalfEven q : ℚ) ≤ q + 1 / 2 := by
  have hsplit : (⌊q⌋ : ℚ) + Int.fract q = q := Int.floor_add_fract q
  have hfract : 0 ≤ Int.fract q := Int.fract_nonneg q
  have hone : Int.fract q < 1 := Int.fract_lt_one q
  unfold roundHalfEven
  split_ifs with hdown hup heven
  · constructor <;> linarith
  · push_cast
    constructor <;> linarith
  · constructor <;> linarith
  · push_cast
    constructor <;> linarith

/-- A normal significand has 53 bits, and rounding errs by half a unit in its last place. -/
theorem nearest_bounds {q : ℚ} (hq : (2 : ℚ) ^ (-1022 : ℤ) ≤ q) :
    q * (1 - 1 / 2 ^ 53) ≤ nearest q ∧ nearest q ≤ q * (1 + 1 / 2 ^ 53) := by
  have hpos : 0 < q := lt_of_lt_of_le (zpow_pos two_pos _) hq
  have hlog : (-1022 : ℤ) ≤ Int.log 2 q := (Int.zpow_le_iff_le_log one_lt_two hpos).mp hq
  have hplace : lastPlace q = Int.log 2 q - 52 := max_eq_left (by omega)
  have hunit : (0 : ℚ) < 2 ^ lastPlace q := zpow_pos two_pos _
  have hlow : (2 : ℚ) ^ 52 * 2 ^ lastPlace q ≤ q := by
    have hself : ((2 : ℕ) : ℚ) ^ Int.log 2 q ≤ q := Int.zpow_log_le_self one_lt_two hpos
    rw [hplace, ← zpow_natCast, ← zpow_add₀ two_ne_zero]
    simpa using hself
  obtain ⟨hdown, hup⟩ := roundHalfEven_bounds (q / 2 ^ lastPlace q)
  constructor
  · calc q * (1 - 1 / 2 ^ 53) ≤ q - 2 ^ lastPlace q / 2 := by linarith
      _ = (q / 2 ^ lastPlace q - 1 / 2) * 2 ^ lastPlace q := by field_simp
      _ ≤ nearest q := mul_le_mul_of_nonneg_right hdown hunit.le
  · calc nearest q ≤ (q / 2 ^ lastPlace q + 1 / 2) * 2 ^ lastPlace q :=
          mul_le_mul_of_nonneg_right hup hunit.le
      _ = q + 2 ^ lastPlace q / 2 := by field_simp
      _ ≤ q * (1 + 1 / 2 ^ 53) := by linarith

theorem normal_of_le {q : ℚ} (hq : 1 / 10 ≤ q) : (2 : ℚ) ^ (-1022 : ℤ) ≤ q := by
  have hpow : (2 : ℚ) ^ (-1022 : ℤ) ≤ 2 ^ (-4 : ℤ) := zpow_le_zpow_right₀ one_le_two (by decide)
  have hfour : (2 : ℚ) ^ (-4 : ℤ) ≤ 1 / 10 := by norm_num
  exact hpow.trans (hfour.trans hq)

/-- A proper share of a converted integer rounds to no more than the integer. -/
theorem nearest_share_le {n : Nat} {share x : ℚ} (hn : 0 < n) (hlow : 1 / 5 < share)
    (hhigh : share ≤ 19 / 20) (hx : ofNat n = some x) : nearest (x * share) ≤ n := by
  have hone : (1 : ℚ) ≤ n := by exact_mod_cast hn
  have hvalue : x = nearest n := by
    unfold ofNat at hx
    split_ifs at hx
    exact (Option.some.inj hx).symm
  obtain ⟨hge, hle⟩ := nearest_bounds (normal_of_le (q := n) (by linarith))
  rw [← hvalue] at hge hle
  have hhalf : 1 / 2 ≤ x := by linarith
  have hshare : 1 / 10 ≤ x * share := by nlinarith
  obtain ⟨-, hround⟩ := nearest_bounds (normal_of_le hshare)
  have hcut : x * share ≤ x * (19 / 20) := mul_le_mul_of_nonneg_left hhigh (by linarith)
  linarith

/-- Every integer of less than 1024 bits is in range. -/
theorem ofNat_ne_none {n : Nat} (hpos : 0 < n) (hlt : n < 2 ^ 1023) : ofNat n ≠ none := by
  have hone : (1 : ℚ) ≤ n := by exact_mod_cast hpos
  have hbound : (n : ℚ) < 2 ^ 1023 := by exact_mod_cast hlt
  obtain ⟨-, hle⟩ := nearest_bounds (normal_of_le (q := n) (by linarith))
  have htwice : nearest n ≤ 2 * n := by linarith
  have hrange : nearest n < 2 ^ 1024 := by
    rw [pow_succ' (2 : ℚ) 1023]
    exact htwice.trans_lt (mul_lt_mul_of_pos_left hbound two_pos)
  simp [ofNat, hrange]

/-- What is twice a number rounds to no less than that number. -/
theorem le_nearest {n : Nat} {bound : ℚ} (hbound : 1 ≤ bound) (h : 2 * bound ≤ n) :
    bound ≤ nearest n := by
  obtain ⟨hge, -⟩ := nearest_bounds (normal_of_le (q := n) (by linarith))
  linarith

theorem ofNat_eq_none {n : Nat} (h : 2 * 2 ^ 1024 ≤ n) : ofNat n = none := by
  have hbound : (2 : ℚ) * 2 ^ 1024 ≤ n := by exact_mod_cast h
  have hover : (2 : ℚ) ^ 1024 ≤ nearest n := le_nearest (one_le_pow₀ one_le_two) hbound
  unfold ofNat
  rw [if_neg (not_lt.mpr hover)]

end DurableAgent.Library.Binary64
