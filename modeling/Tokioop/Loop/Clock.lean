import Mathlib.Algebra.Order.Field.Rat
import Mathlib.Data.Int.Log
import Mathlib.Data.Rat.Floor
import Mathlib.Tactic.Common
import Mathlib.Tactic.Linarith
import Mathlib.Tactic.Positivity

/-!
Loop time: the floats of deadlines and the durations of parks.

A deadline is whatever `float` Python passed in, so the infinities and NaN
are part of the type; a finite value is a rational. Comparison is IEEE comparison,
under which NaN is unordered, and a sum or a difference is rounded to the
nearest double, ties to even. A `Duration` counts
nanoseconds, and the conversion from seconds has no answer exactly where
`Duration::from_secs_f64` panics.
-/

namespace Tokioop.Loop

/-- Round to the nearest integer, ties to even. -/
def roundTiesEven (q : ℚ) : Int :=
  if q - q.floor < 1 / 2 then q.floor
  else if q - q.floor = 1 / 2 ∧ q.floor % 2 = 0 then q.floor
  else q.floor + 1

inductive F64
  | nan
  | negInf
  | fin (q : ℚ)
  | posInf
  deriving DecidableEq

namespace F64

def partialCmp : F64 → F64 → Option Ordering
  | nan, _ => none
  | _, nan => none
  | negInf, negInf => some .eq
  | negInf, _ => some .lt
  | _, negInf => some .gt
  | posInf, posInf => some .eq
  | posInf, _ => some .gt
  | _, posInf => some .lt
  | fin a, fin b => some (if a < b then .lt else if a = b then .eq else .gt)

def le (a b : F64) : Bool :=
  match partialCmp a b with
  | some .lt | some .eq => true
  | _ => false

/-- The exponent of the last of the 53 binary places of a double next to `q`. -/
def lastPlace (q : ℚ) : ℤ := max (Int.log 2 |q| - 52) (-1074)

/-- The nearest multiple of the last place. -/
def nearest (q : ℚ) : ℚ := roundTiesEven (q / 2 ^ lastPlace q) * 2 ^ lastPlace q

def round (q : ℚ) : F64 :=
  if 2 ^ 1024 ≤ nearest q then posInf
  else if nearest q ≤ -2 ^ 1024 then negInf
  else fin (nearest q)

def add : F64 → F64 → F64
  | fin a, fin b => round (a + b)
  | nan, _ | _, nan => nan
  | posInf, negInf | negInf, posInf => nan
  | posInf, _ | _, posInf => posInf
  | negInf, _ | _, negInf => negInf

def sub : F64 → ℚ → F64
  | fin a, b => round (a - b)
  | nan, _ => nan
  | posInf, _ => posInf
  | negInf, _ => negInf

@[simp] theorem le_fin (a b : ℚ) : (fin a).le (fin b) = decide (a ≤ b) := by
  unfold le partialCmp
  rcases lt_trichotomy a b with h | h | h
  · simp [h, h.le]
  · simp [h]
  · simp [h.not_gt, h.ne', not_le.mpr h]

@[simp] theorem le_posInf_fin (b : ℚ) : posInf.le (fin b) = false := rfl
@[simp] theorem le_negInf_fin (b : ℚ) : negInf.le (fin b) = true := rfl
@[simp] theorem le_nan (b : F64) : nan.le b = false := by cases b <;> rfl

end F64

/-! ### Rounding -/

theorem roundTiesEven_le {q : ℚ} {n : ℤ} (h : q ≤ n) : roundTiesEven q ≤ n := by
  have hfloor : q.floor ≤ n := by
    refine Int.lt_add_one_iff.mp (Rat.floor_lt_iff.mpr ?_)
    push_cast
    linarith
  have hup : q.floor = n → q - q.floor < 1 / 2 := by
    intro heq
    rw [heq]
    linarith
  unfold roundTiesEven
  split_ifs with hlow htie
  · exact hfloor
  · exact hfloor
  · have hne : q.floor ≠ n := fun heq => hlow (hup heq)
    omega

theorem le_roundTiesEven {q : ℚ} {n : ℤ} (h : n ≤ q) : n ≤ roundTiesEven q := by
  have hfloor : n ≤ q.floor := Int.le_floor.mpr h
  unfold roundTiesEven
  split_ifs <;> omega

namespace F64

variable {q : ℚ}

theorem pow_lastPlace_pos (q : ℚ) : (0 : ℚ) < 2 ^ lastPlace q := zpow_pos two_pos _

theorem nearest_nonpos (h : q ≤ 0) : nearest q ≤ 0 := by
  have hpos := pow_lastPlace_pos q
  have hle : roundTiesEven (q / 2 ^ lastPlace q) ≤ 0 :=
    roundTiesEven_le (by simpa using div_nonpos_of_nonpos_of_nonneg h hpos.le)
  exact mul_nonpos_of_nonpos_of_nonneg (by exact_mod_cast hle) hpos.le

theorem nearest_nonneg (h : 0 ≤ q) : 0 ≤ nearest q := by
  have hpos := pow_lastPlace_pos q
  have hle : 0 ≤ roundTiesEven (q / 2 ^ lastPlace q) :=
    le_roundTiesEven (by simpa using div_nonneg h hpos.le)
  exact mul_nonneg (by exact_mod_cast hle) hpos.le

/-- What is not above a multiple of the last place is not rounded above it. -/
theorem nearest_le {n : ℤ} (h : q ≤ n * 2 ^ lastPlace q) :
    nearest q ≤ n * 2 ^ lastPlace q := by
  have hpos := pow_lastPlace_pos q
  have hle := roundTiesEven_le ((div_le_iff₀ hpos).mpr h)
  exact mul_le_mul_of_nonneg_right (by exact_mod_cast hle) hpos.le

theorem le_nearest {n : ℤ} (h : n * 2 ^ lastPlace q ≤ q) :
    n * 2 ^ lastPlace q ≤ nearest q := by
  have hpos := pow_lastPlace_pos q
  have hle := le_roundTiesEven ((le_div_iff₀ hpos).mpr h)
  exact mul_le_mul_of_nonneg_right (by exact_mod_cast hle) hpos.le

theorem log_of_between {e : ℤ} (hlow : 2 ^ e ≤ q) (hhigh : q < 2 ^ (e + 1)) :
    Int.log 2 |q| = e := by
  have hpos : 0 < q := lt_of_lt_of_le (zpow_pos two_pos _) hlow
  rw [abs_of_pos hpos]
  have hle : e ≤ Int.log 2 q := (Int.zpow_le_iff_le_log one_lt_two hpos).mp (by exact_mod_cast hlow)
  have hlt : Int.log 2 q < e + 1 :=
    (Int.lt_zpow_iff_log_lt one_lt_two hpos).mp (by exact_mod_cast hhigh)
  omega

/-- Below the last double that a `Duration` can hold. -/
theorem nearest_lt_of_small (h₀ : 0 < q) (h : q < 2 ^ 63) : nearest q < 2 ^ 64 := by
  have hlog : Int.log 2 |q| < 63 := by
    rw [abs_of_pos h₀]
    exact (Int.lt_zpow_iff_log_lt one_lt_two h₀).mp (by exact_mod_cast h)
  have hplace : lastPlace q ≤ 63 := by
    unfold lastPlace
    omega
  obtain ⟨k, hk⟩ := Int.eq_ofNat_of_zero_le (show 0 ≤ 63 - lastPlace q by omega)
  have hpow : ((2 ^ k : ℤ) : ℚ) * 2 ^ lastPlace q = 2 ^ 63 := by
    push_cast
    rw [← zpow_natCast, ← zpow_add₀ (by norm_num), show (k : ℤ) + lastPlace q = 63 by omega]
    norm_num
  have hle := nearest_le (q := q) (n := 2 ^ k) (by rw [hpow]; exact h.le)
  rw [hpow] at hle
  exact lt_of_le_of_lt hle (by norm_num)

theorem le_nearest_of_large (h : 2 ^ 64 ≤ q) : 2 ^ 64 ≤ nearest q := by
  have hpos : 0 < q := lt_of_lt_of_le (by positivity) h
  have hlog : 64 ≤ Int.log 2 |q| := by
    rw [abs_of_pos hpos]
    exact (Int.zpow_le_iff_le_log one_lt_two hpos).mp (by exact_mod_cast h)
  have hplace : lastPlace q = Int.log 2 |q| - 52 := by
    unfold lastPlace
    omega
  have hpow : ((2 ^ 52 : ℤ) : ℚ) * 2 ^ lastPlace q = 2 ^ Int.log 2 |q| := by
    rw [Int.cast_pow, Int.cast_ofNat, ← zpow_natCast, ← zpow_add₀ two_ne_zero, hplace]
    congr 1
    omega
  have hself : (2 : ℚ) ^ Int.log 2 |q| ≤ q := by
    rw [abs_of_pos hpos]
    exact_mod_cast Int.zpow_log_le_self one_lt_two hpos
  have hle := le_nearest (q := q) (n := 2 ^ 52) (by rw [hpow]; exact hself)
  rw [hpow] at hle
  refine le_trans ?_ hle
  exact_mod_cast zpow_le_zpow_right₀ (one_le_two : (1 : ℚ) ≤ 2) hlog

/-- The last double before `2 ^ 64` is `2 ^ 11` below, and half way to it is rounded up. -/
theorem nearest_lt_iff_between (hlow : 2 ^ 63 ≤ q) (hhigh : q < 2 ^ 64) :
    nearest q < 2 ^ 64 ↔ q < 2 ^ 64 - 2 ^ 10 := by
  have hplace : lastPlace q = 11 := by
    rw [lastPlace, log_of_between (e := 63) (by exact_mod_cast hlow) (by exact_mod_cast hhigh)]
    rfl
  have hnearest : nearest q = roundTiesEven (q / 2 ^ 11) * 2 ^ 11 := by
    rw [nearest, hplace]
    rfl
  have hfloor : ((q / 2 ^ 11).floor : ℚ) ≤ q / 2 ^ 11 := Rat.floor_le _
  have hless : (q / 2 ^ 11).floor < 2 ^ 53 := by
    refine Rat.floor_lt_iff.mpr ?_
    push_cast
    linarith
  rw [hnearest]
  constructor
  · intro hlt
    have hround : roundTiesEven (q / 2 ^ 11) < 2 ^ 53 := by
      have : (roundTiesEven (q / 2 ^ 11) : ℚ) < 2 ^ 53 := by linarith
      exact_mod_cast this
    by_contra hno
    rw [not_lt] at hno
    have hlast : (q / 2 ^ 11).floor = 2 ^ 53 - 1 := by
      have : 2 ^ 53 - 1 ≤ (q / 2 ^ 11).floor := by
        refine Rat.le_floor_iff.mpr ?_
        push_cast
        linarith
      omega
    have hhalf : 1 / 2 ≤ q / 2 ^ 11 - ((q / 2 ^ 11).floor : ℚ) := by
      rw [hlast]
      push_cast
      linarith
    unfold roundTiesEven at hround
    rw [if_neg (not_lt.mpr hhalf), if_neg (by rw [hlast]; norm_num), hlast] at hround
    norm_num at hround
  · intro hlt
    have hround : roundTiesEven (q / 2 ^ 11) ≤ 2 ^ 53 - 1 := by
      by_cases hlast : (q / 2 ^ 11).floor = 2 ^ 53 - 1
      · have hhalf : q / 2 ^ 11 - ((q / 2 ^ 11).floor : ℚ) < 1 / 2 := by
          rw [hlast]
          push_cast
          linarith
        rw [roundTiesEven, if_pos hhalf, hlast]
      · unfold roundTiesEven
        split_ifs <;> omega
    have : (roundTiesEven (q / 2 ^ 11) : ℚ) ≤ 2 ^ 53 - 1 := by exact_mod_cast hround
    linarith

/-- **The largest distance that is not rounded beyond a `Duration`.** -/
theorem nearest_lt_iff (h₀ : 0 < q) : nearest q < 2 ^ 64 ↔ q < 2 ^ 64 - 2 ^ 10 := by
  rcases lt_or_ge q (2 ^ 63) with hsmall | hlow
  · exact iff_of_true (nearest_lt_of_small h₀ hsmall) (by linarith)
  · rcases lt_or_ge q (2 ^ 64) with hhigh | hlarge
    · exact nearest_lt_iff_between hlow hhigh
    · exact iff_of_false (not_lt.mpr (le_nearest_of_large hlarge)) (by linarith)

example : nearest (2 ^ 64 - 1) = 2 ^ 64 ∧ nearest (2 ^ 64 - 2 ^ 10 - 1) = 2 ^ 64 - 2 ^ 11 := by
  decide +kernel

@[simp] theorem round_ne_nan (q : ℚ) : round q ≠ nan := by
  unfold round
  split_ifs <;> simp

theorem round_le_zero (h : q ≤ 0) : (round q).le (fin 0) = true := by
  have hle := nearest_nonpos h
  have hpow : (0 : ℚ) < 2 ^ 1024 := by positivity
  unfold round
  rw [if_neg (not_le.mpr (lt_of_le_of_lt hle hpow))]
  split_ifs
  · rfl
  · rw [le_fin, decide_eq_true_eq]
    exact hle

end F64

/-! ### Durations -/

/-- A `std::time::Duration`, in nanoseconds. -/
abbrev Duration := Nat

def nanosPerSec : ℚ := 1000000000

/-- `Duration::from_secs_f64`, with `none` for its panic: on negative,
non-finite and overflowing inputs. -/
def fromSecsF64 : F64 → Option Duration
  | .fin q =>
      if q < 0 ∨ 2 ^ 64 ≤ q then none else some (roundTiesEven (q * nanosPerSec)).toNat
  | _ => none

end Tokioop.Loop
