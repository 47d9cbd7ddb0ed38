import Mathlib.Algebra.Order.Floor.Ring
import Mathlib.Data.Int.Log
import Mathlib.Data.Rat.Floor
import Mathlib.Tactic.Linarith
import Mathlib.Tactic.Positivity
import Mathlib.Tactic.Ring

/-! # Binary formats with a bounded significand

A number of the format is an integer of at most `p` bits times a power of two, the power no
smaller than a bound; there is no largest number. Every rational is rounded to the nearest
number, of two that are equally near to the even one.
-/
namespace Rounding

/-- The nearest integer, the even one of two. -/
def nearestEven (q : ℚ) : ℤ :=
  let k := ⌊q⌋
  if q - k < 1 / 2 then k else if 1 / 2 < q - k then k + 1 else if k % 2 = 0 then k else k + 1

theorem nearestEven_intCast (k : ℤ) : nearestEven k = k := by
  simp [nearestEven]

theorem floor_le_nearestEven (q : ℚ) : ⌊q⌋ ≤ nearestEven q := by
  unfold nearestEven
  dsimp only
  split_ifs <;> omega

theorem nearestEven_le_succ (q : ℚ) : nearestEven q ≤ ⌊q⌋ + 1 := by
  unfold nearestEven
  dsimp only
  split_ifs <;> omega

theorem nearestEven_mono {a b : ℚ} (h : a ≤ b) : nearestEven a ≤ nearestEven b := by
  rcases (Int.floor_le_floor h).lt_or_eq with hlt | heq
  · exact (nearestEven_le_succ a).trans ((Int.add_one_le_of_lt hlt).trans (floor_le_nearestEven b))
  · unfold nearestEven
    dsimp only
    rw [← heq]
    split_ifs <;> first | omega | linarith

theorem nearestEven_neg (q : ℚ) : nearestEven (-q) = -nearestEven q := by
  by_cases hinteger : q = ⌊q⌋
  · generalize ⌊q⌋ = k at hinteger
    subst hinteger
    rw [← Int.cast_neg,nearestEven_intCast,nearestEven_intCast]
  · have hbelow : (⌊q⌋ : ℚ) < q := lt_of_le_of_ne (Int.floor_le q) (Ne.symm hinteger)
    have habove := Int.lt_floor_add_one q
    have hfloor : ⌊-q⌋ = -⌊q⌋ - 1 := by
      rw [Int.floor_eq_iff]
      push_cast
      constructor <;> linarith
    unfold nearestEven
    dsimp only
    rw [hfloor]
    push_cast
    -- the two fractions add up to one
    split_ifs <;> first | omega | (exfalso; linarith)

/-! ## Numbers of a format -/

/-- The exponent of the last bit of the significand. -/
def lastBit (p : ℕ) (low : ℤ) (q : ℚ) : ℤ := max (Int.log 2 |q| - (p - 1)) low

/-- Rounding to `p` bits with the last bit no lower than `low`. -/
def toFormat (p : ℕ) (low : ℤ) (q : ℚ) : ℚ := nearestEven (q / 2 ^ lastBit p low q) * 2 ^ lastBit p low q

variable {p : ℕ} {low : ℤ}

theorem lastBit_pos (q : ℚ) : (0 : ℚ) < 2 ^ lastBit p low q := zpow_pos (by norm_num) _

theorem toFormat_zero : toFormat p low 0 = 0 := by
  simp [toFormat,nearestEven]

theorem toFormat_neg (q : ℚ) : toFormat p low (-q) = -toFormat p low q := by
  unfold toFormat lastBit
  rw [abs_neg,neg_div,nearestEven_neg]
  push_cast
  ring

theorem toFormat_nonneg {q : ℚ} (h : 0 ≤ q) : 0 ≤ toFormat p low q := by
  have hinteger : 0 ≤ nearestEven (q / 2 ^ lastBit p low q) :=
    (Int.floor_nonneg.mpr (div_nonneg h (lastBit_pos q).le)).trans (floor_le_nearestEven _)
  exact mul_nonneg (Int.cast_nonneg hinteger) (lastBit_pos q).le

theorem toFormat_of_multiple {q : ℚ} {m : ℤ} (h : q = m * 2 ^ lastBit p low q) : toFormat p low q = q := by
  have hdiv : q / 2 ^ lastBit p low q = m := by
    rw [div_eq_iff (lastBit_pos q).ne']
    exact h
  unfold toFormat
  rw [hdiv,nearestEven_intCast]
  exact h.symm

/-- With the same last bit rounding is monotone. -/
theorem toFormat_le_of_lastBit_eq {a b : ℚ} (h : a ≤ b) (hbit : lastBit p low a = lastBit p low b) :
    toFormat p low a ≤ toFormat p low b := by
  unfold toFormat
  rw [hbit]
  refine mul_le_mul_of_nonneg_right (Int.cast_le.mpr (nearestEven_mono ?_)) (lastBit_pos b).le
  exact div_le_div_of_nonneg_right h (lastBit_pos b).le

theorem toFormat_le_of_multiple {q c : ℚ} (h : q ≤ c) {m : ℤ} (hc : c = m * 2 ^ lastBit p low q) :
    toFormat p low q ≤ c := by
  have hdiv : q / 2 ^ lastBit p low q ≤ m := by
    rw [div_le_iff₀ (lastBit_pos q),← hc]
    exact h
  have hinteger := nearestEven_mono hdiv
  rw [nearestEven_intCast] at hinteger
  rw [hc]
  exact mul_le_mul_of_nonneg_right (Int.cast_le.mpr hinteger) (lastBit_pos q).le

theorem le_toFormat_of_multiple {q c : ℚ} (h : c ≤ q) {m : ℤ} (hc : c = m * 2 ^ lastBit p low q) :
    c ≤ toFormat p low q := by
  have hdiv : (m : ℚ) ≤ q / 2 ^ lastBit p low q := by
    rw [le_div_iff₀ (lastBit_pos q),← hc]
    exact h
  have hinteger := nearestEven_mono hdiv
  rw [nearestEven_intCast] at hinteger
  rw [hc]
  exact mul_le_mul_of_nonneg_right (Int.cast_le.mpr hinteger) (lastBit_pos q).le

theorem zpow_multiple {n e : ℤ} (h : e ≤ n) : ∃ m : ℤ, (2 : ℚ) ^ n = m * 2 ^ e := by
  refine ⟨2 ^ (n - e).toNat,?_⟩
  have hnat : (((2 ^ (n - e).toNat : ℤ)) : ℚ) = 2 ^ (n - e) := by
    rw [Int.cast_pow,Int.cast_ofNat,← zpow_natCast,Int.toNat_of_nonneg (Int.sub_nonneg_of_le h)]
  rw [hnat,← zpow_add₀ (by norm_num),Int.sub_add_cancel]

theorem lastBit_mono {a b : ℚ} (ha : 0 < a) (h : a ≤ b) : lastBit p low a ≤ lastBit p low b := by
  unfold lastBit
  rw [abs_of_pos ha,abs_of_pos (ha.trans_le h)]
  have hlog := Int.log_mono_right (b := 2) ha h
  omega

/-- The power of two between two numbers with different last bits keeps them apart. -/
theorem toFormat_le_of_lastBit_lt (hp : 0 < p) {a b : ℚ} (ha : 0 < a) (h : a ≤ b)
    (hbit : lastBit p low a < lastBit p low b) : toFormat p low a ≤ toFormat p low b := by
  have hb := ha.trans_le h
  have hlog : Int.log 2 a < Int.log 2 b ∧ lastBit p low b = Int.log 2 b - (p - 1) := by
    unfold lastBit at hbit ⊢
    rw [abs_of_pos ha,abs_of_pos hb] at hbit
    rw [abs_of_pos hb]
    omega
  have habove : a ≤ 2 ^ Int.log 2 b := ((Int.lt_zpow_iff_log_lt (b := 2) (by norm_num) ha).mpr hlog.1).le
  have hbelow : (2 : ℚ) ^ Int.log 2 b ≤ b := Int.zpow_log_le_self (by norm_num) hb
  have hbits : lastBit p low b ≤ Int.log 2 b := by omega
  obtain ⟨m,hm⟩ := zpow_multiple (hbit.le.trans hbits)
  obtain ⟨n,hn⟩ := zpow_multiple hbits
  exact (toFormat_le_of_multiple habove hm).trans (le_toFormat_of_multiple hbelow hn)

theorem toFormat_le_of_nonneg (hp : 0 < p) {a b : ℚ} (ha : 0 ≤ a) (h : a ≤ b) : toFormat p low a ≤ toFormat p low b := by
  rcases ha.eq_or_lt with rfl | ha
  · rw [toFormat_zero]
    exact toFormat_nonneg h
  · have hbit : lastBit p low a ≤ lastBit p low b := lastBit_mono ha h
    rcases hbit.eq_or_lt with heq | hlt
    · exact toFormat_le_of_lastBit_eq h heq
    · exact toFormat_le_of_lastBit_lt hp ha h hlt

theorem toFormat_mono (hp : 0 < p) : Monotone (toFormat p low) := by
  intro a b h
  rcases le_total 0 a with ha | ha
  · exact toFormat_le_of_nonneg hp ha h
  · rcases le_total 0 b with hb | hb
    · have hleft : 0 ≤ toFormat p low (-a) := toFormat_nonneg (neg_nonneg.mpr ha)
      rw [toFormat_neg] at hleft
      exact (neg_nonneg.mp hleft).trans (toFormat_nonneg hb)
    · have hflip : toFormat p low (-b) ≤ toFormat p low (-a) :=
        toFormat_le_of_nonneg hp (neg_nonneg.mpr hb) (neg_le_neg h)
      rw [toFormat_neg,toFormat_neg] at hflip
      exact neg_le_neg_iff.mp hflip

/-- The numbers of the format are kept. -/
theorem toFormat_dyadic {m : ℤ} {k : ℕ} (hm : |m| < 2 ^ p) (hk : low ≤ -k) :
    toFormat p low (m / 2 ^ k) = m / 2 ^ k := by
  rcases eq_or_ne m 0 with rfl | hne
  · rw [Int.cast_zero,zero_div,toFormat_zero]
  · have hvalue : (m : ℚ) / 2 ^ k = m * 2 ^ (-(k : ℤ)) := by
      rw [zpow_neg,zpow_natCast,div_eq_mul_inv]
    have hbit : lastBit p low (m / 2 ^ k) ≤ -k := by
      have hpos : (0 : ℚ) < |(m : ℚ) / 2 ^ k| := by
        rw [hvalue,abs_pos]
        exact mul_ne_zero (Int.cast_ne_zero.mpr hne) (zpow_pos (by norm_num) _).ne'
      have hsmall : |(m : ℚ) / 2 ^ k| < 2 ^ ((p : ℤ) - k) := by
        rw [hvalue,abs_mul,abs_of_pos (zpow_pos (by norm_num : (0 : ℚ) < 2) _),sub_eq_add_neg,zpow_add₀ (by norm_num),
          zpow_natCast]
        exact mul_lt_mul_of_pos_right (by exact_mod_cast hm) (zpow_pos (by norm_num) _)
      have hlog : Int.log 2 |(m : ℚ) / 2 ^ k| < p - k :=
        (Int.lt_zpow_iff_log_lt (b := 2) (by norm_num) hpos).mp (by rw [Nat.cast_ofNat]; exact hsmall)
      unfold lastBit
      omega
    obtain ⟨n,hn⟩ := zpow_multiple hbit
    refine toFormat_of_multiple (m := m * n) ?_
    rw [Int.cast_mul,mul_assoc,← hn,← hvalue]

end Rounding
