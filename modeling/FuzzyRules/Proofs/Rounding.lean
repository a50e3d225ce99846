import FuzzyRules.Double.Decimal
import Mathlib.Algebra.Group.Int.Defs
import Mathlib.Algebra.Group.Nat.Defs

/-!
# Rounding to magnitudes

The magnitude nearest to a fraction depends on the fraction only and not on how it is
written (`Magnitude.ofRatio_congr`), the shortcuts of `Magnitude.ofScaled` agree with it
(`Magnitude.ofScaled_eq_ofRatio`), and a magnitude is the one nearest to its own units
(`Magnitude.ofUnits_units`). So the shortest decimal reads back. Rounding is monotone
(`Magnitude.rank_ofUnits_mono`), and so are units in the rank.
-/

namespace FuzzyRules

/-! ## The nearest natural number -/

theorem nearestEven_mul {k : Nat} (hk : 0 < k) (num den : Nat) :
    nearestEven (k * num) (k * den) = nearestEven num den := by
  have hlt (a b : Nat) : 2 * (k * a) < k * b ↔ 2 * a < b := by
    rw [Nat.mul_left_comm]; exact Nat.mul_lt_mul_left hk
  have hgt (a b : Nat) : k * b < 2 * (k * a) ↔ b < 2 * a := by
    rw [Nat.mul_left_comm]; exact Nat.mul_lt_mul_left hk
  unfold nearestEven
  simp only [Nat.mul_div_mul_left _ _ hk, Nat.mul_mod_mul_left, hlt, hgt]

theorem nearestEven_mul_self {den : Nat} (hd : 0 < den) (q : Nat) :
    nearestEven (q * den) den = q := by
  unfold nearestEven
  simp only [Nat.mul_div_cancel _ hd, Nat.mul_mod_left, Nat.mul_zero, hd, if_true]

theorem nearestEven_of_lt {num den : Nat} (h : 2 * num < den) : nearestEven num den = 0 := by
  unfold nearestEven
  simp only [Nat.div_eq_of_lt (show num < den by omega), Nat.mod_eq_of_lt (show num < den by omega),
    h, if_true]

theorem nearestEven_eq_or (num den : Nat) :
    nearestEven num den = num / den ∨ nearestEven num den = num / den + 1 := by
  unfold nearestEven
  simp only
  split
  · exact .inl rfl
  · split
    · exact .inr rfl
    · omega

theorem nearestEven_le_nearestEven {a b : Nat} (h : a ≤ b) (den : Nat) :
    nearestEven a den ≤ nearestEven b den := by
  have hdiv : a / den ≤ b / den := Nat.div_le_div_right h
  rcases Nat.lt_or_eq_of_le hdiv with hlt | heq
  · have ha := nearestEven_eq_or a den
    have hb := nearestEven_eq_or b den
    omega
  · -- the same quotient, so that the remainders decide
    have hmod : a % den ≤ b % den := by
      have ha := Nat.div_add_mod a den
      have hb := Nat.div_add_mod b den
      rw [heq] at ha
      omega
    unfold nearestEven
    simp only [heq]
    repeat' split
    all_goals omega

namespace Magnitude

theorem ext_rank {m n : Magnitude} (h : m.rank = n.rank) : m = n := by
  cases m; cases n; cases h; rfl

theorem ofRank_rank (m : Magnitude) : ofRank m.rank = m :=
  ext_rank (Nat.min_eq_left m.rank_le)

theorem ofRank_of_le {rank : Nat} (h : infiniteRank ≤ rank) : ofRank rank = infinite :=
  ext_rank (by simp [ofRank, infinite, Nat.min_eq_right h])

/-! ## Powers in the definitions -/

theorem infiniteRank_eq : infiniteRank = 2047 * 2 ^ 52 := rfl

theorem scale_eq (m : Magnitude) : m.scale = m.rank / 2 ^ 52 - 1 := rfl

theorem units_eq (m : Magnitude) : m.units = (m.rank - m.scale * 2 ^ 52) * 2 ^ m.scale := rfl

theorem ofUnits_eq (num den : Nat) :
    ofUnits num den = ofRank (((num / den).log2 - 52) * 2 ^ 52 +
      nearestEven num (den * 2 ^ ((num / den).log2 - 52))) := rfl

theorem ofRatio_eq (num den : Nat) : ofRatio num den = ofUnits (num * 2 ^ 1074) den := rfl

/-! ## Fractions -/

theorem ofUnits_mul {k : Nat} (hk : 0 < k) (num den : Nat) :
    ofUnits (k * num) (k * den) = ofUnits num den := by
  simp only [ofUnits_eq, Nat.mul_div_mul_left _ _ hk, Nat.mul_assoc, nearestEven_mul hk]

theorem ofRatio_mul {k : Nat} (hk : 0 < k) (num den : Nat) :
    ofRatio (k * num) (k * den) = ofRatio num den := by
  rw [ofRatio_eq, Nat.mul_assoc, ofUnits_mul hk, ofRatio_eq]

/-- Equal fractions round to the same magnitude. -/
theorem ofRatio_congr {a b c d : Nat} (hb : 0 < b) (hd : 0 < d) (h : a * d = c * b) :
    ofRatio a b = ofRatio c d := by
  rw [← ofRatio_mul hd a b, ← ofRatio_mul hb c d, Nat.mul_comm d a, Nat.mul_comm b c, h,
    Nat.mul_comm d b]

theorem ofUnits_of_two_mul_lt {num den : Nat} (h : 2 * num < den) : ofUnits num den = zero := by
  have hdiv : num / den = 0 := Nat.div_eq_of_lt (by omega)
  simp only [ofUnits_eq, hdiv, Nat.log2_zero, Nat.zero_sub, Nat.pow_zero, Nat.mul_one, Nat.zero_mul,
    nearestEven_of_lt h]
  rfl

theorem ofUnits_of_pow_le {num den k : Nat} (hk : 2099 ≤ k) (h : 2 ^ k ≤ num / den) :
    ofUnits num den = infinite := by
  have hne : num / den ≠ 0 := Nat.ne_of_gt (Nat.lt_of_lt_of_le (Nat.two_pow_pos _) h)
  have hlog : k ≤ (num / den).log2 := (Nat.le_log2 hne).mpr h
  refine ofRank_of_le ?_
  calc infiniteRank ≤ ((num / den).log2 - 52) * 2 ^ 52 := by rw [infiniteRank_eq]; omega
    _ ≤ _ := Nat.le_add_right ..

theorem ofRatio_zero {den : Nat} (hd : 0 < den) : ofRatio 0 den = zero := by
  simp only [ofRatio_eq, Nat.zero_mul]
  exact ofUnits_of_two_mul_lt hd

theorem ofRatio_of_pow_le {num k : Nat} (hk : 1025 ≤ k) (h : 2 ^ k ≤ num) :
    ofRatio num 1 = infinite := by
  rw [ofRatio_eq]
  refine ofUnits_of_pow_le (k := k + 1074) (by omega) ?_
  rw [Nat.div_one, Nat.pow_add]
  exact Nat.mul_le_mul_right _ h

theorem two_mul_mul_pow_lt (n k : Nat) : 2 * (n * 2 ^ k) < 2 ^ (n.log2 + k + 2) := by
  calc 2 * (n * 2 ^ k) = n * 2 ^ (k + 1) := by rw [Nat.pow_succ]; ac_rfl
    _ < 2 ^ (n.log2 + 1) * 2 ^ (k + 1) :=
      Nat.mul_lt_mul_of_pos_right Nat.lt_log2_self (Nat.two_pow_pos _)
    _ = 2 ^ (n.log2 + k + 2) := by rw [← Nat.pow_add]; congr 1; omega

theorem ofRatio_of_pow_log2_le {num den k : Nat} (hk : num.log2 + 1076 ≤ k) (h : 2 ^ k ≤ den) :
    ofRatio num den = zero := by
  have hpow : 2 ^ (num.log2 + 1074 + 2) ≤ 2 ^ k := Nat.pow_le_pow_right (by omega) hk
  exact ofUnits_of_two_mul_lt
    (Nat.lt_of_lt_of_le (two_mul_mul_pow_lt num 1074) (Nat.le_trans hpow h))

/-- The power of the base is cut off only where rounding has decided. -/
theorem ofScaled_eq_ofRatio {base : Nat} (hb : 2 ≤ base) (c : Nat) (e : Int) :
    ofScaled base c e = ofRatio (c * base ^ e.toNat) (base ^ (-e).toNat) := by
  have hpow (n : Nat) : 2 ^ n ≤ base ^ n := Nat.pow_le_pow_left hb n
  have hpos (n : Nat) : 0 < base ^ n := Nat.pow_pos (by omega)
  unfold ofScaled
  split
  · next hc => rw [hc, Nat.zero_mul, ofRatio_zero (hpos _)]
  · next hc =>
    split
    · next he =>
      rw [show (-e).toNat = 0 by omega, Nat.pow_zero]
      have hle := Nat.le_trans (hpow e.toNat) (Nat.le_mul_of_pos_left _ (Nat.pos_of_ne_zero hc))
      exact (ofRatio_of_pow_le (by omega) hle).symm
    · split
      · next he =>
        rw [show e.toNat = 0 by omega, Nat.pow_zero, Nat.mul_one]
        exact (ofRatio_of_pow_log2_le (by omega) (hpow _)).symm
      · split
        · next h0 => rw [show (-e).toNat = 0 by omega, Nat.pow_zero]; rfl
        · next h0 => rw [show e.toNat = 0 by omega, Nat.pow_zero, Nat.mul_one]; rfl

/-- A digit zero more at the end, with the exponent one less. -/
theorem ofScaled_mul_pow (c k : Nat) (e : Int) :
    ofScaled 10 (c * 10 ^ k) e = ofScaled 10 c (e + k) := by
  rw [ofScaled_eq_ofRatio (by omega), ofScaled_eq_ofRatio (by omega)]
  refine ofRatio_congr (Nat.pow_pos (by omega)) (Nat.pow_pos (by omega)) ?_
  simp only [Nat.mul_assoc, ← Nat.pow_add]
  congr 2
  omega

/-! ## Reading back -/

/-- The power of two by which a quotient is scaled down is the scale of the magnitude. -/
theorem log2_units (m : Magnitude) : m.units.log2 - 52 = m.scale := by
  by_cases h : m.rank < 2 * 2 ^ 52
  · have hscale : m.scale = 0 := by rw [scale_eq]; omega
    have hunits : m.units = m.rank := by simp [units_eq, hscale]
    have hlog : m.rank.log2 ≤ 52 := by
      by_cases h0 : m.rank = 0
      · rw [h0, Nat.log2_zero]; omega
      · exact Nat.le_of_lt_succ ((Nat.log2_lt h0).mpr (by omega))
    rw [hscale, hunits]
    omega
  · have hlow : 2 ^ 52 ≤ m.rank - m.scale * 2 ^ 52 := by rw [scale_eq]; omega
    have hhigh : m.rank - m.scale * 2 ^ 52 < 2 ^ 53 := by rw [scale_eq]; omega
    have hlog : m.units.log2 = 52 + m.scale := by
      rw [units_eq]
      have hpow : 2 ^ m.scale ≠ 0 := Nat.ne_of_gt (Nat.two_pow_pos _)
      refine (Nat.log2_eq_iff (Nat.mul_ne_zero (by omega) hpow)).mpr ⟨?_, ?_⟩
      · rw [Nat.pow_add]
        exact Nat.mul_le_mul_right _ hlow
      · rw [Nat.add_right_comm, Nat.pow_add]
        exact Nat.mul_lt_mul_of_pos_right hhigh (Nat.two_pow_pos _)
    rw [hlog]
    omega

/-- A magnitude is the one nearest to its own units. -/
theorem ofUnits_units (m : Magnitude) : ofUnits m.units 1 = m := by
  have hsplit : m.scale * 2 ^ 52 + (m.rank - m.scale * 2 ^ 52) = m.rank := by
    rw [scale_eq]; omega
  simp only [ofUnits_eq, Nat.div_one, Nat.one_mul, log2_units]
  rw [units_eq, nearestEven_mul_self (Nat.two_pow_pos _), hsplit, ofRank_rank]

/-! ## Order -/

/-- A quotient that is scaled down keeps `53` binary digits, or `54` if it is rounded up. -/
theorem nearestEven_log2_bounds {num den : Nat} (h : 52 < (num / den).log2) :
    2 ^ 52 ≤ nearestEven num (den * 2 ^ ((num / den).log2 - 52)) ∧
      nearestEven num (den * 2 ^ ((num / den).log2 - 52)) ≤ 2 ^ 53 := by
  have hround := nearestEven_eq_or num (den * 2 ^ ((num / den).log2 - 52))
  rw [← Nat.div_div_eq_div_mul] at hround
  generalize num / den = q at h hround ⊢
  have hne : q ≠ 0 := by
    rintro rfl
    rw [Nat.log2_zero] at h
    omega
  have hlow : 2 ^ 52 ≤ q / 2 ^ (q.log2 - 52) := by
    rw [Nat.le_div_iff_mul_le (Nat.two_pow_pos _), ← Nat.pow_add,
      show 52 + (q.log2 - 52) = q.log2 by omega]
    exact Nat.log2_self_le hne
  have hhigh : q / 2 ^ (q.log2 - 52) < 2 ^ 53 := by
    rw [Nat.div_lt_iff_lt_mul (Nat.two_pow_pos _), ← Nat.pow_add,
      show 53 + (q.log2 - 52) = q.log2 + 1 by omega]
    exact Nat.lt_log2_self
  omega

theorem nearestEven_log2_le (num den : Nat) :
    nearestEven num (den * 2 ^ ((num / den).log2 - 52)) ≤ 2 ^ 53 := by
  by_cases h : 52 < (num / den).log2
  · exact (nearestEven_log2_bounds h).2
  · have hlt : num / den < 2 ^ 53 :=
      Nat.lt_of_lt_of_le Nat.lt_log2_self (Nat.pow_le_pow_right (by omega) (by omega))
    have hround := nearestEven_eq_or num den
    rw [show (num / den).log2 - 52 = 0 by omega, Nat.pow_zero, Nat.mul_one]
    omega

/-- Rounding is monotone. -/
theorem rank_ofUnits_mono {a b : Nat} (h : a ≤ b) : (ofUnits a 1).rank ≤ (ofUnits b 1).rank := by
  have hlog : a.log2 ≤ b.log2 := by
    by_cases ha : a = 0
    · rw [ha, Nat.log2_zero]
      omega
    · exact (Nat.le_log2 (by omega)).mpr (Nat.le_trans (Nat.log2_self_le ha) h)
  have hrank : (a.log2 - 52) * 2 ^ 52 + nearestEven a (2 ^ (a.log2 - 52)) ≤
      (b.log2 - 52) * 2 ^ 52 + nearestEven b (2 ^ (b.log2 - 52)) := by
    by_cases hshift : a.log2 - 52 = b.log2 - 52
    · have hround := nearestEven_le_nearestEven h (2 ^ (a.log2 - 52))
      rw [← hshift]
      omega
    · -- a lower binade, whose last rank is the first one of the next binade
      have ha := nearestEven_log2_le a 1
      have hb : 2 ^ 52 ≤ nearestEven b (1 * 2 ^ ((b / 1).log2 - 52)) :=
        (nearestEven_log2_bounds (by rw [Nat.div_one]; omega)).1
      rw [Nat.div_one, Nat.one_mul] at ha hb
      omega
  simp only [ofUnits_eq, Nat.div_one, Nat.one_mul, ofRank]
  omega

theorem units_le_units {m n : Magnitude} (h : m.rank ≤ n.rank) : m.units ≤ n.units := by
  refine Nat.le_of_not_lt fun hlt => ?_
  have hrank := rank_ofUnits_mono (Nat.le_of_lt hlt)
  rw [ofUnits_units, ofUnits_units] at hrank
  obtain rfl : m = n := ext_rank (Nat.le_antisymm h hrank)
  exact Nat.lt_irrefl _ hlt

end Magnitude

namespace Decimal

theorem ofUnits_mul_pow (n k : Nat) :
    Magnitude.ofUnits (n * 5 ^ k * 2 ^ k) (10 ^ k) = .ofUnits n 1 := by
  have hnum : n * 5 ^ k * 2 ^ k = 10 ^ k * n := by
    rw [Nat.mul_assoc, ← Nat.mul_pow, Nat.mul_comm]
  have hden : Magnitude.ofUnits (10 ^ k * n) (10 ^ k * 1) = .ofUnits n 1 :=
    Magnitude.ofUnits_mul (Nat.pow_pos (by omega)) n 1
  rw [hnum, ← hden, Nat.mul_one]

theorem toMagnitude_exact (m : Magnitude) : (exact m).toMagnitude = m := by
  have h : Magnitude.ofScaled 10 (m.units * 5 ^ 1074) (-1074) =
      .ofUnits (m.units * 5 ^ 1074 * 10 ^ 0 * 2 ^ 1074) (10 ^ 1074) :=
    Magnitude.ofScaled_eq_ofRatio (by omega) ..
  rw [Nat.pow_zero, Nat.mul_one, ofUnits_mul_pow, Magnitude.ofUnits_units] at h
  exact h

theorem toMagnitude_of_neighbour? {m : Magnitude} {digits step : Nat} {exponent : Int}
    {d : Decimal} (h : neighbour? m digits step exponent = some d) : d.toMagnitude = m := by
  unfold neighbour? at h
  simp only at h
  split at h
  · next hbelow habove =>
    cases h
    rcases nearestEven_eq_or digits step with hn | hn
    · rw [hn]; exact of_decide_eq_true hbelow
    · rw [hn]; exact of_decide_eq_true habove
  · next hbelow _ => cases h; exact of_decide_eq_true hbelow
  · next _ habove => cases h; exact of_decide_eq_true habove
  · cases h

/-- The shortest decimal reads back. -/
theorem toMagnitude_shortest (m : Magnitude) : (shortest m).toMagnitude = m := by
  unfold shortest
  simp only
  cases h : (List.range' 1 17).findSome?
      (onGrid? m (Nat.toDigits 10 (exact m).coefficient).length) with
  | none => exact toMagnitude_exact m
  | some d =>
    obtain ⟨size, -, hsize⟩ := List.exists_of_findSome?_eq_some h
    exact toMagnitude_of_neighbour? hsize

end Decimal

end FuzzyRules
