import FuzzyRules.Proofs.Rounding
import Mathlib.Data.Rat.Cast.Order
import Mathlib.Tactic.FieldSimp
import Mathlib.Tactic.Linarith
import Mathlib.Tactic.Positivity

/-!
# Nearest magnitudes

The value of a magnitude is a rational number (`Magnitude.toRat`), where the infinite magnitude
stands at `2 ^ 1024`, the value that would come next (`toRat_infinite`). A magnitude is nearest to a
number if no other one is nearer, and of two that are as near it is the one of even rank
(`Magnitude.IsNearest`). There is no more than one (`IsNearest.eq`), and rounding finds it
(`isNearest_ofRatio`, `isNearest_ofScaled`).
-/

namespace FuzzyRules

/-! ## The nearest natural number -/

/-- Down to the quotient or up to the next number, whichever is nearer or else even. -/
theorem nearestEven_cases (num den : Nat) :
    nearestEven num den = num / den ∧
        (2 * (num % den) < den ∨ 2 * (num % den) = den ∧ num / den % 2 = 0) ∨
      nearestEven num den = num / den + 1 ∧
        (den < 2 * (num % den) ∨ 2 * (num % den) = den ∧ num / den % 2 = 1) := by
  unfold nearestEven
  simp only
  split
  · omega
  · split <;> omega

/-- How far `k` times `den` is from `num`. -/
def gap (num den k : Nat) : Nat := ((k * den : Nat) - (num : Int)).natAbs

/-- No multiple is nearer than the one that is rounded to, and if another one is as near, the one
that is rounded to is even. -/
theorem gap_nearestEven {num den k : Nat} (hd : 0 < den) (hk : k ≠ nearestEven num den) :
    gap num den (nearestEven num den) < gap num den k ∨
      gap num den (nearestEven num den) = gap num den k ∧ nearestEven num den % 2 = 0 := by
  have hsplit : num / den * den + num % den = num := by
    rw [Nat.mul_comm]
    exact Nat.div_add_mod num den
  have hrest := Nat.mod_lt num hd
  have hnext : (num / den + 1) * den = num / den * den + den := Nat.succ_mul ..
  -- `k` is the quotient, the next number, or beyond one of them
  have hside : k * den + den ≤ num / den * den ∨ k = num / den ∨ k = num / den + 1 ∨
      num / den * den + 2 * den ≤ k * den := by
    rcases Nat.lt_or_ge k (num / den) with h | h
    · have hmul := Nat.mul_le_mul_right den h
      rw [Nat.succ_mul] at hmul
      exact .inl hmul
    · rcases Nat.lt_or_ge (num / den + 1) k with h' | h'
      · have hmul := Nat.mul_le_mul_right den h'
        rw [Nat.succ_mul, Nat.succ_mul] at hmul
        omega
      · omega
  unfold gap
  rcases nearestEven_cases num den with ⟨heq, hnear⟩ | ⟨heq, hnear⟩
  · rw [heq] at hk ⊢
    rcases hside with hside | rfl | rfl | hside
    · omega
    · exact absurd rfl hk
    · rw [hnext]
      omega
    · omega
  · rw [heq] at hk ⊢
    rw [hnext]
    rcases hside with hside | rfl | rfl | hside
    · omega
    · omega
    · exact absurd rfl hk
    · omega

theorem gap_nearestEven_le {num den : Nat} (hd : 0 < den) (k : Nat) :
    gap num den (nearestEven num den) ≤ gap num den k := by
  by_cases hk : k = nearestEven num den
  · rw [hk]
  · have hnear := gap_nearestEven hd hk
    omega

theorem gap_mul_pow (num den k s : Nat) : gap num den (k * 2 ^ s) = gap num (den * 2 ^ s) k := by
  unfold gap
  rw [Nat.mul_assoc, Nat.mul_comm (2 ^ s) den]

/-- Below a number, the smaller of two factors leaves more. -/
theorem gap_lt_gap {num den j k : Nat} (hd : 0 < den) (hjk : j < k) (hk : k * den ≤ num) :
    gap num den k < gap num den j := by
  have hmul : j * den < k * den := Nat.mul_lt_mul_of_pos_right hjk hd
  unfold gap
  omega

namespace Magnitude

variable {m n : Magnitude} {num den : Nat}

/-! ## Units -/

theorem eq_of_units (h : m.units = n.units) : m = n := by
  rw [← ofUnits_units m, h, ofUnits_units]

theorem units_lt_units (h : m.rank < n.rank) : m.units < n.units := by
  refine Nat.lt_of_le_of_ne (units_le_units (Nat.le_of_lt h)) fun heq => ?_
  rw [eq_of_units heq] at h
  exact Nat.lt_irrefl _ h

theorem units_eq_mul (m : Magnitude) : ∃ t, t < 2 ^ 53 ∧ m.units = t * 2 ^ m.scale := by
  refine ⟨m.rank - m.scale * 2 ^ 52, ?_, units_eq m⟩
  rw [scale_eq]
  omega

/-- The units of a lower scale are below the first ones of a scale. -/
theorem units_lt_of_scale_lt {s : Nat} (h : m.scale < s) : m.units < 2 ^ 52 * 2 ^ s := by
  obtain ⟨t, ht, hunits⟩ := m.units_eq_mul
  calc m.units = t * 2 ^ m.scale := hunits
    _ < 2 ^ 53 * 2 ^ m.scale := Nat.mul_lt_mul_of_pos_right ht (Nat.two_pow_pos _)
    _ = 2 ^ (52 + (m.scale + 1)) := by rw [← Nat.pow_add]; congr 1; omega
    _ ≤ 2 ^ (52 + s) := Nat.pow_le_pow_right (by omega) (by omega)
    _ = 2 ^ 52 * 2 ^ s := Nat.pow_add ..

/-- The units of a rank that is put together from a scale and a significand of `53` binary digits; a
significand of `54` is the first one of the next scale. -/
theorem units_of_rank {s r : Nat} (hrank : m.rank = s * 2 ^ 52 + r) (hlow : 0 < s → 2 ^ 52 ≤ r)
    (hhigh : r ≤ 2 ^ 53) : m.units = r * 2 ^ s := by
  rcases Nat.lt_or_eq_of_le hhigh with hlt | rfl
  · have hscale : m.scale = s := by
      rw [scale_eq]
      omega
    rw [units_eq, hscale, hrank, Nat.add_sub_cancel_left]
  · have hscale : m.scale = s + 1 := by
      rw [scale_eq]
      omega
    rw [units_eq, hscale, hrank, show s * 2 ^ 52 + 2 ^ 53 - (s + 1) * 2 ^ 52 = 2 ^ 52 by omega,
      ← Nat.pow_add, ← Nat.pow_add]
    congr 1
    omega

theorem rank_infinite : infinite.rank = infiniteRank := Nat.min_self infiniteRank

theorem units_infinite : infinite.units = 2 ^ 2098 := by
  have hrank : infinite.rank = 2046 * 2 ^ 52 + 2 ^ 52 := rank_infinite
  rw [units_of_rank hrank (fun _ => Nat.le_refl _) (by omega), ← Nat.pow_add]

theorem units_lt_of_ne_infinite (h : m ≠ infinite) : m.units < 2 ^ 2098 := by
  rw [← units_infinite]
  refine units_lt_units (Nat.lt_of_le_of_ne ?_ fun heq => h (ext_rank heq))
  rw [rank_infinite]
  exact m.rank_le

/-! ## Rounding -/

/-- Past the last scale everything is rounded to the infinite magnitude. -/
theorem ofUnits_of_scale (h : 2098 ≤ (num / den).log2) : ofUnits num den = infinite := by
  have hbound := (nearestEven_log2_bounds (show 52 < (num / den).log2 by omega)).1
  rw [ofUnits_eq]
  refine ofRank_of_le ?_
  rw [infiniteRank_eq]
  omega

/-- Up to the last scale the rank is put together from the scale and the rounded significand. -/
theorem rank_ofUnits (h : (num / den).log2 < 2098) :
    (ofUnits num den).rank = ((num / den).log2 - 52) * 2 ^ 52 +
      nearestEven num (den * 2 ^ ((num / den).log2 - 52)) := by
  have hbound := nearestEven_log2_le num den
  rw [ofUnits_eq]
  refine Nat.min_eq_left ?_
  rw [infiniteRank_eq]
  omega

theorem units_ofUnits (h : (num / den).log2 < 2098) :
    (ofUnits num den).units = nearestEven num (den * 2 ^ ((num / den).log2 - 52)) *
      2 ^ ((num / den).log2 - 52) := by
  refine units_of_rank (rank_ofUnits h) (fun hpos => ?_) (nearestEven_log2_le num den)
  exact (nearestEven_log2_bounds (by omega)).1

/-- No magnitude is nearer to a fraction of units than the one that is rounded to, and if another
one is as near, the one that is rounded to has an even rank. -/
theorem gap_ofUnits (hd : 0 < den) (hn : n ≠ ofUnits num den) :
    gap num den (ofUnits num den).units < gap num den n.units ∨
      gap num den (ofUnits num den).units = gap num den n.units ∧
        (ofUnits num den).rank % 2 = 0 := by
  have hpow (k : Nat) (hk : k ≤ (num / den).log2) (hne : num / den ≠ 0) : 2 ^ k * den ≤ num := by
    have hle : 2 ^ k ≤ num / den := (Nat.le_log2 hne).mp hk
    exact (Nat.le_div_iff_mul_le hd).mp hle
  by_cases hlast : 2098 ≤ (num / den).log2
  · rw [ofUnits_of_scale hlast] at hn ⊢
    rw [units_infinite]
    refine .inl (gap_lt_gap hd (units_lt_of_ne_infinite hn) (hpow 2098 hlast fun hzero => ?_))
    rw [hzero, Nat.log2_zero] at hlast
    omega
  · have hlog : (num / den).log2 < 2098 := by omega
    have hrank := rank_ofUnits hlog
    have hunits := units_ofUnits hlog
    generalize hs : (num / den).log2 - 52 = s at hrank hunits
    obtain ⟨t, ht, htunits⟩ := n.units_eq_mul
    rw [hunits, gap_mul_pow]
    by_cases hscale : s ≤ n.scale
    · -- both are multiples of `2 ^ s`
      have hmultiple : n.units = t * 2 ^ (n.scale - s) * 2 ^ s := by
        rw [htunits, Nat.mul_assoc, ← Nat.pow_add, Nat.sub_add_cancel hscale]
      have hne : t * 2 ^ (n.scale - s) ≠ nearestEven num (den * 2 ^ s) := by
        intro heq
        exact hn (eq_of_units (by rw [hmultiple, hunits, heq]))
      have hnear := gap_nearestEven (Nat.mul_pos hd (Nat.two_pow_pos s)) hne
      rw [hmultiple, gap_mul_pow]
      omega
    · -- the first multiple of the scale lies between
      have hbelow : n.units < 2 ^ 52 * 2 ^ s := units_lt_of_scale_lt (by omega)
      have hfirst : 2 ^ 52 * (den * 2 ^ s) ≤ num := by
        have hle := hpow (num / den).log2 (Nat.le_refl _) fun hzero => by
          rw [hzero, Nat.log2_zero] at hs
          omega
        rw [show (num / den).log2 = 52 + s by omega, Nat.pow_add] at hle
        rwa [Nat.mul_comm den, ← Nat.mul_assoc]
      have hgap : gap num den (2 ^ 52 * 2 ^ s) < gap num den n.units :=
        gap_lt_gap hd hbelow (by rwa [Nat.mul_assoc, Nat.mul_comm (2 ^ s) den])
      rw [gap_mul_pow] at hgap
      have hnear : gap num (den * 2 ^ s) (nearestEven num (den * 2 ^ s)) ≤
          gap num (den * 2 ^ s) (2 ^ 52) :=
        gap_nearestEven_le (Nat.mul_pos hd (Nat.two_pow_pos s)) _
      omega

/-! ## Values -/

/-- The value of a magnitude; the infinite one stands where the next value would be. -/
def toRat (m : Magnitude) : ℚ := m.units / 2 ^ 1074

/-- The magnitude nearest to a number; of two that are as near, the one of even rank. -/
def IsNearest (q : ℚ) (m : Magnitude) : Prop :=
  ∀ n : Magnitude, n ≠ m →
    |m.toRat - q| < |n.toRat - q| ∨ |m.toRat - q| = |n.toRat - q| ∧ m.rank % 2 = 0

theorem toRat_lt_toRat (h : m.rank < n.rank) : m.toRat < n.toRat := by
  have hunits : (m.units : ℚ) < n.units := Nat.cast_lt.mpr (units_lt_units h)
  exact div_lt_div_of_pos_right hunits (by positivity)

theorem toRat_le_toRat : m.toRat ≤ n.toRat ↔ m.rank ≤ n.rank := by
  refine ⟨fun h => ?_, fun h => ?_⟩
  · by_contra hlt
    exact absurd h (not_le.mpr (toRat_lt_toRat (by omega)))
  · rcases Nat.lt_or_eq_of_le h with hlt | heq
    · exact le_of_lt (toRat_lt_toRat hlt)
    · rw [ext_rank heq]

/-- The distance of a value from a fraction, in units. -/
theorem abs_toRat_sub (m : Magnitude) (num : Nat) (hd : 0 < den) :
    |m.toRat - num / den| = gap (num * 2 ^ 1074) den m.units / (den * 2 ^ 1074) := by
  have hden : (0 : ℚ) < den := Nat.cast_pos.mpr hd
  have hunit : (0 : ℚ) < 2 ^ 1074 := by positivity
  have hvalue : m.toRat - num / den =
      ((m.units * den : Nat) - (num * 2 ^ 1074 : Nat) : Int) / (den * 2 ^ 1074) := by
    push_cast
    rw [toRat]
    field_simp
  rw [hvalue, abs_div, abs_of_pos (mul_pos hden hunit), gap, Nat.cast_natAbs, Int.cast_abs]

/-- Rounding a fraction finds the nearest magnitude. -/
theorem isNearest_ofRatio (num : Nat) (hd : 0 < den) :
    IsNearest (num / den) (ofRatio num den) := by
  intro n hn
  have hscale : (0 : ℚ) < den * 2 ^ 1074 := mul_pos (Nat.cast_pos.mpr hd) (by positivity)
  rw [abs_toRat_sub _ num hd, abs_toRat_sub _ num hd, div_lt_div_iff_of_pos_right hscale,
    div_left_inj' (ne_of_gt hscale), Nat.cast_lt, Nat.cast_inj]
  exact gap_ofUnits hd hn

/-- Rounding a scaled number finds the nearest magnitude. -/
theorem isNearest_ofScaled {base : Nat} (hb : 2 ≤ base) (c : Nat) (e : Int) :
    IsNearest (c * (base : ℚ) ^ e) (ofScaled base c e) := by
  have hbase : (base : ℚ) ≠ 0 := Nat.cast_ne_zero.mpr (by omega)
  have hvalue : (c * (base : ℚ) ^ e) =
      ((c * base ^ e.toNat : Nat) : ℚ) / ((base ^ (-e).toNat : Nat) : ℚ) := by
    push_cast
    rw [mul_div_assoc, ← zpow_natCast, ← zpow_natCast, ← zpow_sub₀ hbase]
    congr 2
    omega
  rw [hvalue, ofScaled_eq_ofRatio hb]
  exact isNearest_ofRatio _ (Nat.pow_pos (by omega))

theorem abs_sub_lt_of_between {x y z q : ℚ} (hxy : x < y) (hyz : y < z)
    (h : |x - q| = |z - q|) : |y - q| < |x - q| := by
  rcases abs_cases (x - q) with ⟨hx, hxs⟩ | ⟨hx, hxs⟩ <;>
    rcases abs_cases (z - q) with ⟨hz, hzs⟩ | ⟨hz, hzs⟩ <;>
    rw [abs_lt] <;> refine ⟨?_, ?_⟩ <;> linarith

/-- Between two magnitudes that are as near and both of even rank there would be a nearer one. -/
theorem IsNearest.not_rank_lt {q : ℚ} (hm : IsNearest q m) (hn : IsNearest q n) :
    ¬ m.rank < n.rank := by
  intro hlt
  have hne : n ≠ m := by
    rintro rfl
    exact Nat.lt_irrefl _ hlt
  obtain ⟨hsame, hmeven, hneven⟩ :
      |m.toRat - q| = |n.toRat - q| ∧ m.rank % 2 = 0 ∧ n.rank % 2 = 0 := by
    rcases hm n hne with hmn | ⟨hsame, hmeven⟩
    · rcases hn m hne.symm with hnm | ⟨hsame, -⟩ <;> linarith
    · rcases hn m hne.symm with hnm | ⟨-, hneven⟩
      · linarith
      · exact ⟨hsame, hmeven, hneven⟩
  have hbound := n.rank_le
  obtain ⟨k, hk⟩ : ∃ k : Magnitude, k.rank = m.rank + 1 := ⟨⟨m.rank + 1, by omega⟩, rfl⟩
  have hcloser := abs_sub_lt_of_between (toRat_lt_toRat (show m.rank < k.rank by omega))
    (toRat_lt_toRat (show k.rank < n.rank by omega)) hsame
  have hkne : k ≠ m := by
    rintro rfl
    omega
  rcases hm k hkne with h | ⟨h, -⟩ <;> linarith

/-- There is no more than one nearest magnitude. -/
theorem IsNearest.eq {q : ℚ} (hm : IsNearest q m) (hn : IsNearest q n) : m = n :=
  ext_rank (Nat.le_antisymm (Nat.le_of_not_lt (hn.not_rank_lt hm))
    (Nat.le_of_not_lt (hm.not_rank_lt hn)))

end Magnitude

end FuzzyRules
