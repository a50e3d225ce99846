import FuzzyRules.Proofs.Bounds
import FuzzyRules.Proofs.Nearest

/-!
# Rounding keeps the order

The value of a number is a rational (`Double.toRat`), and a number is nearest to a rational if it
has the sign of the rational and its magnitude is the nearest one (`Double.IsNearest`). The middle
between two neighbours is where rounding changes from one to the other
(`Magnitude.IsNearest.rank_le_iff`). Numbers that are nearest to rationals in order are in this
order (`Double.IsNearest.le`). A quotient of finite numbers is the number nearest to the exact
quotient (`Double.isNearest_div`), so that division by one number keeps the order, or turns it
around if that number is negative. A sum that is finite has finite terms only
(`Double.isFinite_of_foldl_add`).
-/

namespace FuzzyRules

namespace Magnitude

variable {m n : Magnitude} {q r : ℚ}

theorem isNearest_toRat (m : Magnitude) : IsNearest m.toRat m := by
  intro n hn
  refine .inl ?_
  rw [sub_self, abs_zero, abs_pos, sub_ne_zero]
  intro heq
  have hle := toRat_le_toRat.mp (le_of_eq heq)
  have hge := toRat_le_toRat.mp (ge_of_eq heq)
  exact hn (ext_rank (Nat.le_antisymm hle hge))

theorem toRat_nonneg (m : Magnitude) : 0 ≤ m.toRat :=
  div_nonneg (Nat.cast_nonneg _) (by positivity)

theorem toRat_zero : zero.toRat = 0 := by
  rw [toRat, show zero.units = 0 from rfl, Nat.cast_zero, zero_div]

theorem IsNearest.rank_eq_zero (h : IsNearest 0 m) : m.rank = 0 := by
  have hnearest := isNearest_toRat zero
  rw [toRat_zero] at hnearest
  rw [h.eq hnearest]
  rfl

theorem IsNearest.abs_le (h : IsNearest q m) (n : Magnitude) :
    |m.toRat - q| ≤ |n.toRat - q| := by
  by_cases hn : n = m
  · rw [hn]
  · rcases h n hn with hlt | ⟨heq, -⟩
    · exact le_of_lt hlt
    · exact le_of_eq heq

/-- What is nearer to the upper one of two numbers lies in the upper half between them. -/
theorem add_le_of_abs_le {x y : ℚ} (hxy : x < y) (h : |y - q| ≤ |x - q|) : x + y ≤ 2 * q := by
  rcases abs_cases (x - q) with ⟨hx, hxs⟩ | ⟨hx, hxs⟩ <;>
    rcases abs_cases (y - q) with ⟨hy, hys⟩ | ⟨hy, hys⟩ <;> linarith

theorem le_add_of_abs_le {x y : ℚ} (hxy : x < y) (h : |x - q| ≤ |y - q|) : 2 * q ≤ x + y := by
  rcases abs_cases (x - q) with ⟨hx, hxs⟩ | ⟨hx, hxs⟩ <;>
    rcases abs_cases (y - q) with ⟨hy, hys⟩ | ⟨hy, hys⟩ <;> linarith

/-- The magnitudes nearest to numbers in order are in order: otherwise both numbers would lie in the
middle between the magnitudes. -/
theorem IsNearest.rank_le (hm : IsNearest q m) (hn : IsNearest r n) (h : q ≤ r) :
    m.rank ≤ n.rank := by
  by_contra hlt
  have hvalue : n.toRat < m.toRat := toRat_lt_toRat (by omega)
  have hq := add_le_of_abs_le hvalue (hm.abs_le n)
  have hr := le_add_of_abs_le hvalue (hn.abs_le m)
  obtain rfl : q = r := by linarith
  rw [hm.eq hn] at hvalue
  exact lt_irrefl _ hvalue

/-- A number is rounded to one of two neighbours or beyond it by the side of the middle on which it
lies, and the middle goes to the even rank. -/
theorem IsNearest.rank_le_iff {k : Magnitude} (h : IsNearest q k) (hnext : n.rank = m.rank + 1) :
    k.rank ≤ m.rank ↔
      2 * q < m.toRat + n.toRat ∨ 2 * q = m.toRat + n.toRat ∧ m.rank % 2 = 0 := by
  have hmn : m.toRat < n.toRat := toRat_lt_toRat (by omega)
  -- in the middle, so that the tie decides
  have htie (hq : 2 * q = m.toRat + n.toRat) : |m.toRat - q| = |n.toRat - q| := by
    rw [← abs_neg]
    congr 1
    linarith
  constructor
  · intro hle
    have hkm : k.toRat ≤ m.toRat := toRat_le_toRat.mpr hle
    have hmiddle := le_add_of_abs_le (lt_of_le_of_lt hkm hmn) (h.abs_le n)
    rcases lt_or_eq_of_le (show 2 * q ≤ m.toRat + n.toRat by linarith) with hlt | heq
    · exact .inl hlt
    · have hmk : m.rank ≤ k.rank := toRat_le_toRat.mp (by linarith)
      obtain rfl : k = m := ext_rank (by omega)
      have hne : n ≠ k := by
        rintro rfl
        omega
      rcases h n hne with hnear | ⟨-, heven⟩
      · exact absurd (htie heq) (ne_of_lt hnear)
      · exact .inr ⟨heq, heven⟩
  · intro hq
    by_contra hlt
    have hnk : n.toRat ≤ k.toRat := toRat_le_toRat.mpr (by omega)
    have hmiddle := add_le_of_abs_le (lt_of_lt_of_le hmn hnk) (h.abs_le m)
    rcases hq with hbelow | ⟨heq, heven⟩
    · linarith
    · have hkn : k.rank ≤ n.rank := toRat_le_toRat.mp (by linarith)
      obtain rfl : k = n := ext_rank (by omega)
      have hne : m ≠ k := by
        rintro rfl
        omega
      rcases h m hne with hnear | ⟨-, hkeven⟩
      · exact absurd (htie heq).symm (ne_of_lt hnear)
      · omega

end Magnitude

namespace Double

variable {x y z : Double} {q r : ℚ}

/-! ## Values -/

/-- The value of a number; NaN counts as zero. -/
def toRat : Double → ℚ
  | nan _ => 0
  | signed s m => signedUnits s m / 2 ^ 1074

theorem toRat_signed (s : Bool) (m : Magnitude) :
    (signed s m).toRat = if s then -m.toRat else m.toRat := by
  cases s <;> simp [toRat, signedUnits, Magnitude.toRat, neg_div]

theorem toRat_zero : zero.toRat = 0 := by
  rw [zero, toRat_signed, Magnitude.toRat_zero]
  rfl

theorem toRat_le_toRat (h : x.le y = true) : x.toRat ≤ y.toRat := by
  obtain ⟨i, j, hi, hj, hij⟩ := le_iff.mp h
  match x, y with
  | .signed s m, .signed t n =>
    cases hi
    cases hj
    have hunits : (signedUnits s m : ℚ) ≤ signedUnits t n := Int.cast_le.mpr (signedUnits_mono hij)
    exact div_le_div_of_nonneg_right hunits (by positivity)

/-- The number nearest to a rational: the nearest magnitude with the sign of the rational, where a
zero may have any sign. -/
def IsNearest (q : ℚ) : Double → Prop
  | nan _ => False
  | signed s m => (if s then q ≤ 0 else 0 ≤ q) ∧ m.IsNearest |q|

/-- Numbers nearest to rationals in order are in order. -/
theorem IsNearest.le (hx : IsNearest q x) (hy : IsNearest r y) (h : q ≤ r) : x.le y = true := by
  match x, y with
  | .signed s m, .signed t n =>
    obtain ⟨hs, hm⟩ := hx
    obtain ⟨ht, hn⟩ := hy
    refine le_iff.mpr ⟨_, _, rfl, rfl, ?_⟩
    cases s with
    | false =>
      have hq : 0 ≤ q := hs
      cases t with
      | false =>
        have hrank := hm.rank_le hn (abs_le_abs_of_nonneg hq h)
        simpa using hrank
      | true =>
        -- both are nearest to zero
        have hr : r ≤ 0 := ht
        obtain rfl : q = 0 := le_antisymm (h.trans hr) hq
        obtain rfl : r = 0 := le_antisymm hr h
        rw [abs_zero] at hm hn
        simp [hm.rank_eq_zero, hn.rank_eq_zero]
    | true =>
      have hq : q ≤ 0 := hs
      cases t with
      | false =>
        simp only [if_true, Bool.false_eq_true, if_false]
        omega
      | true =>
        have hr : r ≤ 0 := ht
        have hrank := hn.rank_le hm (abs_le_abs_of_nonpos hr h)
        simpa using hrank

theorem abs_toRat_signed (s : Bool) (m : Magnitude) : |(signed s m).toRat| = m.toRat := by
  cases s with
  | false => rw [toRat_signed, if_neg Bool.false_ne_true, abs_of_nonneg m.toRat_nonneg]
  | true => rw [toRat_signed, if_pos rfl, abs_neg, abs_of_nonneg m.toRat_nonneg]

/-- A number is nearest to its own value. -/
theorem isNearest_toRat (h : x.isNaN = false) : IsNearest x.toRat x := by
  match x with
  | .signed s m =>
    refine ⟨?_, ?_⟩
    · rw [toRat_signed]
      cases s with
      | false => exact m.toRat_nonneg
      | true => exact neg_nonpos.mpr m.toRat_nonneg
    · rw [abs_toRat_signed]
      exact m.isNearest_toRat

theorem isNaN_of_position? {i : Int} (h : x.position? = some i) : x.isNaN = false := by
  cases x with
  | nan => cases h
  | signed s m => rfl

theorem toRat_lt_toRat (h : x.lt y = true) : x.toRat < y.toRat := by
  obtain ⟨i, j, hi, hj, hij⟩ := lt_iff.mp h
  by_contra hge
  have hle := (isNearest_toRat (isNaN_of_position? hj)).le (isNearest_toRat (isNaN_of_position? hi))
    (not_lt.mp hge)
  obtain ⟨j', i', hj', hi', hji⟩ := le_iff.mp hle
  obtain rfl := Option.some.inj (hj.symm.trans hj')
  obtain rfl := Option.some.inj (hi.symm.trans hi')
  omega

/-! ## Quotients -/

def isFinite : Double → Bool
  | nan _ => false
  | signed _ m => !m.isInfinite

theorem isFinite_signed {s : Bool} {m : Magnitude} :
    (signed s m).isFinite = true ↔ m.isInfinite = false := by
  rw [isFinite, Bool.not_eq_true']

theorem div_of_finite {s t : Bool} {m n : Magnitude} (hm : m.isInfinite = false)
    (hn : n.isInfinite = false) (hunits : n.units ≠ 0) :
    (signed s m).div (signed t n) = signed (s != t) (.ofRatio m.units n.units) := by
  rw [div, hm, hn, if_neg Bool.false_ne_true, if_neg Bool.false_ne_true, if_neg hunits]

/-- The quotient of finite numbers is the number nearest to the exact quotient. -/
theorem isNearest_div (hx : x.isFinite = true) (hy : y.isFinite = true) (hne : y.toRat ≠ 0) :
    IsNearest (x.toRat / y.toRat) (x.div y) := by
  match x, y with
  | .signed s m, .signed t n =>
    have hunits : n.units ≠ 0 := by
      intro hzero
      refine hne (abs_eq_zero.mp ?_)
      rw [abs_toRat_signed, Magnitude.toRat, hzero, Nat.cast_zero, zero_div]
    have hm := m.toRat_nonneg
    have hn := n.toRat_nonneg
    rw [div_of_finite (isFinite_signed.mp hx) (isFinite_signed.mp hy) hunits]
    refine ⟨?_, ?_⟩
    · rw [toRat_signed, toRat_signed]
      cases s <;> cases t
      · exact div_nonneg hm hn
      · exact div_nonpos_of_nonneg_of_nonpos hm (neg_nonpos.mpr hn)
      · exact div_nonpos_of_nonpos_of_nonneg (neg_nonpos.mpr hm) hn
      · exact div_nonneg_of_nonpos (neg_nonpos.mpr hm) (neg_nonpos.mpr hn)
    · rw [abs_div, abs_toRat_signed, abs_toRat_signed, Magnitude.toRat, Magnitude.toRat,
        div_div_div_cancel_right₀ (by positivity)]
      exact Magnitude.isNearest_ofRatio _ (Nat.pos_of_ne_zero hunits)

section Division

variable (hx : x.isFinite = true) (hy : y.isFinite = true) (hz : z.isFinite = true)
include hx hy hz

/-- Division by a positive number keeps the order. -/
theorem div_le_div_of_pos (hpos : zero.lt z = true) (h : x.le y = true) :
    (x.div z).le (y.div z) = true := by
  have hvalue := toRat_lt_toRat hpos
  rw [toRat_zero] at hvalue
  have hquotient := div_le_div_of_nonneg_right (toRat_le_toRat h) (le_of_lt hvalue)
  exact (isNearest_div hx hz (ne_of_gt hvalue)).le (isNearest_div hy hz (ne_of_gt hvalue)) hquotient

/-- Division by a negative number turns the order around. -/
theorem div_le_div_of_neg (hneg : z.lt zero = true) (h : x.le y = true) :
    (y.div z).le (x.div z) = true := by
  have hvalue := toRat_lt_toRat hneg
  rw [toRat_zero] at hvalue
  have hquotient := div_le_div_of_nonpos_of_le (le_of_lt hvalue) (toRat_le_toRat h)
  exact (isNearest_div hy hz (ne_of_lt hvalue)).le (isNearest_div hx hz (ne_of_lt hvalue)) hquotient

end Division

/-! ## Sums -/

/-- Of an infinite term, the sum is infinite or NaN. -/
theorem isFinite_of_add (h : (x.add y).isFinite = true) :
    x.isFinite = true ∧ y.isFinite = true := by
  match x, y with
  | .nan _, _ | .signed _ _, .nan _ => cases h
  | .signed s m, .signed t n =>
    rw [isFinite_signed, isFinite_signed]
    rw [add] at h
    split at h
    · next hm =>
      split at h
      · cases h
      · rw [isFinite_signed, hm] at h
        cases h
    · next hm =>
      split at h
      · next hn =>
        rw [isFinite_signed, hn] at h
        cases h
      · next hn => exact ⟨Bool.eq_false_iff.mpr hm, Bool.eq_false_iff.mpr hn⟩

/-- All terms of a finite sum are finite. -/
theorem isFinite_of_foldl_add {xs : List Double} (h : (xs.foldl add x).isFinite = true) :
    x.isFinite = true ∧ ∀ y ∈ xs, y.isFinite = true := by
  induction xs generalizing x with
  | nil => exact ⟨h, by simp⟩
  | cons y ys ih =>
    obtain ⟨hsum, hrest⟩ := ih h
    obtain ⟨hx, hy⟩ := isFinite_of_add hsum
    exact ⟨hx, List.forall_mem_cons.mpr ⟨hy, hrest⟩⟩

end Double

end FuzzyRules
