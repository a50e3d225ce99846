import FuzzyRules.Proofs.Rounding

/-!
# Numbers by their positions

Comparison sees the positions of numbers only. Numbers at one position, or both at none, are
`Alike`: they differ in the sign of zero at most. The operations give alike numbers on alike
operands (`Double.Alike.add`), since a sum is exact on units before it is rounded. The degrees
of graded logic are the numbers from `0.0` to `1.0` (`Double.IsDegree`); rounding is monotone, so
the complement of a degree is one (`Double.IsDegree.complement`).
-/

namespace FuzzyRules.Double

/-! ## Comparison -/

theorem isNaN_iff {x : Double} : x.isNaN = true ↔ x.position? = none := by
  cases x <;> simp [isNaN, position?]

theorem exists_nan_of_isNaN {x : Double} (h : x.isNaN = true) : ∃ holder, x = nan holder := by
  cases x with
  | nan holder => exact ⟨holder, rfl⟩
  | signed s m => cases h

theorem numEq_iff {x y : Double} :
    x.numEq y = true ↔ ∃ i, x.position? = some i ∧ y.position? = some i := by
  unfold numEq
  split
  · next i j hx hy =>
    rw [hx, hy, decide_eq_true_iff]
    constructor
    · rintro rfl
      exact ⟨i, rfl, rfl⟩
    · rintro ⟨k, hi, hj⟩
      exact Option.some.inj (hi.trans hj.symm)
  · next hnone =>
    refine iff_of_false nofun ?_
    rintro ⟨i, hx, hy⟩
    exact hnone i i hx hy

theorem numEq_symm {x y : Double} (h : x.numEq y = true) : y.numEq x = true := by
  obtain ⟨i, hx, hy⟩ := numEq_iff.mp h
  exact numEq_iff.mpr ⟨i, hy, hx⟩

theorem numEq_trans {x y z : Double} (h : x.numEq y = true) (h' : y.numEq z = true) :
    x.numEq z = true := by
  obtain ⟨i, hx, hy⟩ := numEq_iff.mp h
  obtain ⟨j, hy', hz⟩ := numEq_iff.mp h'
  obtain rfl := Option.some.inj (hy.symm.trans hy')
  exact numEq_iff.mpr ⟨i, hx, hz⟩

/-- Only NaN does not equal itself. -/
theorem numEq_self_iff {x : Double} : x.numEq x = true ↔ x.isNaN = false := by
  cases x with
  | nan holder => simp [numEq, position?, isNaN]
  | signed s m => simp [numEq, position?, isNaN]

/-! ## Numbers in objects -/

theorem agrees_iff {x y : Double} :
    x.agrees y = true ↔
      x.numEq y = true ∨ ∃ holder, x = nan (some holder) ∧ y = nan (some holder) := by
  rw [agrees, Bool.or_eq_true]
  refine or_congr_right ?_
  match x, y with
  | nan (some holder), nan holder' => simpa [holder?] using eq_comm
  | nan (some holder), signed t n => simp [holder?]
  | nan none, y => simp [holder?]
  | signed s m, y => simp [holder?]

theorem agrees_symm {x y : Double} (h : x.agrees y = true) : y.agrees x = true := by
  rcases agrees_iff.mp h with hequal | ⟨holder, rfl, rfl⟩
  · exact agrees_iff.mpr (.inl (numEq_symm hequal))
  · exact h

theorem agrees_trans {x y z : Double} (h : x.agrees y = true) (h' : y.agrees z = true) :
    x.agrees z = true := by
  rcases agrees_iff.mp h with hxy | ⟨holder, rfl, rfl⟩
  · rcases agrees_iff.mp h' with hyz | ⟨holder, rfl, rfl⟩
    · exact agrees_iff.mpr (.inl (numEq_trans hxy hyz))
    · exact h
  · exact h'

/-- Only a NaN without a holder does not agree with itself. -/
theorem agrees_self_iff {x : Double} : x.agrees x = true ↔ x ≠ nan none := by
  rw [agrees_iff, numEq_self_iff]
  match x with
  | nan none => simp [isNaN]
  | nan (some holder) => simp
  | signed s m => simp [isNaN]

/-- No NaN agrees with a copy of it. -/
theorem agrees_heldBy_none_iff {x : Double} :
    x.agrees (x.heldBy none) = true ↔ x.isNaN = false := by
  cases x with
  | nan holder => cases holder <;> simp [agrees, heldBy, holder?, numEq, position?, isNaN]
  | signed s m => simp [heldBy, agrees_self_iff, isNaN]

/-! ## Likeness -/

/-- Numerically equal, or both NaN. -/
def Alike (x y : Double) : Prop := x.numEq y = true ∨ x.isNaN = true ∧ y.isNaN = true

theorem alike_iff {x y : Double} : x.Alike y ↔ x.position? = y.position? := by
  rw [Alike, numEq_iff, isNaN_iff, isNaN_iff]
  constructor
  · rintro (⟨i, hx, hy⟩ | ⟨hx, hy⟩)
    · rw [hx, hy]
    · rw [hx, hy]
  · intro h
    cases hx : x.position? with
    | none => exact .inr ⟨rfl, h ▸ hx⟩
    | some i => exact .inl ⟨i, rfl, h ▸ hx⟩

namespace Alike

variable {x y x' y' : Double}

theorem refl (x : Double) : x.Alike x := alike_iff.mpr rfl

theorem symm (h : x.Alike y) : y.Alike x := alike_iff.mpr (alike_iff.mp h).symm

theorem lt_congr (hx : x.Alike x') (hy : y.Alike y') : x.lt y = x'.lt y' := by
  rw [lt, lt, alike_iff.mp hx, alike_iff.mp hy]

/-- What equals a number equals all numbers alike. -/
theorem numEq_congr (hx : x.Alike x') (hy : y.Alike y') : x.numEq y = x'.numEq y' := by
  rw [numEq, numEq, alike_iff.mp hx, alike_iff.mp hy]

end Alike

/-! ## Sums -/

/-- The position of a rounded number of units; the sign of an exact zero does not matter. -/
theorem position?_ofUnits (negativeZero : Bool) (units : Int) :
    (ofUnits negativeZero units).position? =
      some (units.sign * (Magnitude.ofUnits units.natAbs 1).rank) := by
  rcases Int.lt_trichotomy units 0 with h | rfl | h
  · have hne : units ≠ 0 := by omega
    simp [ofUnits, position?, h, hne, Int.sign_eq_neg_one_of_neg h]
  · have hzero : (Magnitude.ofUnits 0 1).rank = 0 := rfl
    simp [ofUnits, position?, hzero]
  · have hne : units ≠ 0 := by omega
    have hle : ¬ units < 0 := by omega
    simp [ofUnits, position?, hne, hle, Int.sign_eq_one_of_pos h]

theorem add_of_finite {s t : Bool} {m n : Magnitude} (hm : m.isInfinite = false)
    (hn : n.isInfinite = false) :
    (signed s m).add (signed t n) = ofUnits (s && t) (signedUnits s m + signedUnits t n) := by
  rw [add, hm, hn]
  rfl

theorem add_of_isNaN_left {x : Double} (h : x.isNaN = true) (y : Double) :
    x.add y = nan none := by
  obtain ⟨holder, rfl⟩ := exists_nan_of_isNaN h
  rfl

theorem add_of_isNaN_right (x : Double) {y : Double} (h : y.isNaN = true) :
    x.add y = nan none := by
  obtain ⟨holder, rfl⟩ := exists_nan_of_isNaN h
  cases x <;> rfl

theorem position?_neg (x : Double) : x.neg.position? = x.position?.map (- ·) := by
  cases x with
  | nan holder => rfl
  | signed s m => cases s <;> simp [neg, position?]

/-- Numbers alike are NaN, or they have one magnitude and, unless it is zero, one sign. -/
theorem alike_cases {x y : Double} (h : x.Alike y) :
    x.isNaN = true ∧ y.isNaN = true ∨
      ∃ s t m, x = signed s m ∧ y = signed t m ∧ (s = t ∨ m.rank = 0) := by
  have hposition := alike_iff.mp h
  match x, y with
  | .nan _, .nan _ => exact .inl ⟨rfl, rfl⟩
  | .nan _, .signed _ _ | .signed _ _, .nan _ => cases hposition
  | .signed s m, .signed t n =>
    simp only [position?, Option.some.injEq] at hposition
    have hrank : m.rank = n.rank := by cases s <;> cases t <;> simp at hposition <;> omega
    obtain rfl := Magnitude.ext_rank hrank
    refine .inr ⟨s, t, m, rfl, rfl, ?_⟩
    cases s <;> cases t <;> simp at hposition ⊢ <;> omega

theorem signedUnits_congr {s t : Bool} {m : Magnitude} (h : s = t ∨ m.rank = 0) :
    signedUnits s m = signedUnits t m := by
  rcases h with rfl | h
  · rfl
  · have hunits : m.units = 0 := by simp [Magnitude.units_eq, h]
    cases s <;> cases t <;> simp [signedUnits, hunits]

theorem sign_congr {s t : Bool} {m : Magnitude} (h : s = t ∨ m.rank = 0)
    (hm : m.isInfinite = true) : s = t := by
  refine h.resolve_right fun hrank => ?_
  rw [Magnitude.isInfinite, hrank] at hm
  exact absurd hm (by decide)

namespace Alike

variable {x y x' y' : Double}

theorem neg (h : x.Alike y) : x.neg.Alike y.neg := by
  rw [alike_iff, position?_neg, position?_neg, alike_iff.mp h]

/-- Infinite terms have one sign, and finite ones have one number of units. -/
theorem add (hx : x.Alike x') (hy : y.Alike y') : (x.add y).Alike (x'.add y') := by
  obtain ⟨hnan, hnan'⟩ | ⟨s, s', m, rfl, rfl, hs⟩ := alike_cases hx
  · rw [add_of_isNaN_left hnan, add_of_isNaN_left hnan']
    exact .refl _
  obtain ⟨hnan, hnan'⟩ | ⟨t, t', n, rfl, rfl, ht⟩ := alike_cases hy
  · rw [add_of_isNaN_right _ hnan, add_of_isNaN_right _ hnan']
    exact .refl _
  by_cases hm : m.isInfinite = true
  · obtain rfl := sign_congr hs hm
    by_cases hn : n.isInfinite = true
    · obtain rfl := sign_congr ht hn
      exact .refl _
    · simp only [Double.add, hm, hn]
      exact .refl _
  · by_cases hn : n.isInfinite = true
    · obtain rfl := sign_congr ht hn
      simp only [Double.add, hm, hn]
      exact .refl _
    · rw [Bool.not_eq_true] at hm hn
      rw [add_of_finite hm hn, add_of_finite hm hn, signedUnits_congr hs, signedUnits_congr ht]
      exact alike_iff.mpr ((position?_ofUnits _ _).trans (position?_ofUnits _ _).symm)

theorem sub (hx : x.Alike x') (hy : y.Alike y') : (x.sub y).Alike (x'.sub y') := hx.add hy.neg

end Alike

/-- Alike, and with the same holder. -/
structure Twin (x y : Double) : Prop where
  alike : x.Alike y
  holder : x.holder? = y.holder?

/-- A sum is a new number. -/
theorem holder?_add (x y : Double) : (x.add y).holder? = none := by
  unfold add
  split
  · rfl
  · rfl
  · split
    · split <;> rfl
    · split <;> rfl

namespace Twin

variable {x y x' y' : Double}

theorem refl (x : Double) : x.Twin x := ⟨.refl x, rfl⟩

theorem symm (h : x.Twin y) : y.Twin x := ⟨h.alike.symm, h.holder.symm⟩

/-- Only a NaN has a holder. -/
theorem of_numEq (h : x.numEq y = true) : x.Twin y := by
  refine ⟨.inl h, ?_⟩
  match x, y with
  | signed _ _, signed _ _ => rfl
  | nan _, _ | signed _ _, nan _ => cases h

/-- What agrees with a number agrees with all its twins. -/
theorem agrees_congr (hx : x.Twin x') (hy : y.Twin y') : x.agrees y = x'.agrees y' := by
  rw [agrees, agrees, hx.alike.numEq_congr hy.alike, hx.holder, hy.holder]

theorem lower (hx : x.Twin x') (hy : y.Twin y') : (x.lower y).Twin (x'.lower y') := by
  unfold Double.lower
  rw [hy.alike.lt_congr hx.alike]
  split
  · exact hy
  · exact hx

theorem upper (hx : x.Twin x') (hy : y.Twin y') : (x.upper y).Twin (x'.upper y') := by
  unfold Double.upper
  rw [hx.alike.lt_congr hy.alike]
  split
  · exact hy
  · exact hx

theorem add (hx : x.Twin x') (hy : y.Twin y') : (x.add y).Twin (x'.add y') :=
  ⟨hx.alike.add hy.alike, by rw [holder?_add, holder?_add]⟩

theorem sub (hx : x.Twin x') (hy : y.Twin y') : (x.sub y).Twin (x'.sub y') :=
  ⟨hx.alike.sub hy.alike, by rw [Double.sub, Double.sub, holder?_add, holder?_add]⟩

end Twin

/-! ## Degrees -/

/-- The degrees of graded logic: the numbers from `0.0` to `1.0`. -/
def IsDegree (x : Double) : Prop :=
  x.isNaN = false ∧ x.lt zero = false ∧ one.lt x = false

instance (x : Double) : Decidable x.IsDegree :=
  inferInstanceAs (Decidable (x.isNaN = false ∧ x.lt zero = false ∧ one.lt x = false))

theorem isDegree_iff {x : Double} :
    x.IsDegree ↔ ∃ i, x.position? = some i ∧ 0 ≤ i ∧ i ≤ Magnitude.one.rank := by
  have hzero : zero.position? = some 0 := rfl
  have hone : one.position? = some (Magnitude.one.rank : Int) := rfl
  unfold IsDegree lt
  rw [hzero, hone]
  cases x with
  | nan holder => simp [isNaN, position?]
  | signed s m => simp [isNaN, position?]

/-- Units up to those of one are rounded to a degree. -/
theorem isDegree_ofUnits (negativeZero : Bool) {n : Nat} (h : n ≤ Magnitude.one.units) :
    (ofUnits negativeZero n).IsDegree := by
  have hround := Magnitude.rank_ofUnits_mono h
  rw [Magnitude.ofUnits_units] at hround
  rw [isDegree_iff, position?_ofUnits, Int.natAbs_natCast]
  refine ⟨_, rfl, ?_⟩
  rcases Nat.eq_zero_or_pos n with rfl | hpos
  · rw [Int.natCast_zero, Int.sign_zero]
    omega
  · rw [Int.sign_eq_one_of_pos (by omega)]
    omega

namespace IsDegree

variable {x y : Double}

theorem lower (hx : x.IsDegree) (hy : y.IsDegree) : (x.lower y).IsDegree := by
  unfold Double.lower
  split
  · exact hy
  · exact hx

theorem upper (hx : x.IsDegree) (hy : y.IsDegree) : (x.upper y).IsDegree := by
  unfold Double.upper
  split
  · exact hy
  · exact hx

/-- A degree is a magnitude up to one, also where its zero has a sign. -/
theorem alike (h : x.IsDegree) :
    ∃ m : Magnitude, x.Alike (signed false m) ∧ m.rank ≤ Magnitude.one.rank := by
  obtain ⟨i, hi, hzero, hone⟩ := isDegree_iff.mp h
  have hle := Magnitude.one.rank_le
  refine ⟨⟨i.toNat, by omega⟩, alike_iff.mpr (hi.trans ?_), by simp; omega⟩
  simp only [position?, Bool.false_eq_true, if_false]
  rw [Int.toNat_of_nonneg hzero]

theorem of_alike (h : x.IsDegree) (hxy : x.Alike y) : y.IsDegree := by
  rw [isDegree_iff, ← alike_iff.mp hxy]
  exact isDegree_iff.mp h

/-- The difference is a number of units again, and at most those of one. -/
theorem complement (h : x.IsDegree) : (one.sub x).IsDegree := by
  obtain ⟨m, hm, hrank⟩ := h.alike
  have hunits := Magnitude.units_le_units hrank
  have hfinite : m.isInfinite = false := by
    have hone : Magnitude.one.rank < Magnitude.infiniteRank := by decide
    exact beq_false_of_ne (by omega)
  have hsub : one.sub (signed false m) =
      ofUnits false (Magnitude.one.units - m.units : Nat) := by
    have hadd : one.add (signed true m) = _ := add_of_finite rfl hfinite
    rw [sub, Double.neg, Bool.not_false, hadd, Bool.false_and, Int.ofNat_sub hunits,
      Int.sub_eq_add_neg]
    simp only [signedUnits, Bool.false_eq_true, if_false, if_true]
  refine of_alike ?_ ((Alike.refl one).sub hm.symm)
  rw [hsub]
  exact isDegree_ofUnits false (Nat.sub_le _ _)

end IsDegree

end FuzzyRules.Double
