import FuzzyRules.Proofs.Position

/-!
# Lower and upper numbers, and complements

`lower` and `upper` choose one of two numbers, the first one where the positions are the same, and
never NaN in place of a number. From `1.0` down, and from `0.0` up, each is an extremum
(`isExtremum_lower`, `isExtremum_upper`): it is associative and its start is neutral, so that the
numbers it goes through can be regrouped. The complement turns the order around
(`exists_complement_le`) and is never `-0.0` (`complement_ne_negZero`), so that it turns `lower`
into `upper` and back, to the bit (`complement_lower`, `complement_upper`).
-/

namespace FuzzyRules

/-! ## Rounding and signs -/

namespace Magnitude

/-- A whole unit is never rounded to zero. -/
theorem rank_ofUnits_pos {n : Nat} (h : 0 < n) : 0 < (ofUnits n 1).rank := by
  have hone : (ofUnits 1 1).rank = 1 := rfl
  have hmono : (ofUnits 1 1).rank ≤ (ofUnits n 1).rank := rank_ofUnits_mono h
  omega

end Magnitude

namespace Double

/-- Rounding is monotone on both sides of zero. -/
theorem position_ofUnits_mono {u v : Int} (h : u ≤ v) :
    u.sign * ((Magnitude.ofUnits u.natAbs 1).rank : Int) ≤
      v.sign * ((Magnitude.ofUnits v.natAbs 1).rank : Int) := by
  rcases Int.lt_or_le u 0 with hu | hu
  · rcases Int.lt_or_le v 0 with hv | hv
    · have hmono := Magnitude.rank_ofUnits_mono (show v.natAbs ≤ u.natAbs by omega)
      rw [Int.sign_eq_neg_one_of_neg hu, Int.sign_eq_neg_one_of_neg hv]
      omega
    · have hsign : 0 ≤ v.sign := Int.sign_nonneg_iff.mpr hv
      have hright := Int.mul_nonneg hsign (Int.natCast_nonneg (Magnitude.ofUnits v.natAbs 1).rank)
      rw [Int.sign_eq_neg_one_of_neg hu]
      omega
  · rcases Int.lt_or_eq_of_le hu with hpos | rfl
    · have hmono := Magnitude.rank_ofUnits_mono (show u.natAbs ≤ v.natAbs by omega)
      rw [Int.sign_eq_one_of_pos hpos, Int.sign_eq_one_of_pos (by omega)]
      omega
    · have hsign : 0 ≤ v.sign := Int.sign_nonneg_iff.mpr h
      have hright := Int.mul_nonneg hsign (Int.natCast_nonneg (Magnitude.ofUnits v.natAbs 1).rank)
      rw [Int.sign_zero]
      omega

/-- Further up on the line there are more units. -/
theorem signedUnits_mono {s t : Bool} {m n : Magnitude}
    (h : (if s then -(m.rank : Int) else m.rank) ≤ if t then -(n.rank : Int) else n.rank) :
    signedUnits s m ≤ signedUnits t n := by
  cases s with
  | false =>
    cases t with
    | false =>
      have hunits := Magnitude.units_le_units (m := m) (n := n) (by simpa using h)
      simpa [signedUnits] using hunits
    | true =>
      simp only [Bool.false_eq_true, if_false, if_true] at h
      have hm : m.units = 0 := by simp [Magnitude.units_eq, show m.rank = 0 by omega]
      have hn : n.units = 0 := by simp [Magnitude.units_eq, show n.rank = 0 by omega]
      simp [signedUnits, hm, hn]
  | true =>
    cases t with
    | false =>
      simp only [signedUnits, Bool.false_eq_true, if_false, if_true]
      omega
    | true =>
      simp only [if_true] at h
      have hunits := Magnitude.units_le_units (show n.rank ≤ m.rank by omega)
      simp only [signedUnits, if_true]
      omega

/-! ## The lower and the upper one -/

section Choice

variable {x y z : Double} {i j : Int}

theorem exists_position? (h : x.isNaN = false) : ∃ i, x.position? = some i := by
  cases x with
  | nan => cases h
  | signed s m => exact ⟨_, rfl⟩

theorem lt_of_position? (hx : x.position? = some i) (hy : y.position? = some j) :
    x.lt y = decide (i < j) := by
  rw [lt, hx, hy]

theorem lt_iff : x.lt y = true ↔ ∃ i j, x.position? = some i ∧ y.position? = some j ∧ i < j := by
  unfold lt
  split
  · next i j hx hy => simp [hx, hy]
  · next hnone =>
    refine iff_of_false Bool.false_ne_true ?_
    rintro ⟨i, j, hx, hy, -⟩
    exact hnone i j hx hy

theorem lt_trans (hxy : x.lt y = true) (hyz : y.lt z = true) : x.lt z = true := by
  obtain ⟨i, j, hx, hy, hij⟩ := lt_iff.mp hxy
  obtain ⟨j', k, hy', hz, hjk⟩ := lt_iff.mp hyz
  obtain rfl := Option.some.inj (hy.symm.trans hy')
  exact lt_iff.mpr ⟨i, k, hx, hz, by omega⟩

theorem nan_lt (holder : Option Nat) (y : Double) : (nan holder).lt y = false := rfl

theorem lt_nan (x : Double) (holder : Option Nat) : x.lt (nan holder) = false := by
  cases x <;> rfl

theorem lower_nan (x : Double) (holder : Option Nat) : x.lower (nan holder) = x := by
  rw [lower, nan_lt, if_neg Bool.false_ne_true]

theorem upper_nan (x : Double) (holder : Option Nat) : x.upper (nan holder) = x := by
  rw [upper, lt_nan, if_neg Bool.false_ne_true]

theorem lower_of_position? (hx : x.position? = some i) (hy : y.position? = some j) :
    x.lower y = if j < i then y else x := by
  rw [lower, lt_of_position? hy hx]
  simp only [decide_eq_true_eq]

theorem upper_of_position? (hx : x.position? = some i) (hy : y.position? = some j) :
    x.upper y = if i < j then y else x := by
  rw [upper, lt_of_position? hx hy]
  simp only [decide_eq_true_eq]

theorem position?_lower (hx : x.position? = some i) (hy : y.position? = some j) :
    (x.lower y).position? = some (min i j) := by
  rw [lower_of_position? hx hy]
  split
  · rw [hy, Int.min_eq_right (by omega)]
  · rw [hx, Int.min_eq_left (by omega)]

/-- The lowest of three numbers, the first one of those that are; the last one may be NaN. -/
theorem lower_assoc (hx : x.isNaN = false) (hy : y.isNaN = false) (z : Double) :
    (x.lower y).lower z = x.lower (y.lower z) := by
  obtain ⟨i, hx⟩ := exists_position? hx
  obtain ⟨j, hy⟩ := exists_position? hy
  cases z with
  | nan => rw [lower_nan, lower_nan]
  | signed s m =>
    obtain ⟨k, hz⟩ : ∃ k, (signed s m).position? = some k := ⟨_, rfl⟩
    rw [lower_of_position? (position?_lower hx hy) hz,
      lower_of_position? hx (position?_lower hy hz), lower_of_position? hx hy,
      lower_of_position? hy hz]
    repeat' split
    all_goals first | rfl | omega

theorem isNaN_lower (hx : x.isNaN = false) (y : Double) : (x.lower y).isNaN = false := by
  unfold lower
  split
  · next h =>
    cases y with
    | nan =>
      rw [nan_lt] at h
      cases h
    | signed s m => rfl
  · exact hx

/-! Turning the line around turns the upper one into the lower one. -/

theorem neg_neg (x : Double) : x.neg.neg = x := by
  cases x with
  | nan => rfl
  | signed s m => rw [neg, neg, Bool.not_not]

theorem isNaN_neg (x : Double) : x.neg.isNaN = x.isNaN := by
  cases x <;> rfl

theorem neg_lt_neg (x y : Double) : x.neg.lt y.neg = y.lt x := by
  cases x with
  | nan holder => exact (lt_nan y holder).symm
  | signed s m =>
    cases y with
    | nan => rfl
    | signed t n =>
      obtain ⟨i, hx⟩ : ∃ i, (signed s m).position? = some i := ⟨_, rfl⟩
      obtain ⟨j, hy⟩ : ∃ j, (signed t n).position? = some j := ⟨_, rfl⟩
      have hx' : (signed s m).neg.position? = some (-i) := by rw [position?_neg, hx]; rfl
      have hy' : (signed t n).neg.position? = some (-j) := by rw [position?_neg, hy]; rfl
      rw [lt_of_position? hx' hy', lt_of_position? hy hx, decide_eq_decide]
      omega

theorem upper_eq_neg (x y : Double) : x.upper y = (x.neg.lower y.neg).neg := by
  rw [upper, lower, neg_lt_neg]
  split <;> exact (neg_neg _).symm

theorem upper_assoc (hx : x.isNaN = false) (hy : y.isNaN = false) (z : Double) :
    (x.upper y).upper z = x.upper (y.upper z) := by
  rw [← isNaN_neg] at hx hy
  simp only [upper_eq_neg, neg_neg, lower_assoc hx hy]

theorem isNaN_upper (hx : x.isNaN = false) (y : Double) : (x.upper y).isNaN = false := by
  rw [← isNaN_neg] at hx
  rw [upper_eq_neg, isNaN_neg, isNaN_lower hx]

end Choice

/-- An operation that goes through numbers from a start on and keeps within a range: there it is
associative, and the start is neutral. -/
structure IsExtremum (op : Double → Double → Double) (start : Double) (Range : Double → Prop) :
    Prop where
  start_mem : Range start
  op_mem : ∀ {x}, Range x → ∀ y, Range (op x y)
  op_start : ∀ {x}, Range x → op x start = x
  op_assoc : ∀ {x y}, Range x → Range y → ∀ z, op (op x y) z = op x (op y z)

/-- From `1.0` down. -/
theorem isExtremum_lower : IsExtremum lower one fun x => x.isNaN = false ∧ one.lt x = false where
  start_mem := ⟨rfl, by decide⟩
  op_mem := by
    rintro x ⟨hx, hone⟩ y
    refine ⟨isNaN_lower hx y, ?_⟩
    unfold lower
    split
    · next hlt =>
      rw [Bool.eq_false_iff] at hone ⊢
      exact fun hy => hone (lt_trans hy hlt)
    · exact hone
  op_start := by
    rintro x ⟨-, hone⟩
    rw [lower, hone, if_neg Bool.false_ne_true]
  op_assoc := fun hx hy z => lower_assoc hx.1 hy.1 z

/-- From `0.0` up. -/
theorem isExtremum_upper : IsExtremum upper zero fun x => x.isNaN = false ∧ x.lt zero = false where
  start_mem := ⟨rfl, by decide⟩
  op_mem := by
    rintro x ⟨hx, hzero⟩ y
    refine ⟨isNaN_upper hx y, ?_⟩
    unfold upper
    split
    · next hlt =>
      rw [Bool.eq_false_iff] at hzero ⊢
      exact fun hy => hzero (lt_trans hlt hy)
    · exact hzero
  op_start := by
    rintro x ⟨-, hzero⟩
    rw [upper, hzero, if_neg Bool.false_ne_true]
  op_assoc := fun hx hy z => upper_assoc hx.1 hy.1 z

/-! ## Complements -/

section Complement

variable {x y : Double} {i j : Int}

theorem signedUnits_not (s : Bool) (m : Magnitude) : signedUnits (!s) m = -signedUnits s m := by
  cases s <;> simp [signedUnits]

theorem one_sub_of_finite (s : Bool) {m : Magnitude} (hm : m.isInfinite = false) :
    one.sub (signed s m) = ofUnits false (Magnitude.one.units - signedUnits s m) := by
  have hadd : one.add (signed (!s) m) = _ := add_of_finite rfl hm
  rw [sub, neg, hadd, signedUnits_not, Bool.false_and, Int.sub_eq_add_neg]
  rfl

theorem one_sub_of_infinite (s : Bool) {m : Magnitude} (hm : m.isInfinite = true) :
    one.sub (signed s m) = signed (!s) m := by
  have hone : Magnitude.one.isInfinite = false := rfl
  show (signed false Magnitude.one).add (signed (!s) m) = _
  rw [add, hone, hm]
  rfl

theorem bounds_of_position? (hx : x.position? = some i) :
    -(Magnitude.infiniteRank : Int) ≤ i ∧ i ≤ Magnitude.infiniteRank := by
  cases x with
  | nan => cases hx
  | signed s m =>
    have hrank := m.rank_le
    cases s <;> cases hx <;> simp only [if_true, Bool.false_eq_true, if_false] <;> omega

theorem rank_of_isInfinite {m : Magnitude} (h : m.isInfinite = true) :
    m.rank = Magnitude.infiniteRank :=
  beq_iff_eq.mp h

theorem rank_of_isFinite {m : Magnitude} (h : m.isInfinite = false) :
    m.rank < Magnitude.infiniteRank :=
  Nat.lt_of_le_of_ne m.rank_le (beq_eq_false_iff_ne.mp h)

theorem isNaN_complement (hx : x.isNaN = false) : (one.sub x).isNaN = false := by
  cases x with
  | nan => cases hx
  | signed s m =>
    cases hm : m.isInfinite with
    | true =>
      rw [one_sub_of_infinite s hm]
      rfl
    | false =>
      rw [one_sub_of_finite s hm]
      rfl

section Signed

variable {s t : Bool} {m n : Magnitude}

/-- The infinities are at the two ends of the line. -/
theorem position_of_infinite (hm : m.isInfinite = true) (hx : (signed s m).position? = some i) :
    i = Magnitude.infiniteRank ∨ i = -(Magnitude.infiniteRank : Int) := by
  rw [position?, Option.some.injEq, rank_of_isInfinite hm] at hx
  cases s with
  | false => exact Or.inl hx.symm
  | true => exact Or.inr hx.symm

theorem position_of_finite (hm : m.isInfinite = false) (hx : (signed s m).position? = some i) :
    -(Magnitude.infiniteRank : Int) < i ∧ i < Magnitude.infiniteRank := by
  have hrank := rank_of_isFinite hm
  rw [position?, Option.some.injEq] at hx
  split at hx <;> omega

/-- The complement of an infinity is the other one. -/
theorem position_complement_of_infinite (hm : m.isInfinite = true)
    (hx : (signed s m).position? = some i) : (one.sub (signed s m)).position? = some (-i) := by
  rw [position?, Option.some.injEq] at hx
  rw [one_sub_of_infinite s hm, position?, ← hx]
  cases s with
  | false => rfl
  | true => exact congrArg some (Int.neg_neg _).symm

/-- Between numbers the difference is exact before it is rounded, and rounding is monotone. -/
theorem complement_le_of_finite {i' j' : Int} (hm : m.isInfinite = false)
    (hn : n.isInfinite = false) (hx : (signed s m).position? = some i)
    (hy : (signed t n).position? = some j) (hi' : (one.sub (signed s m)).position? = some i')
    (hj' : (one.sub (signed t n)).position? = some j') (h : i ≤ j) : j' ≤ i' := by
  rw [← Option.some.inj hx, ← Option.some.inj hy] at h
  have hunits := signedUnits_mono h
  rw [one_sub_of_finite s hm, position?_ofUnits, Option.some.injEq] at hi'
  rw [one_sub_of_finite t hn, position?_ofUnits, Option.some.injEq] at hj'
  rw [← hi', ← hj']
  exact position_ofUnits_mono (by omega)

end Signed

/-- The complement turns the order around. An infinite complement is above or below all others. -/
theorem exists_complement_le (hx : x.position? = some i) (hy : y.position? = some j)
    (h : i ≤ j) : ∃ i' j', (one.sub x).position? = some i' ∧ (one.sub y).position? = some j' ∧
      j' ≤ i' := by
  match x, y with
  | .nan _, _ => cases hx
  | _, .nan _ => cases hy
  | .signed s m, .signed t n =>
    obtain ⟨i', hi'⟩ := exists_position? (isNaN_complement (Eq.refl (signed s m).isNaN))
    obtain ⟨j', hj'⟩ := exists_position? (isNaN_complement (Eq.refl (signed t n).isNaN))
    refine ⟨i', j', hi', hj', ?_⟩
    have hibounds := bounds_of_position? hi'
    have hjbounds := bounds_of_position? hj'
    cases hm : m.isInfinite with
    | true =>
      have hi := Option.some.inj (hi'.symm.trans (position_complement_of_infinite hm hx))
      cases hn : n.isInfinite with
      | true =>
        have hj := Option.some.inj (hj'.symm.trans (position_complement_of_infinite hn hy))
        omega
      | false =>
        -- `x` is below `y`, so it is the infinity at the lower end
        have hfinite := position_of_finite hn hy
        have hends := position_of_infinite hm hx
        omega
    | false =>
      cases hn : n.isInfinite with
      | true =>
        have hj := Option.some.inj (hj'.symm.trans (position_complement_of_infinite hn hy))
        have hfinite := position_of_finite hm hx
        have hends := position_of_infinite hn hy
        omega
      | false => exact complement_le_of_finite hm hn hx hy hi' hj' h

/-- The complement is never `-0.0`. -/
theorem complement_ne_negZero (x : Double) : one.sub x ≠ signed true .zero := by
  cases x with
  | nan => exact nofun
  | signed s m =>
    intro heq
    cases hm : m.isInfinite with
    | true =>
      rw [one_sub_of_infinite s hm, signed.injEq] at heq
      rw [heq.2] at hm
      cases hm
    | false =>
      rw [one_sub_of_finite s hm, ofUnits, signed.injEq] at heq
      obtain ⟨hsign, hzero⟩ := heq
      split at hsign
      · cases hsign
      · next hne =>
        have hpos := Magnitude.rank_ofUnits_pos (Int.natAbs_pos.mpr hne)
        rw [hzero] at hpos
        cases hpos

/-- Twins of which none is `-0.0` are one number. -/
theorem Twin.eq (h : x.Twin y) (hx : x ≠ signed true .zero) (hy : y ≠ signed true .zero) :
    x = y := by
  obtain ⟨hnan, hnan'⟩ | ⟨s, t, m, rfl, rfl, hsign⟩ := alike_cases h.alike
  · obtain ⟨holder, rfl⟩ := exists_nan_of_isNaN hnan
    obtain ⟨holder', rfl⟩ := exists_nan_of_isNaN hnan'
    exact congrArg nan h.holder
  · rcases hsign with rfl | hrank
    · rfl
    · obtain rfl : m = .zero := Magnitude.ext_rank hrank
      have hs : s = false := by
        cases s with
        | false => rfl
        | true => exact absurd rfl hx
      have ht : t = false := by
        cases t with
        | false => rfl
        | true => exact absurd rfl hy
      rw [hs, ht]

/-- Complements at one position are one number. -/
theorem complement_eq_of_alike (h : (one.sub x).Alike (one.sub y)) : one.sub x = one.sub y := by
  have htwin : (one.sub x).Twin (one.sub y) := ⟨h, by rw [sub, sub, holder?_add, holder?_add]⟩
  exact htwin.eq (complement_ne_negZero x) (complement_ne_negZero y)

/-- The complement of the lower one of two numbers is the upper one of their complements. -/
theorem complement_lower (hx : x.isNaN = false) (y : Double) :
    one.sub (x.lower y) = (one.sub x).upper (one.sub y) := by
  obtain ⟨i, hi⟩ := exists_position? hx
  cases hy : y.position? with
  | none =>
    obtain ⟨holder, rfl⟩ := exists_nan_of_isNaN (isNaN_iff.mpr hy)
    rw [lower_nan]
    exact (upper_nan _ none).symm
  | some j =>
    rw [lower_of_position? hi hy]
    split
    · next hlt =>
      obtain ⟨j', i', hj', hi', hle⟩ := exists_complement_le hy hi (Int.le_of_lt hlt)
      rw [upper_of_position? hi' hj']
      split
      · rfl
      · refine complement_eq_of_alike (alike_iff.mpr ?_)
        rw [hi', hj', show i' = j' by omega]
    · next hle =>
      obtain ⟨i', j', hi', hj', hle⟩ := exists_complement_le hi hy (by omega)
      rw [upper_of_position? hi' hj', if_neg (by omega)]

/-- The complement of the upper one of two numbers is the lower one of their complements. -/
theorem complement_upper (hx : x.isNaN = false) (y : Double) :
    one.sub (x.upper y) = (one.sub x).lower (one.sub y) := by
  obtain ⟨i, hi⟩ := exists_position? hx
  cases hy : y.position? with
  | none =>
    obtain ⟨holder, rfl⟩ := exists_nan_of_isNaN (isNaN_iff.mpr hy)
    rw [upper_nan]
    exact (lower_nan _ none).symm
  | some j =>
    rw [upper_of_position? hi hy]
    split
    · next hlt =>
      obtain ⟨i', j', hi', hj', hle⟩ := exists_complement_le hi hy (Int.le_of_lt hlt)
      rw [lower_of_position? hi' hj']
      split
      · rfl
      · refine complement_eq_of_alike (alike_iff.mpr ?_)
        rw [hi', hj', show i' = j' by omega]
    · next hle =>
      obtain ⟨j', i', hj', hi', hle⟩ := exists_complement_le hy hi (by omega)
      rw [lower_of_position? hi' hj', if_neg (by omega)]

theorem complement_one : one.sub one = zero := by decide +kernel

theorem complement_zero : one.sub zero = one := by decide +kernel

end Complement

end Double

end FuzzyRules
