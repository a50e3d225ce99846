import FuzzyRules.Proofs.Duality

/-!
# What the graded connectives choose

The graded conjunction of numbers is the lowest one of them and `1.0`, and the graded disjunction
the highest one of them and `0.0`, where NaN does not count (`foldl_isOutermost`). Which numbers
there are fixes the result up to the sign of zero (`IsOutermost.numEq`), whatever their order and
however often they stand there. A disjunction is never `-0.0` (`foldl_upper_ne_negZero`), so that it
is fixed to the bit.
-/

namespace FuzzyRules

namespace Double

variable {x y z : Double} {i j : Int}

/-! ## Order -/

/-- Below or numerically equal; false as soon as one side is NaN. -/
def le (x y : Double) : Bool := x.lt y || x.numEq y

theorem le_iff : x.le y = true ↔ ∃ i j, x.position? = some i ∧ y.position? = some j ∧ i ≤ j := by
  rw [le, Bool.or_eq_true, lt_iff, numEq_iff]
  refine ⟨?_, ?_⟩
  · rintro (⟨i, j, hx, hy, hlt⟩ | ⟨i, hx, hy⟩)
    · exact ⟨i, j, hx, hy, Int.le_of_lt hlt⟩
    · exact ⟨i, i, hx, hy, Int.le_refl i⟩
  · rintro ⟨i, j, hx, hy, hle⟩
    rcases Int.lt_or_eq_of_le hle with hlt | rfl
    · exact .inl ⟨i, j, hx, hy, hlt⟩
    · exact .inr ⟨i, hx, hy⟩

theorem le_refl (hx : x.isNaN = false) : x.le x = true := by
  obtain ⟨i, hi⟩ := exists_position? hx
  exact le_iff.mpr ⟨i, i, hi, hi, Int.le_refl i⟩

theorem le_trans (hxy : x.le y = true) (hyz : y.le z = true) : x.le z = true := by
  obtain ⟨i, j, hx, hy, hij⟩ := le_iff.mp hxy
  obtain ⟨j', k, hy', hz, hjk⟩ := le_iff.mp hyz
  obtain rfl := Option.some.inj (hy.symm.trans hy')
  exact le_iff.mpr ⟨i, k, hx, hz, by omega⟩

theorem numEq_of_le (hxy : x.le y = true) (hyx : y.le x = true) : x.numEq y = true := by
  obtain ⟨i, j, hx, hy, hij⟩ := le_iff.mp hxy
  obtain ⟨j', i', hy', hx', hji⟩ := le_iff.mp hyx
  obtain rfl := Option.some.inj (hy.symm.trans hy')
  obtain rfl := Option.some.inj (hx.symm.trans hx')
  obtain rfl : i = j := by omega
  exact numEq_iff.mpr ⟨i, hx, hy⟩

theorem position?_upper (hx : x.position? = some i) (hy : y.position? = some j) :
    (x.upper y).position? = some (max i j) := by
  rw [upper_of_position? hx hy]
  split
  · rw [hy, Int.max_eq_right (by omega)]
  · rw [hx, Int.max_eq_left (by omega)]

/-! ## Running choices -/

/-- An operation that takes the outer one of two numbers, and a number in place of NaN. Of two
numbers the first argument of `Outside` is the outer one. -/
structure IsChoice (op : Double → Double → Double) (Outside : Double → Double → Prop) : Prop where
  refl : ∀ {x}, x.isNaN = false → Outside x x
  trans : ∀ {x y z}, Outside x y → Outside y z → Outside x z
  antisymm : ∀ {x y}, Outside x y → Outside y x → x.numEq y = true
  eq_or_eq : ∀ x y, op x y = x ∨ op x y = y
  isNaN_op : ∀ {x}, x.isNaN = false → ∀ y, (op x y).isNaN = false
  outside_left : ∀ {x}, x.isNaN = false → ∀ y, Outside (op x y) x
  outside_right : ∀ {x y}, x.isNaN = false → y.isNaN = false → Outside (op x y) y

theorem isChoice_lower : IsChoice lower fun x y => x.le y = true where
  refl := le_refl
  trans := le_trans
  antisymm := numEq_of_le
  eq_or_eq x y := by
    unfold lower
    split
    · exact .inr rfl
    · exact .inl rfl
  isNaN_op := isNaN_lower
  outside_left {x} hx y := by
    obtain ⟨i, hi⟩ := exists_position? hx
    cases hy : y.isNaN with
    | true => cases y with
      | nan => rw [lower_nan]; exact le_refl hx
      | signed => cases hy
    | false =>
      obtain ⟨j, hj⟩ := exists_position? hy
      exact le_iff.mpr ⟨_, i, position?_lower hi hj, hi, by omega⟩
  outside_right {x y} hx hy := by
    obtain ⟨i, hi⟩ := exists_position? hx
    obtain ⟨j, hj⟩ := exists_position? hy
    exact le_iff.mpr ⟨_, j, position?_lower hi hj, hj, by omega⟩

theorem isChoice_upper : IsChoice upper fun x y => y.le x = true where
  refl := le_refl
  trans hxy hyz := le_trans hyz hxy
  antisymm hxy hyx := numEq_of_le hyx hxy
  eq_or_eq x y := by
    unfold upper
    split
    · exact .inr rfl
    · exact .inl rfl
  isNaN_op := isNaN_upper
  outside_left {x} hx y := by
    obtain ⟨i, hi⟩ := exists_position? hx
    cases hy : y.isNaN with
    | true => cases y with
      | nan => rw [upper_nan]; exact le_refl hx
      | signed => cases hy
    | false =>
      obtain ⟨j, hj⟩ := exists_position? hy
      exact le_iff.mpr ⟨i, _, hi, position?_upper hi hj, by omega⟩
  outside_right {x y} hx hy := by
    obtain ⟨i, hi⟩ := exists_position? hx
    obtain ⟨j, hj⟩ := exists_position? hy
    exact le_iff.mpr ⟨j, _, hj, position?_upper hi hj, by omega⟩

/-- The outermost one of a start and the numbers of a list, among which NaN does not count. -/
structure IsOutermost (Outside : Double → Double → Prop) (start : Double) (xs : List Double)
    (r : Double) : Prop where
  isNaN_eq : r.isNaN = false
  eq_or_mem : r = start ∨ r ∈ xs
  outside_start : Outside r start
  outside : ∀ x ∈ xs, x.isNaN = false → Outside r x

section Outermost

variable {op : Double → Double → Double} {Outside : Double → Double → Prop} {start : Double}

/-- By induction on the numbers, from any start that is one. -/
theorem foldl_isOutermost (hop : IsChoice op Outside) (hstart : start.isNaN = false)
    (xs : List Double) : IsOutermost Outside start xs (xs.foldl op start) := by
  induction xs generalizing start with
  | nil => exact ⟨hstart, .inl rfl, hop.refl hstart, by simp⟩
  | cons y ys ih =>
    obtain ⟨hnan, hmem, hout, hall⟩ := ih (hop.isNaN_op hstart y)
    rw [List.foldl_cons]
    refine ⟨hnan, ?_, hop.trans hout (hop.outside_left hstart y), fun z hz hnumber => ?_⟩
    · rcases hmem with hnext | hmem
      · rcases hop.eq_or_eq start y with heq | heq
        · exact .inl (hnext.trans heq)
        · exact .inr (by rw [hnext, heq]; exact List.mem_cons_self)
      · exact .inr (List.mem_cons_of_mem _ hmem)
    · rcases List.mem_cons.mp hz with rfl | hz
      · exact hop.trans hout (hop.outside_right hstart hnumber)
      · exact hall z hz hnumber

/-- The same numbers have the same outermost one, up to the sign of zero. -/
theorem IsOutermost.numEq (hop : IsChoice op Outside) {xs ys : List Double} {r s : Double}
    (hr : IsOutermost Outside start xs r) (hs : IsOutermost Outside start ys s)
    (h : ∀ x, x.isNaN = false → (x ∈ xs ↔ x ∈ ys)) : r.numEq s = true := by
  have hrs : Outside r s := by
    rcases hs.eq_or_mem with rfl | hmem
    · exact hr.outside_start
    · exact hr.outside s ((h s hs.isNaN_eq).mpr hmem) hs.isNaN_eq
  have hsr : Outside s r := by
    rcases hr.eq_or_mem with rfl | hmem
    · exact hs.outside_start
    · exact hs.outside r ((h r hr.isNaN_eq).mp hmem) hr.isNaN_eq
  exact hop.antisymm hrs hsr

end Outermost

/-- A running maximum moves strictly up from `0.0`, or not at all. -/
theorem eq_zero_or_lt_foldl_upper (xs : List Double) (hx : x = zero ∨ zero.lt x = true) :
    xs.foldl upper x = zero ∨ zero.lt (xs.foldl upper x) = true := by
  induction xs generalizing x with
  | nil => exact hx
  | cons y ys ih =>
    refine ih ?_
    unfold upper
    split
    · next hlt =>
      rcases hx with rfl | hx
      · exact .inr hlt
      · exact .inr (lt_trans hx hlt)
    · exact hx

theorem foldl_upper_ne_negZero (xs : List Double) : xs.foldl upper zero ≠ signed true .zero := by
  intro heq
  rcases eq_zero_or_lt_foldl_upper xs (.inl rfl) with hzero | hlt
  · rw [heq] at hzero
    exact absurd hzero (by decide)
  · rw [heq] at hlt
    exact absurd hlt (by decide)

end Double

/-! ## Calls -/

/-- A graded connective goes through the numbers that its operands evaluate to. -/
theorem result_call_floats {table : Table} {c : Connective} (env : Environment)
    (hget : table.get? c.name = some (.connective c)) {op : Double → Double → Double}
    {start : Double} (hc : ∀ args, args ≠ [] → c.apply args = c.combine op start args)
    {programs : List Value} (hprograms : programs ≠ []) {xs : List Double}
    (hxs : programs.map (fun p => (evaluate table env p).result) = xs.map .float) :
    (evaluate table env (c.call programs)).result = .float (xs.foldl op start) := by
  have hne : xs ≠ [] := by
    rintro rfl
    exact hprograms (List.map_eq_nil_iff.mp hxs)
  rw [result_call_eq env hget, hxs, Connective.valueOn_floats hc hne]

/-- Of programs that evaluate to numbers, the graded conjunction is the lowest number, from `1.0`
down, and the graded disjunction the highest one, from `0.0` up; both leave NaN out. Other programs
with the same numbers, NaN apart, have the same conjunction up to the sign of zero and the same
disjunction to the bit. So their order, repetitions and NaN do not matter. -/
theorem evaluate_extremum_bounds (table : Table) (env : Environment)
    (builtin : ∀ c ∈ Connective.extrema, table.get? c.name = some (.connective c))
    (programs : List Value) (hprograms : programs ≠ []) (xs : List Double)
    (hxs : programs.map (fun p => (evaluate table env p).result) = xs.map .float) :
    ∃ low high,
      (evaluate table env (Connective.minimum.call programs)).result = .float low ∧
      (evaluate table env (Connective.maximum.call programs)).result = .float high ∧
      Double.IsOutermost (fun r x => r.le x = true) .one xs low ∧
      Double.IsOutermost (fun r x => x.le r = true) .zero xs high ∧
      high ≠ .signed true .zero ∧
      ∀ (programs' : List Value) (ys : List Double), programs' ≠ [] →
        programs'.map (fun p => (evaluate table env p).result) = ys.map .float →
        (∀ x, x.isNaN = false → (x ∈ xs ↔ x ∈ ys)) →
        (∃ low', (evaluate table env (Connective.minimum.call programs')).result = .float low' ∧
          low.numEq low' = true) ∧
        (evaluate table env (Connective.maximum.call programs')).result = .float high := by
  have hlow (zs : List Double) := Double.foldl_isOutermost Double.isChoice_lower
    (Eq.refl Double.one.isNaN) zs
  have hhigh (zs : List Double) := Double.foldl_isOutermost Double.isChoice_upper
    (Eq.refl Double.zero.isNaN) zs
  have hminimum := @result_call_floats table .minimum env (builtin .minimum (by decide)) .lower .one
    fun _ => Connective.apply_minimum
  have hmaximum := @result_call_floats table .maximum env (builtin .maximum (by decide)) .upper
    .zero fun _ => Connective.apply_maximum
  refine ⟨_, _, hminimum hprograms hxs, hmaximum hprograms hxs, hlow xs, hhigh xs,
    Double.foldl_upper_ne_negZero xs, fun programs' ys hprograms' hys hsame => ⟨⟨_,
      hminimum hprograms' hys, (hlow xs).numEq Double.isChoice_lower (hlow ys) hsame⟩, ?_⟩⟩
  have hequal := (hhigh xs).numEq Double.isChoice_upper (hhigh ys) hsame
  rw [hmaximum hprograms' hys, (Double.Twin.of_numEq hequal).eq
    (Double.foldl_upper_ne_negZero xs) (Double.foldl_upper_ne_negZero ys)]

theorem evaluate_extremum_bounds_rearranged :
    let half : Double := .signed false (.ofRatio 1 2)
    let negZero : Double := .signed true .zero
    let xs : List Double := [half, .nan none, negZero, .zero]
    let ys : List Double := [.zero, half, negZero, half, half]
    let low (zs : List Double) :=
      (evaluate .standard .empty (.expr (.str "fand" :: zs.map .float))).result
    let high (zs : List Double) :=
      (evaluate .standard .empty (.expr (.str "for" :: zs.map .float))).result
    (∀ c ∈ Connective.extrema, Table.standard.get? c.name = some (.connective c)) ∧
      xs.map Value.float ≠ [] ∧
      (xs.map .float).map (fun p => (evaluate .standard .empty p).result) = xs.map .float ∧
      (∀ x, x.isNaN = false → (x ∈ xs ↔ x ∈ ys)) ∧
      low xs = .float negZero ∧ low ys = .float .zero ∧ negZero.numEq .zero = true ∧
      high xs = .float half ∧ high ys = .float half := by
  intro half negZero xs ys low high
  have builtin : ∀ c ∈ Connective.extrema, Table.standard.get? c.name = some (.connective c) :=
    fun c _ => c.get?_standard
  have hsame (x : Double) (hx : x.isNaN = false) : x ∈ xs ↔ x ∈ ys := by
    have hnan : x ≠ .nan none := by rintro rfl; cases hx
    simp only [xs, ys, List.mem_cons, List.not_mem_nil, hnan]
    grind
  obtain ⟨l, h, hlow, hhigh, -, -, -, hrearranged⟩ := evaluate_extremum_bounds .standard .empty
    builtin (xs.map .float) (by simp [xs]) xs rfl
  obtain ⟨⟨l', hlow', hequal⟩, hhigh'⟩ := hrearranged (ys.map .float) ys (by simp [ys]) rfl hsame
  have hl : low xs = .float negZero := by decide +kernel
  have hl' : low ys = .float .zero := by decide +kernel
  have hh : high xs = .float half := by decide +kernel
  obtain rfl : l = negZero := Value.float.inj (hlow.symm.trans hl)
  obtain rfl : l' = .zero := Value.float.inj (hlow'.symm.trans hl')
  obtain rfl : h = half := Value.float.inj (hhigh.symm.trans hh)
  exact ⟨builtin, by simp [xs], rfl, hsame, hl, hl', hequal, hh, hhigh'⟩

end FuzzyRules
