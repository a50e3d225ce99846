import FuzzyRules.Proofs.Membership
import FuzzyRules.Proofs.Monotone

/-!
# Normalized sets

Normalizing changes the weights of a set one by one (`reweigh`), by division by their total. So the
first member that equals a value stays the first one (`membership_reweigh`), and since division by
one number is monotone, the order of the weights stays or turns around with the sign of the total.
-/

namespace FuzzyRules.FuzzySet

variable {set : FuzzySet} {m : Weighted Value} {v : Value}

/-! ## The first equal member -/

/-- The first member that equals a value. -/
def IsFirst (set : FuzzySet) (v : Value) (m : Weighted Value) : Prop :=
  ∃ before after, set = before ++ m :: after ∧ m.value.isEqual v = true ∧
    ∀ n ∈ before, n.value.isEqual v = false

theorem exists_isFirst_or (set : FuzzySet) (v : Value) :
    (∃ m, IsFirst set v m) ∨ ∀ n ∈ set, n.value.isEqual v = false := by
  cases hfind : set.find? (fun n => n.value.isEqual v) with
  | none => exact .inr fun n hn => Bool.eq_false_iff.mpr (List.find?_eq_none.mp hfind n hn)
  | some m =>
    obtain ⟨hm, before, after, hset, hbefore⟩ := List.find?_eq_some_iff_append.mp hfind
    exact .inl ⟨m, before, after, hset, hm, fun n hn => by simpa using hbefore n hn⟩

theorem membership_of_isFirst (h : IsFirst set v m) : membership set v = m.weight := by
  obtain ⟨before, after, rfl, hm, hbefore⟩ := h
  induction before with
  | nil => rw [List.nil_append, membership_cons, hm, if_pos rfl]
  | cons n before ih =>
    obtain ⟨hn, hbefore⟩ := List.forall_mem_cons.mp hbefore
    rw [List.cons_append, membership_cons, hn]
    exact ih hbefore

/-! ## Other weights -/

/-- The set with other weights. -/
def reweigh (f : Double → Double) (set : FuzzySet) : FuzzySet :=
  set.map fun n => { n with weight := f n.weight }

theorem map_value_reweigh (f : Double → Double) (set : FuzzySet) :
    (reweigh f set).map (·.value) = set.map (·.value) := by
  rw [reweigh, List.map_map]
  rfl

theorem isFirst_reweigh (f : Double → Double) (h : IsFirst set v m) :
    IsFirst (reweigh f set) v { m with weight := f m.weight } := by
  obtain ⟨before, after, rfl, hm, hbefore⟩ := h
  refine ⟨reweigh f before, reweigh f after, List.map_append, hm, ?_⟩
  exact List.forall_mem_map.mpr hbefore

/-- A value has the new weight of the first member that it equals, and zero if there is none. -/
theorem membership_reweigh (f : Double → Double) (set : FuzzySet) (v : Value) :
    (∀ m, IsFirst set v m → membership (reweigh f set) v = f m.weight) ∧
      ((∀ m, ¬IsFirst set v m) → membership (reweigh f set) v = .zero) := by
  refine ⟨fun m hm => membership_of_isFirst (isFirst_reweigh f hm), fun hnone => ?_⟩
  obtain ⟨m, hm⟩ | hunequal := exists_isFirst_or set v
  · exact absurd hm (hnone m)
  · exact membership_of_forall (List.forall_mem_map.mpr hunequal)

theorem weight_reweigh {f : Double → Double} {i : Nat} {m' : Weighted Value}
    (hm : set[i]? = some m) (hm' : (reweigh f set)[i]? = some m') : m'.weight = f m.weight := by
  rw [reweigh, List.getElem?_map, hm] at hm'
  cases hm'
  rfl

/-! ## Division by the total -/

theorem normalize_of_zero (h : (total set).numEq .zero = true) : normalize set = set := if_pos h

theorem normalize_of_ne_zero (h : (total set).numEq .zero = false) :
    normalize set = reweigh (·.div (total set)) set := by
  rw [normalize, h]
  rfl

theorem isFinite_weight (h : (total set).isFinite = true) {i : Nat} (hm : set[i]? = some m) :
    m.weight.isFinite = true :=
  (Double.isFinite_of_foldl_add h).2 _ (List.mem_map_of_mem (List.mem_of_getElem? hm))

/-- A set whose weights sum to zero stays as it is. Otherwise all weights are divided by the total:
the values stay in place, a value has the weight of the first member that it equals divided by the
total, and if the total is finite, the weights stay in order if it is positive and are in reverse
order if it is negative. -/
theorem normalize_membership_and_order (set : FuzzySet) :
    ((total set).numEq .zero = true → normalize set = set) ∧
    ((total set).numEq .zero = false →
      (normalize set).map (·.value) = set.map (·.value) ∧
      (∀ v, (∀ m, IsFirst set v m → membership (normalize set) v = m.weight.div (total set)) ∧
        ((∀ m, ¬IsFirst set v m) → membership (normalize set) v = .zero)) ∧
      ((total set).isFinite = true → ∀ (i j : Nat) (m n m' n' : Weighted Value),
        set[i]? = some m → set[j]? = some n →
        (normalize set)[i]? = some m' → (normalize set)[j]? = some n' →
        m.weight.le n.weight = true →
        (Double.zero.lt (total set) = true → m'.weight.le n'.weight = true) ∧
        ((total set).lt .zero = true → n'.weight.le m'.weight = true))) := by
  refine ⟨normalize_of_zero, fun hne => ?_⟩
  rw [normalize_of_ne_zero hne]
  refine ⟨map_value_reweigh _ set, membership_reweigh _ set, ?_⟩
  intro hfinite i j m n m' n' hm hn hm' hn' hle
  have hmfinite := isFinite_weight hfinite hm
  have hnfinite := isFinite_weight hfinite hn
  rw [weight_reweigh hm hm', weight_reweigh hn hn']
  exact ⟨fun hpos => Double.div_le_div_of_pos hmfinite hnfinite hfinite hpos hle,
    fun hneg => Double.div_le_div_of_neg hmfinite hnfinite hfinite hneg hle⟩

/-- A negative total, with one value twice. -/
theorem normalize_membership_and_order_negative :
    let number (negative : Bool) (n : Nat) : Double := .signed negative (.ofRatio n 1)
    let balanced : FuzzySet := [⟨.str "a", number false 1⟩, ⟨.str "b", number true 1⟩]
    let set : FuzzySet :=
      [⟨.str "a", number false 1⟩, ⟨.str "b", number true 6⟩, ⟨.str "a", number false 3⟩]
    (total balanced).numEq .zero = true ∧ normalize balanced = balanced ∧
      (total set).numEq .zero = false ∧ (total set).isFinite = true ∧
      (total set).lt .zero = true ∧ (number true 6).le (number false 1) = true ∧
      IsFirst set (.str "a") ⟨.str "a", number false 1⟩ ∧
      membership (normalize set) (.str "a") = .signed true (.ofRatio 1 2) ∧
      ∃ m n, (normalize set)[0]? = some m ∧ (normalize set)[1]? = some n ∧
        m.weight.le n.weight = true := by
  intro number balanced set
  have hzero : (total balanced).numEq .zero = true := by decide +kernel
  have hne : (total set).numEq .zero = false := by decide +kernel
  have hfinite : (total set).isFinite = true := by decide +kernel
  have hneg : (total set).lt .zero = true := by decide +kernel
  have hle : (number true 6).le (number false 1) = true := by decide +kernel
  have hfirst : IsFirst set (.str "a") ⟨.str "a", number false 1⟩ := ⟨[], _, rfl, rfl, by simp⟩
  have hhalf : (number false 1).div (total set) = .signed true (.ofRatio 1 2) := by decide +kernel
  obtain ⟨-, hmembership, horder⟩ := (normalize_membership_and_order set).2 hne
  have hmembers : normalize set = reweigh (·.div (total set)) set := normalize_of_ne_zero hne
  have ha : (normalize set)[0]? = some ⟨.str "a", (number false 1).div (total set)⟩ := by
    rw [hmembers]
    rfl
  have hb : (normalize set)[1]? = some ⟨.str "b", (number true 6).div (total set)⟩ := by
    rw [hmembers]
    rfl
  exact ⟨hzero, (normalize_membership_and_order balanced).1 hzero, hne, hfinite, hneg, hle, hfirst,
    ((hmembership _).1 _ hfirst).trans hhalf, _, _, ha, hb,
    (horder hfinite 1 0 _ _ _ _ rfl rfl hb ha hle).2 hneg⟩

end FuzzyRules.FuzzySet
