import FuzzyRules.FuzzySet
import FuzzyRules.Proofs.Likeness

/-!
# Membership in a set

The degree of a value is the weight of the first member that equals it. Equality is symmetric and
transitive, so that a member that equals an earlier one is never the first (`membership_firsts`),
and in a set of `Distinct` members there is at most one that equals a value, wherever it stands
(`membership_of_mem`). Equal values have one degree (`membership_congr`), and a value with a NaN
inside that is met nowhere else equals no member at all (`membership_of_nan`).
-/

namespace FuzzyRules.FuzzySet

variable {set set' : FuzzySet} {m : Weighted Value} {v w : Value}

/-! ## The first equal member -/

theorem membership_of_forall (h : ∀ n ∈ set, n.value.isEqual v = false) :
    membership set v = .zero := by
  induction set with
  | nil => rfl
  | cons n rest ih =>
    rw [membership_cons, h n List.mem_cons_self]
    exact ih fun k hk => h k (List.mem_cons_of_mem n hk)

/-- The members whose value equals none before it; `earlier` is what stands before all of them. -/
def firsts (earlier : List Value) : FuzzySet → FuzzySet
  | [] => []
  | n :: rest =>
    if earlier.any (·.isEqual n.value) then firsts (n.value :: earlier) rest
    else n :: firsts (n.value :: earlier) rest

/-- For a value that equals nothing before the members, only the first ones count. By induction on
the members, for all that may stand before. -/
theorem membership_firsts {earlier : List Value} (set : FuzzySet)
    (h : ∀ u ∈ earlier, u.isEqual v = false) :
    membership (firsts earlier set) v = membership set v := by
  induction set generalizing earlier with
  | nil => rfl
  | cons n rest ih =>
    rw [firsts, membership_cons]
    cases hn : n.value.isEqual v with
    | true =>
      have hnew : earlier.any (·.isEqual n.value) = false := by
        rw [List.any_eq_false]
        intro u hu hun
        have huv := Value.isEqual_trans hun hn
        rw [h u hu] at huv
        cases huv
      rw [hnew, if_neg Bool.false_ne_true, membership_cons, hn, if_pos rfl, if_pos rfl]
    | false =>
      have hrest := ih (List.forall_mem_cons.mpr ⟨hn, h⟩)
      split
      · exact hrest
      · rw [membership_cons, hn]
        exact hrest

/-! ## Sets without equal members -/

/-- No member equals another one. -/
def Distinct (set : FuzzySet) : Prop := set.Pairwise fun n k => n.value.isEqual k.value = false

theorem Distinct.perm (h : Distinct set) (hperm : set.Perm set') : Distinct set' :=
  hperm.pairwise h fun hnk => (Value.isEqual_comm _ _).trans hnk

/-- The one member that equals a value decides its degree. -/
theorem membership_of_mem (h : Distinct set) (hm : m ∈ set) (hv : m.value.isEqual v = true) :
    membership set v = m.weight := by
  induction set with
  | nil => cases hm
  | cons n rest ih =>
    obtain ⟨hn, hrest⟩ := List.pairwise_cons.mp h
    rw [membership_cons]
    rcases List.mem_cons.mp hm with rfl | hm
    · rw [hv, if_pos rfl]
    · have hnv : n.value.isEqual v = false := by
        rw [Bool.eq_false_iff]
        intro hnv
        have hnm := Value.isEqual_trans hnv (Value.isEqual_symm hv)
        rw [hn m hm] at hnm
        cases hnm
      rw [hnv]
      exact ih hrest hm

/-- The order of the members does not matter. -/
theorem membership_perm (h : Distinct set) (hperm : set.Perm set') (v : Value) :
    membership set v = membership set' v := by
  by_cases hfound : ∃ n ∈ set, n.value.isEqual v = true
  · obtain ⟨n, hn, hnv⟩ := hfound
    rw [membership_of_mem h hn hnv, membership_of_mem (h.perm hperm) (hperm.mem_iff.mp hn) hnv]
  · have hnone : ∀ n ∈ set, n.value.isEqual v = false := fun n hn =>
      Bool.eq_false_iff.mpr fun hnv => hfound ⟨n, hn, hnv⟩
    rw [membership_of_forall hnone, membership_of_forall fun n hn => hnone n (hperm.mem_iff.mpr hn)]

/-! ## Values asked for -/

/-- Values that are the same or equal have one degree. -/
theorem membership_congr (set : FuzzySet) (h : v = w ∨ v.isEqual w = true) :
    membership set v = membership set w := by
  rcases h with rfl | hvw
  · rfl
  · have hsame (n : Weighted Value) : n.value.isEqual v = n.value.isEqual w :=
      Bool.eq_iff_iff.mpr ⟨fun hn => Value.isEqual_trans hn hvw,
        fun hn => Value.isEqual_trans hn (Value.isEqual_symm hvw)⟩
    rw [membership, membership, funext hsame]

/-- A value that equals something equals itself, and so has no NaN inside without a holder. -/
theorem membership_of_nan (set : FuzzySet) (h : .nan none ∈ v.numbers) :
    membership set v = .zero := by
  refine membership_of_forall fun n _ => Bool.eq_false_iff.mpr fun hnv => ?_
  have hself := Value.isEqual_trans (Value.isEqual_symm hnv) hnv
  exact Value.isEqual_self_iff.mp hself h

/-- Members that equal an earlier one can be left out. Where no member equals another one, neither
their order matters nor which of several equal values is asked for, to the bit. No value with a NaN
inside is a member, unless that NaN has a holder. -/
theorem membership_up_to_equality (set : FuzzySet) :
    (∀ v, membership (firsts [] set) v = membership set v) ∧
    (∀ values, membershipSum (firsts [] set) values = membershipSum set values) ∧
    (Distinct set → ∀ set' values values', set.Perm set' →
      List.Forall₂ (fun v w => v = w ∨ v.isEqual w = true) values values' →
      List.Forall₂ (fun v w => membership set v = membership set' w) values values' ∧
        membershipSum set values = membershipSum set' values') ∧
    ∀ v, .nan none ∈ v.numbers → membership set v = .zero := by
  have hfirsts (v : Value) : membership (firsts [] set) v = membership set v :=
    membership_firsts set (List.forall_mem_nil _)
  refine ⟨hfirsts, fun values => ?_, fun hset set' values values' hperm hvalues => ?_,
    fun v => membership_of_nan set⟩
  · rw [membershipSum, membershipSum, funext hfirsts]
  · have hdegrees : List.Forall₂ (fun v w => membership set v = membership set' w) values values' :=
      hvalues.imp fun v w hvw => (membership_perm hset hperm v).trans (membership_congr set' hvw)
    refine ⟨hdegrees, ?_⟩
    have hmap : values.map (membership set) = values'.map (membership set') := by
      rw [← List.forall₂_eq_eq_eq]
      exact List.forall₂_map_left_iff.mpr (List.forall₂_map_right_iff.mpr hdegrees)
    rw [membershipSum, membershipSum, hmap]

/-- Signed zeros inside of members, which are equal, and NaN, which is not. -/
theorem membership_up_to_equality_signed_zeros :
    let key (x : Double) : Value := .expr [.str "at", .fuzzy [⟨.float x, .one⟩]]
    let negZero : Double := .signed true .zero
    let half : Double := .signed false (.ofRatio 1 2)
    let set : FuzzySet := [⟨key (.nan none), .one⟩, ⟨key .zero, half⟩, ⟨.int 1, .one⟩]
    let values := [key .zero, .int 1, key (.nan none)]
    let values' := [key negZero, .int 1, key (.nan none)]
    firsts [] (set ++ [⟨key negZero, .one⟩]) = set ∧
      membership (set ++ [⟨key negZero, .one⟩]) (key negZero) = half ∧
      Distinct set ∧ set.Perm set.reverse ∧
      List.Forall₂ (fun v w => v = w ∨ v.isEqual w = true) values values' ∧
      .nan none ∈ (key (.nan none)).numbers ∧ membership set (key (.nan none)) = .zero ∧
      membershipSum set values = membershipSum set.reverse values' := by
  intro key negZero half set values values'
  have hdistinct : Distinct set := by unfold Distinct; decide
  have hperm : set.Perm set.reverse := (List.reverse_perm set).symm
  have hvalues : List.Forall₂ (fun v w => v = w ∨ v.isEqual w = true) values values' :=
    .cons (.inr (by decide)) (.cons (.inl rfl) (.cons (.inl rfl) .nil))
  have hnan : .nan none ∈ (key (.nan none)).numbers := by decide
  obtain ⟨-, -, hreordered, hzero⟩ := membership_up_to_equality set
  obtain ⟨hfirsts, -⟩ := membership_up_to_equality (set ++ [⟨key negZero, .one⟩])
  exact ⟨rfl, (hfirsts _).symm.trans rfl, hdistinct, hperm, hvalues, hnan, hzero _ hnan,
    (hreordered hdistinct _ _ _ hperm hvalues).2⟩

end FuzzyRules.FuzzySet
