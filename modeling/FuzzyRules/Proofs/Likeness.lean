import FuzzyRules.Proofs.Position
import FuzzyRules.Proofs.Tree
import FuzzyRules.Value.Equality
import Mathlib.Data.List.Forall2

/-!
# Values that differ in their numbers

Two values are `Related` by a relation of numbers when they are the same but for their numbers,
and these are related one by one. Structural equality is this relation for numbers that agree
(`isEqual_iff`). So it is symmetric and transitive because agreement is, and a value equals itself
exactly when all its `numbers` agree with themselves. Values that are related by `Double.Alike` are
`Alike`, and by `Double.Twin` they are a `Twin`: equality cannot tell twins apart
(`Twin.isEqual_congr`). Values alike are twins if nothing in them is `Shared`.
-/

namespace FuzzyRules

/-! ## Lists item by item -/

section Lists

variable {α β γ : Type} {P P' : α → β → Prop} {Q : β → γ → Prop} {M : α → γ → Prop}
  {xs : List α} {ys : List β} {zs : List γ}

theorem forall₂_imp_mem (h : List.Forall₂ P xs ys) (hP : ∀ x ∈ xs, ∀ y, P x y → P' x y) :
    List.Forall₂ P' xs ys :=
  ((List.forall₂_and_left xs ys).mpr ⟨hP, h⟩).imp fun _ y hx => hx.1 y hx.2

theorem forall₂_comp (h : List.Forall₂ P xs ys) (h' : List.Forall₂ Q ys zs)
    (hM : ∀ x ∈ xs, ∀ y z, P x y → Q y z → M x z) : List.Forall₂ M xs zs := by
  induction h generalizing zs with
  | nil =>
    cases h'
    exact .nil
  | @cons x y xs ys hxy _ ih =>
    cases h' with
    | cons hyz hrest =>
      exact .cons (hM x (by simp) _ _ hxy hyz) (ih hrest fun w hw => hM w (by simp [hw]))

end Lists

namespace Value

/-! ## Relations -/

/-- The same value but for the numbers, which are related one by one. -/
inductive Related (R : Double → Double → Prop) : Value → Value → Prop where
  | expr {xs ys : List Value} : List.Forall₂ (Related R) xs ys → Related R (.expr xs) (.expr ys)
  | str (text : String) : Related R (.str text) (.str text)
  | int (number : Int) : Related R (.int number) (.int number)
  | float {x y : Double} : R x y → Related R (.float x) (.float y)
  | bool (truth : Bool) : Related R (.bool truth) (.bool truth)
  | fuzzy {xs ys : FuzzySet} : List.Forall₂ (fun m n => Related R m.value n.value) xs ys →
      List.Forall₂ (fun m n => R m.weight n.weight) xs ys → Related R (.fuzzy xs) (.fuzzy ys)
  | error (message : String) : Related R (.error message) (.error message)

mutual

/-- The floats and the weights of members anywhere in a value. -/
def numbers : Value → List Double
  | expr items => numbersAll items
  | float x => [x]
  | fuzzy members => numbersOf members
  | _ => []

def numbersAll : List Value → List Double
  | [] => []
  | v :: vs => v.numbers ++ numbersAll vs

def numbersOf : FuzzySet → List Double
  | [] => []
  | ⟨v, w⟩ :: rest => w :: (v.numbers ++ numbersOf rest)

end

theorem mapAll_eq_map (f : Double → Double) (items : List Value) :
    mapAll f items = items.map (mapNumbers f) := by
  induction items with
  | nil => rfl
  | cons v vs ih => rw [mapAll, ih, List.map_cons]

theorem mapMembers_eq_map (f : Double → Double) (members : FuzzySet) :
    mapMembers f members = members.map fun m => ⟨m.value.mapNumbers f, f m.weight⟩ := by
  induction members with
  | nil => rfl
  | cons m rest ih => rw [mapMembers, ih, List.map_cons]

theorem mapNumbers_id (v : Value) : v.mapNumbers (fun x => x) = v := by
  induction v using partInduction with
  | expr items ih =>
    rw [mapNumbers, mapAll_eq_map, List.map_congr_left ih, List.map_id']
  | fuzzy members ih =>
    rw [mapNumbers, mapMembers_eq_map, List.map_congr_left fun m hm => by rw [ih m hm],
      List.map_id']
  | _ => rfl

theorem mem_numbersAll {x : Double} {items : List Value} :
    x ∈ numbersAll items ↔ ∃ v ∈ items, x ∈ v.numbers := by
  induction items with
  | nil => simp [numbersAll]
  | cons v vs ih => simp [numbersAll, ih]

theorem mem_numbersOf {x : Double} {members : FuzzySet} :
    x ∈ numbersOf members ↔ ∃ m ∈ members, x = m.weight ∨ x ∈ m.value.numbers := by
  induction members with
  | nil => simp [numbersOf]
  | cons m rest ih => simp [numbersOf, ih, or_assoc]

namespace Related

variable {R S T : Double → Double → Prop}

theorem expr_iff {xs ys : List Value} :
    Related R (.expr xs) (.expr ys) ↔ List.Forall₂ (Related R) xs ys := by
  refine ⟨fun h => ?_, .expr⟩
  cases h with
  | expr hitems => exact hitems

theorem fuzzy_iff {xs ys : FuzzySet} :
    Related R (.fuzzy xs) (.fuzzy ys) ↔
      List.Forall₂ (fun m n => Related R m.value n.value) xs ys ∧
        List.Forall₂ (fun m n => R m.weight n.weight) xs ys := by
  refine ⟨fun h => ?_, fun h => .fuzzy h.1 h.2⟩
  cases h with
  | fuzzy hvalues hweights => exact ⟨hvalues, hweights⟩

theorem float_iff {x y : Double} : Related R (.float x) (.float y) ↔ R x y := by
  refine ⟨fun h => ?_, .float⟩
  cases h with
  | float hx => exact hx

/-- A value is related to what becomes of it if all its numbers are. -/
theorem mapNumbers_iff {f : Double → Double} {v : Value} :
    Related R v (v.mapNumbers f) ↔ ∀ x ∈ v.numbers, R x (f x) := by
  induction v using partInduction with
  | expr items ih =>
    rw [mapNumbers, expr_iff, mapAll_eq_map, List.forall₂_map_right_iff, List.forall₂_same, numbers]
    simp only [mem_numbersAll]
    constructor
    · rintro h x ⟨v, hv, hx⟩
      exact (ih v hv).mp (h v hv) x hx
    · intro h v hv
      exact (ih v hv).mpr fun x hx => h x ⟨v, hv, hx⟩
  | fuzzy members ih =>
    rw [mapNumbers, fuzzy_iff, mapMembers_eq_map, List.forall₂_map_right_iff,
      List.forall₂_map_right_iff, List.forall₂_same, List.forall₂_same, numbers]
    simp only [mem_numbersOf]
    constructor
    · rintro ⟨hvalues, hweights⟩ x ⟨m, hm, rfl | hx⟩
      · exact hweights m hm
      · exact (ih m hm).mp (hvalues m hm) x hx
    · intro h
      refine ⟨fun m hm => (ih m hm).mpr fun x hx => ?_, fun m hm => ?_⟩
      · exact h x ⟨m, hm, .inr hx⟩
      · exact h m.weight ⟨m, hm, .inl rfl⟩
  | float x => simp [mapNumbers, float_iff, numbers]
  | _ => exact iff_of_true (by constructor) (by simp [numbers])

theorem self_iff {v : Value} : Related R v v ↔ ∀ x ∈ v.numbers, R x x := by
  rw [← mapNumbers_iff, mapNumbers_id]

theorem imp {a b : Value} (h : Related R a b) (hRS : ∀ x ∈ a.numbers, ∀ y, R x y → S x y) :
    Related S a b := by
  induction a using partInduction generalizing b with
  | expr items ih =>
    have hitem (v : Value) (hv : v ∈ items) : ∀ x ∈ v.numbers, ∀ y, R x y → S x y :=
      fun x hx => hRS x (mem_numbersAll.mpr ⟨v, hv, hx⟩)
    cases h with
    | expr hitems =>
      exact .expr (forall₂_imp_mem hitems fun v hv w hvw => ih v hv hvw (hitem v hv))
  | fuzzy members ih =>
    have hmember (m : Weighted Value) (hm : m ∈ members) (x : Double)
        (hx : x = m.weight ∨ x ∈ m.value.numbers) : ∀ y, R x y → S x y :=
      hRS x (mem_numbersOf.mpr ⟨m, hm, hx⟩)
    cases h with
    | fuzzy hvalues hweights =>
      exact .fuzzy
        (forall₂_imp_mem hvalues fun m hm n hmn => ih m hm hmn fun x hx =>
          hmember m hm x (.inr hx))
        (forall₂_imp_mem hweights fun m hm n hmn => hmember m hm _ (.inl rfl) _ hmn)
  | float x =>
    cases h with
    | float hx => exact .float (hRS x List.mem_cons_self _ hx)
  | _ =>
    cases h
    constructor

theorem flip {a b : Value} (h : Related R a b) (hRS : ∀ x y, R x y → S y x) : Related S b a := by
  induction a using partInduction generalizing b with
  | expr items ih =>
    cases h with
    | expr hitems => exact .expr (.flip (forall₂_imp_mem hitems fun v hv _ => ih v hv))
  | fuzzy members ih =>
    cases h with
    | fuzzy hvalues hweights =>
      exact .fuzzy (.flip (forall₂_imp_mem hvalues fun m hm _ => ih m hm))
        (.flip (hweights.imp fun _ _ => hRS _ _))
  | float x =>
    cases h with
    | float hx => exact .float (hRS _ _ hx)
  | _ =>
    cases h
    constructor

theorem comp {a b c : Value} (h : Related R a b) (h' : Related S b c)
    (hT : ∀ x y z, R x y → S y z → T x z) : Related T a c := by
  induction a using partInduction generalizing b c with
  | expr items ih =>
    cases h with
    | expr hitems =>
      cases h' with
      | expr hitems' => exact .expr (forall₂_comp hitems hitems' fun v hv _ _ => ih v hv)
  | fuzzy members ih =>
    cases h with
    | fuzzy hvalues hweights =>
      cases h' with
      | fuzzy hvalues' hweights' =>
        exact .fuzzy (forall₂_comp hvalues hvalues' fun m hm _ _ => ih m hm)
          (forall₂_comp hweights hweights' fun _ _ _ _ => hT _ _ _)
  | float x =>
    cases h with
    | float hx =>
      cases h' with
      | float hx' => exact .float (hT _ _ _ hx hx')
  | _ =>
    cases h
    cases h'
    constructor

end Related

/-! ## Structural equality -/

theorem allEqual_iff {xs ys : List Value} :
    allEqual xs ys = true ↔ List.Forall₂ (fun x y => x.isEqual y = true) xs ys := by
  induction xs generalizing ys with
  | nil => cases ys <;> simp [allEqual]
  | cons x xs ih => cases ys <;> simp [allEqual, ih]

theorem membersEqual_iff {xs ys : FuzzySet} :
    membersEqual xs ys = true ↔
      List.Forall₂ (fun m n => m.value.isEqual n.value = true) xs ys ∧
        List.Forall₂ (fun m n => m.weight.agrees n.weight = true) xs ys := by
  induction xs generalizing ys with
  | nil => cases ys <;> simp [membersEqual]
  | cons m rest ih =>
    cases ys with
    | nil => simp [membersEqual]
    | cons n rest' =>
      simp only [membersEqual, Bool.and_eq_true, ih, List.forall₂_cons]
      grind

/-- Equality relates values by agreement. -/
theorem isEqual_iff {a b : Value} :
    a.isEqual b = true ↔ Related (fun x y => x.agrees y = true) a b := by
  induction a using partInduction generalizing b with
  | expr items ih =>
    cases b with
    | expr items' =>
      rw [isEqual, allEqual_iff, Related.expr_iff]
      exact ⟨fun h => forall₂_imp_mem h fun v hv _ => (ih v hv).mp,
        fun h => forall₂_imp_mem h fun v hv _ => (ih v hv).mpr⟩
    | _ => exact iff_of_false (by simp [isEqual]) nofun
  | fuzzy members ih =>
    cases b with
    | fuzzy members' =>
      rw [isEqual, membersEqual_iff, Related.fuzzy_iff]
      refine and_congr_left' ?_
      exact ⟨fun h => forall₂_imp_mem h fun m hm _ => (ih m hm).mp,
        fun h => forall₂_imp_mem h fun m hm _ => (ih m hm).mpr⟩
    | _ => exact iff_of_false (by simp [isEqual]) nofun
  | float x =>
    cases b with
    | float y => rw [isEqual, Related.float_iff]
    | _ => exact iff_of_false (by simp [isEqual]) nofun
  | _ =>
    constructor
    · intro h
      cases b <;> simp [isEqual] at h
      subst h
      constructor
    · intro h
      cases h
      simp [isEqual]

/-- Equality is symmetric. -/
theorem isEqual_symm {a b : Value} (h : a.isEqual b = true) : b.isEqual a = true :=
  isEqual_iff.mpr ((isEqual_iff.mp h).flip fun _ _ => Double.agrees_symm)

theorem isEqual_comm (a b : Value) : a.isEqual b = b.isEqual a :=
  Bool.eq_iff_iff.mpr ⟨isEqual_symm, isEqual_symm⟩

theorem isEqual_trans {a b c : Value} (h : a.isEqual b = true) (h' : b.isEqual c = true) :
    a.isEqual c = true :=
  isEqual_iff.mpr ((isEqual_iff.mp h).comp (isEqual_iff.mp h') fun _ _ _ => Double.agrees_trans)

/-- A value equals itself if all NaNs in it have a holder. -/
theorem isEqual_self_iff {v : Value} : v.isEqual v = true ↔ .nan none ∉ v.numbers := by
  rw [isEqual_iff, Related.self_iff]
  simp only [Double.agrees_self_iff]
  exact ⟨fun h hnan => h _ hnan rfl, fun h x hx hnan => h (hnan ▸ hx)⟩

/-- A value equals a copy of it if there is no NaN in it. -/
theorem isEqual_copy_iff {v : Value} :
    v.isEqual (v.heldBy none) = true ↔ ∀ x ∈ v.numbers, x.isNaN = false := by
  rw [isEqual_iff, heldBy, Related.mapNumbers_iff]
  simp only [Double.agrees_heldBy_none_iff]

/-! ## Likeness -/

/-- The same value but for numbers that are alike. -/
def Alike : Value → Value → Prop := Related Double.Alike

/-- The same value but for numbers that are twins. -/
def Twin : Value → Value → Prop := Related Double.Twin

/-- A value with a NaN that is also met in another place. -/
def Shared (v : Value) : Prop := ∃ x ∈ v.numbers, x.holder? ≠ none

instance (v : Value) : Decidable v.Shared :=
  inferInstanceAs (Decidable (∃ x ∈ v.numbers, x.holder? ≠ none))

namespace Twin

variable {a b a' b' : Value}

theorem symm (h : a.Twin b) : b.Twin a := h.flip fun _ _ => Double.Twin.symm

theorem alike (h : a.Twin b) : a.Alike b := h.imp fun _ _ _ => Double.Twin.alike

theorem isEqual_of_isEqual (ha : a.Twin a') (hb : b.Twin b') (h : a.isEqual b = true) :
    a'.isEqual b' = true := by
  have hleft : Related (fun x y => x.agrees y = true) a' b := by
    refine ha.symm.comp (isEqual_iff.mp h) fun x y z hxy hyz => ?_
    rwa [hxy.agrees_congr (.refl z)]
  refine isEqual_iff.mpr (hleft.comp hb fun x y z hxy hyz => ?_)
  rwa [← (Double.Twin.refl x).agrees_congr hyz]

/-- Equality cannot tell twins apart. -/
theorem isEqual_congr (ha : a.Twin a') (hb : b.Twin b') : a.isEqual b = a'.isEqual b' :=
  Bool.eq_iff_iff.mpr ⟨isEqual_of_isEqual ha hb, isEqual_of_isEqual ha.symm hb.symm⟩

end Twin

/-- Values alike are twins if nothing in them is shared. -/
theorem Alike.twin {a b : Value} (h : a.Alike b) (ha : ¬a.Shared) (hb : ¬b.Shared) : a.Twin b := by
  have hleft : Related (fun x y => x.Alike y ∧ x.holder? = none) a b :=
    h.imp fun x hx y hxy => ⟨hxy, by_contra fun hne => ha ⟨x, hx, hne⟩⟩
  have hflipped : Related (fun y x => x.Alike y ∧ x.holder? = none) b a :=
    hleft.flip fun _ _ hxy => hxy
  have hboth : Related (fun y x => x.Twin y) b a := by
    refine hflipped.imp fun y hy x ⟨hxy, hx⟩ => ⟨hxy, hx.trans ?_⟩
    exact (by_contra fun hne => hb ⟨y, hy, Ne.symm hne⟩)
  exact hboth.flip fun _ _ hxy => hxy

end Value

end FuzzyRules
