import FuzzyRules.Value.Depth

/-!
# Values as trees

Induction over the calls in a program (`Value.callInduction`) and over all parts of a value
(`Value.partInduction`), what occurs in a value (`Value.Occurs`), and its height. The walk with a
stack visits the levels of all expressions (`foldLevels_eq`), so what it finds is the height
(`depth_eq_height`, `depthExceeds_iff`).
-/

namespace FuzzyRules.Value

/-- Induction over programs. What holds of all arguments must hold of their call; nothing is
known of its head. -/
@[elab_as_elim]
theorem callInduction {motive : Value → Prop} (leaf : ∀ v, v.kind ≠ .expression → motive v)
    (empty : motive (.expr []))
    (call : ∀ head args, (∀ v ∈ args, motive v) → motive (.expr (head :: args))) (v : Value) :
    motive v := by
  match v with
  | .expr [] => exact empty
  | .expr (head :: args) => exact call head args fun w _ => callInduction leaf empty call w
  | .str _ | .int _ | .float _ | .bool _ | .fuzzy _ | .error _ => exact leaf _ (by simp [kind])
termination_by sizeOf v

/-- Induction over values, through expressions and through fuzzy sets. -/
@[elab_as_elim]
theorem partInduction {motive : Value → Prop}
    (expr : ∀ items, (∀ v ∈ items, motive v) → motive (.expr items))
    (fuzzy : ∀ members : FuzzySet, (∀ m ∈ members, motive m.value) → motive (.fuzzy members))
    (str : ∀ text, motive (.str text)) (int : ∀ number, motive (.int number))
    (float : ∀ number, motive (.float number)) (bool : ∀ truth, motive (.bool truth))
    (error : ∀ message, motive (.error message)) (v : Value) : motive v := by
  match v with
  | .expr items => exact expr items fun w _ => partInduction expr fuzzy str int float bool error w
  | .fuzzy members =>
    refine fuzzy members fun m hm => ?_
    have hsize : sizeOf m.value < sizeOf members := by
      have hmem := List.sizeOf_lt_of_mem hm
      cases m
      simp at hmem ⊢
      omega
    exact partInduction expr fuzzy str int float bool error m.value
  | .str text => exact str text
  | .int number => exact int number
  | .float number => exact float number
  | .bool truth => exact bool truth
  | .error message => exact error message
termination_by sizeOf v

/-- A value occurs in a tree: it is the tree, or it occurs in an item. The members of fuzzy
sets do not count. -/
inductive Occurs (v : Value) : Value → Prop where
  | self : Occurs v v
  | item {w : Value} {items : List Value} : w ∈ items → Occurs v w → Occurs v (.expr items)

theorem occurs_expr {v : Value} {items : List Value} :
    v.Occurs (.expr items) ↔ v = .expr items ∨ ∃ w ∈ items, v.Occurs w := by
  constructor
  · intro h
    cases h with
    | self => exact .inl rfl
    | item hw h => exact .inr ⟨_, hw, h⟩
  · rintro (rfl | ⟨w, hw, h⟩)
    · exact .self
    · exact .item hw h

theorem occurs_leaf {v w : Value} (h : ¬ w.kind = .expression) : v.Occurs w ↔ v = w := by
  constructor
  · intro hv
    cases hv with
    | self => rfl
    | item _ _ => exact absurd rfl h
  · rintro rfl
    exact .self

/-! ## Height -/

mutual

/-- The height of a tree; a leaf has none. -/
def height : Value → Nat
  | expr items => heightAll items + 1
  | _ => 0

/-- The height of the highest tree. -/
def heightAll : List Value → Nat
  | [] => 0
  | v :: vs => max v.height (heightAll vs)

end

theorem height_leaf {v : Value} (h : v.kind ≠ .expression) : v.height = 0 := by
  cases v with
  | expr items => exact absurd rfl h
  | _ => rfl

theorem height_le_heightAll {v : Value} {items : List Value} (h : v ∈ items) :
    v.height ≤ heightAll items := by
  induction items with
  | nil => cases h
  | cons w ws ih =>
    rw [heightAll]
    rcases List.mem_cons.mp h with rfl | h
    · omega
    · have := ih h
      omega

/-- The items of an expression are less high. -/
theorem height_lt_of_mem {v : Value} {items : List Value} (h : v ∈ items) :
    v.height < (expr items).height := by
  have := height_le_heightAll h
  rw [height]
  omega

/-! ## The walk -/

mutual

/-- The levels of all expressions in a tree that stands at `level`, in the order of the walk. -/
def levels (level : Nat) : Value → List Nat
  | expr items => level :: levelsAll (level + 1) items
  | _ => []

/-- The levels in trees side by side, the last tree first. -/
def levelsAll (level : Nat) : List Value → List Nat
  | [] => []
  | v :: vs => levelsAll level vs ++ v.levels level

end

theorem flatMap_levels_reverse (level : Nat) (items : List Value) :
    ((items.map (·, level)).reverse).flatMap (fun entry => entry.1.levels entry.2) =
      levelsAll level items := by
  induction items with
  | nil => rfl
  | cons v vs ih => simp [levelsAll, ih]

/-- The walk folds over the levels of the stacked trees, one tree after the other. -/
theorem foldLevels_eq {α : Type} (f : α → Nat → α) (acc : α) (stack : List (Value × Nat)) :
    foldLevels f acc stack =
      (stack.flatMap fun entry => entry.1.levels entry.2).foldl f acc := by
  fun_induction foldLevels f acc stack with
  | case1 acc => rfl
  | case2 acc items level rest ih =>
    have hitems : items.attach.map (fun item => (item.val, level + 1)) =
        items.map (·, level + 1) := List.attach_map_val (f := (·, level + 1))
    simp only [hitems] at ih
    rw [ih, List.flatMap_append, flatMap_levels_reverse, List.flatMap_cons]
    rfl
  | case3 acc leaf level rest hleaf ih =>
    have hlevels : leaf.levels level = [] := by
      cases leaf with
      | expr items => exact absurd rfl (hleaf items)
      | _ => rfl
    rw [ih, List.flatMap_cons, hlevels, List.nil_append]

mutual

/-- The levels below `level` reach as far down as the tree is high. -/
theorem foldl_max_levels : ∀ (v : Value) (level acc : Nat), level ≤ acc →
    (v.levels (level + 1)).foldl max acc = max acc (level + v.height)
  | expr items, level, acc, h => by
    have hitems := foldl_max_levelsAll items (level + 1) (max acc (level + 1)) (by omega)
    rw [levels, List.foldl_cons, hitems, height]
    omega
  | str _, _, _, h | int _, _, _, h | float _, _, _, h | bool _, _, _, h | fuzzy _, _, _, h
  | error _, _, _, h => by
    simp only [levels, height, List.foldl_nil]
    omega

theorem foldl_max_levelsAll : ∀ (vs : List Value) (level acc : Nat), level ≤ acc →
    (levelsAll (level + 1) vs).foldl max acc = max acc (level + heightAll vs)
  | [], level, acc, h => by
    rw [levelsAll, heightAll, List.foldl_nil]
    omega
  | v :: vs, level, acc, h => by
    rw [levelsAll, List.foldl_append, foldl_max_levelsAll vs level acc h,
      foldl_max_levels v level _ (by omega), heightAll]
    omega

end

/-- The walk finds the height. -/
theorem depth_eq_height (v : Value) : v.depth = v.height := by
  rw [depth, foldLevels_eq, List.flatMap_singleton, foldl_max_levels v 0 0 (Nat.le_refl 0)]
  omega

theorem lt_foldl_max_iff {limit : Int} {acc : Nat} {ns : List Nat} :
    limit < (ns.foldl max acc : Nat) ↔ limit < acc ∨ ∃ n ∈ ns, limit < n := by
  induction ns generalizing acc with
  | nil => simp
  | cons n ns ih =>
    rw [List.foldl_cons, ih]
    simp only [List.mem_cons, exists_eq_or_imp, ← or_assoc]
    exact or_congr_left (by omega)

theorem foldl_or_eq {p : Nat → Bool} {found : Bool} {ns : List Nat} :
    ns.foldl (fun found n => found || p n) found = (found || ns.any p) := by
  induction ns generalizing found with
  | nil => simp
  | cons n ns ih => rw [List.foldl_cons, ih, List.any_cons, Bool.or_assoc]

/-- The walk with a limit finds out whether an expression is higher. -/
theorem depthExceeds_iff (v : Value) (limit : Int) :
    v.depthExceeds limit = true ↔ v.kind = .expression ∧ limit < v.height := by
  rw [← depth_eq_height, depth, depthExceeds, foldLevels_eq, foldLevels_eq, foldl_or_eq,
    List.flatMap_singleton, Bool.false_or, List.any_eq_true]
  cases v with
  | expr items =>
    -- the first level makes up for limits below it
    rw [levels, List.foldl_cons, lt_foldl_max_iff]
    simp [kind]
  | _ => simp [levels, kind]

end FuzzyRules.Value
