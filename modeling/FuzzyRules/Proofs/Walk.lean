import FuzzyRules.Proofs.Tree

/-!
# The walk as a loop

The walk over a tree as a loop with a bound on its rounds (`walk`). A round takes one value off the
stack, puts its items on it, and hands the level of an expression to the body of the loop, which may
leave the loop at once. Each round leaves one value less to be visited (`pending_expr`), so that the
loop ends on every tree when there are as many rounds as values (`walk_of_le`), and an unfinished
loop has had fewer (`walk_of_lt`). With the bodies of the two questions about depth it gives their
answers.
-/

namespace FuzzyRules.Value

mutual

/-- The number of values in a tree, itself included. Fuzzy sets are leaves. -/
def count : Value → Nat
  | expr items => countAll items + 1
  | _ => 1

/-- The number of values in trees side by side. -/
def countAll : List Value → Nat
  | [] => 0
  | v :: vs => v.count + countAll vs

end

theorem count_leaf {v : Value} (h : v.kind ≠ .expression) : v.count = 1 := by
  cases v with
  | expr items => exact absurd rfl h
  | _ => rfl

theorem count_pos (v : Value) : 0 < v.count := by
  cases v <;> simp only [count] <;> omega

/-- The number of values that a stack leaves to be visited. -/
def pending : List (Value × Nat) → Nat
  | [] => 0
  | (v, _) :: rest => v.count + pending rest

theorem pending_append (stack rest : List (Value × Nat)) :
    pending (stack ++ rest) = pending stack + pending rest := by
  induction stack with
  | nil => rw [List.nil_append, pending, Nat.zero_add]
  | cons entry stack ih => rw [List.cons_append, pending, pending, ih, Nat.add_assoc]

theorem pending_items (items : List Value) (level : Nat) :
    pending (items.map (·, level)).reverse = countAll items := by
  induction items with
  | nil => rfl
  | cons v vs ih =>
    rw [List.map_cons, List.reverse_cons, pending_append, ih, countAll, pending, pending]
    omega

/-- The items of an expression are one value less than the expression. -/
theorem pending_expr (items : List Value) (level : Nat) (rest : List (Value × Nat)) :
    pending ((expr items, level) :: rest) =
      pending ((items.map (·, level + 1)).reverse ++ rest) + 1 := by
  rw [pending_append, pending_items, pending, count]
  omega

/-! ## Loops -/

variable {α : Type} (body : Nat → α → ForInStep α)

/-- A loop over levels, which the body may leave. -/
def through (acc : α) : List Nat → α
  | [] => acc
  | level :: rest =>
    match body level acc with
    | .done acc => acc
    | .yield acc => through acc rest

/-- The walk in at most `rounds` rounds: what the body has made of the levels when the stack is
empty or the body is done, and nothing if the rounds are used up before. -/
def walk (rounds : Nat) (acc : α) (stack : List (Value × Nat)) : Option α :=
  match rounds, stack with
  | _, [] => some acc
  | 0, _ :: _ => none
  | rounds + 1, (expr items, level) :: rest =>
    match body level acc with
    | .done acc => some acc
    | .yield acc => walk rounds acc ((items.map (·, level + 1)).reverse ++ rest)
  | rounds + 1, (_leaf, _) :: rest => walk rounds acc rest

/-- The levels of the expressions in the stacked trees, in the order of the walk. -/
def stackLevels (stack : List (Value × Nat)) : List Nat :=
  stack.flatMap fun entry => entry.1.levels entry.2

theorem stackLevels_expr (items : List Value) (level : Nat) (rest : List (Value × Nat)) :
    stackLevels ((expr items, level) :: rest) =
      level :: stackLevels ((items.map (·, level + 1)).reverse ++ rest) := by
  unfold stackLevels
  rw [List.flatMap_append, flatMap_levels_reverse, List.flatMap_cons, levels, List.cons_append]

theorem stackLevels_leaf {v : Value} (h : v.kind ≠ .expression) (level : Nat)
    (rest : List (Value × Nat)) : stackLevels ((v, level) :: rest) = stackLevels rest := by
  have hlevels : v.levels level = [] := by
    cases v with
    | expr items => exact absurd rfl h
    | _ => rfl
  unfold stackLevels
  rw [List.flatMap_cons, hlevels, List.nil_append]

theorem kind_ne_expression {v : Value} (h : ∀ items, v = expr items → False) :
    v.kind ≠ .expression := by
  cases v with
  | expr items => exact absurd rfl (h items)
  | _ => simp [kind]

/-- With a round for each value the walk ends, after it has gone through the levels. -/
theorem walk_of_le {rounds : Nat} {acc : α} {stack : List (Value × Nat)}
    (h : pending stack ≤ rounds) :
    walk body rounds acc stack = some (through body acc (stackLevels stack)) := by
  fun_induction walk body rounds acc stack with
  | case1 => rfl
  | case2 acc entry rest =>
    rw [pending] at h
    have hpos := entry.1.count_pos
    omega
  | case3 acc rounds items level rest acc' hdone => rw [stackLevels_expr, through, hdone]
  | case4 acc rounds items level rest acc' hyield ih =>
    rw [pending_expr] at h
    rw [ih (by omega), stackLevels_expr, through, hyield]
  | case5 acc rounds leaf level rest hleaf ih =>
    have hkind := kind_ne_expression hleaf
    rw [pending, count_leaf hkind] at h
    rw [ih (by omega), stackLevels_leaf hkind]

/-- With fewer rounds than values the walk does not end, unless the body leaves it. -/
theorem walk_of_lt {f : Nat → α → α} {rounds : Nat} {acc : α} {stack : List (Value × Nat)}
    (h : rounds < pending stack) :
    walk (fun level acc => .yield (f level acc)) rounds acc stack = none := by
  fun_induction walk (fun level acc => .yield (f level acc)) rounds acc stack with
  | case1 => exact absurd h (Nat.not_lt_zero _)
  | case2 => rfl
  | case3 acc rounds items level rest acc' hdone => cases hdone
  | case4 acc rounds items level rest acc' hyield ih =>
    rw [pending_expr] at h
    exact ih (by omega)
  | case5 acc rounds leaf level rest hleaf ih =>
    rw [pending, count_leaf (kind_ne_expression hleaf)] at h
    exact ih (by omega)

/-! ## The two questions -/

/-- The greatest level so far. -/
def deepest (level acc : Nat) : ForInStep Nat := .yield (max acc level)

/-- Whether a level is beyond the limit; the first one that is ends the loop. -/
def beyond (limit : Int) (level : Nat) (_ : Bool) : ForInStep Bool :=
  if limit < level then .done true else .yield false

theorem through_deepest (acc : Nat) (levels : List Nat) :
    through deepest acc levels = levels.foldl max acc := by
  induction levels generalizing acc with
  | nil => rfl
  | cons level rest ih => exact ih (max acc level)

theorem through_beyond (limit : Int) (levels : List Nat) :
    through (beyond limit) false levels =
      levels.any fun level => decide (limit < (level : Int)) := by
  induction levels with
  | nil => rfl
  | cons level rest ih =>
    rw [through, List.any_cons]
    by_cases h : limit < (level : Int)
    · rw [show beyond limit level false = .done true from if_pos h, decide_eq_true h]
      rfl
    · rw [show beyond limit level false = .yield false from if_neg h, decide_eq_false h,
        Bool.false_or]
      exact ih

theorem depth_eq_foldl (v : Value) : v.depth = (stackLevels [(v, 1)]).foldl max 0 :=
  foldLevels_eq max 0 [(v, 1)]

theorem depthExceeds_eq_any (v : Value) (limit : Int) :
    v.depthExceeds limit =
      (stackLevels [(v, 1)]).any fun level => decide (limit < (level : Int)) := by
  rw [depthExceeds, foldLevels_eq, foldl_or_eq, Bool.false_or]
  rfl

/-- The depth is the height of the tree, and it is beyond a limit if the tree is an expression that
is higher. The loop that looks for the depth ends after one round for each value of the tree and not
before, and the one that stops at the first level beyond a limit after no more. -/
theorem depth_by_height (v : Value) :
    v.depth = v.height ∧
      (∀ limit : Int, v.depthExceeds limit = true ↔ v.kind = .expression ∧ limit < v.height) ∧
      (∀ rounds, walk deepest rounds 0 [(v, 1)] =
        if v.count ≤ rounds then some v.depth else none) ∧
      ∀ (limit : Int) (spare : Nat), walk (beyond limit) (v.count + spare) false [(v, 1)] =
        some (v.depthExceeds limit) := by
  have hpending : pending [(v, 1)] = v.count := by
    rw [pending, pending]
    omega
  refine ⟨depth_eq_height v, depthExceeds_iff v, fun rounds => ?_, fun limit spare => ?_⟩
  · split
    · next hle => rw [walk_of_le deepest (by omega), through_deepest, depth_eq_foldl]
    · next hlt => exact walk_of_lt (by omega)
  · rw [walk_of_le _ (by omega), through_beyond, depthExceeds_eq_any]

end FuzzyRules.Value
