import FuzzyRules.Value.Basic

/-!
# Nesting depth of expressions

The depth is found by a walk with an explicit stack of values still to visit, so that
it costs no call stack however deep a tree is. Fuzzy sets are leaves of the walk.
-/

namespace FuzzyRules.Value

theorem sum_sizeOf_lt (items : List Value) :
    @List.sum Nat _ Zero.ofOfNat0 (items.map fun v => sizeOf v) < sizeOf items := by
  induction items with
  | nil => simp
  | cons v vs ih => simp; omega

/-- Fold `f` over the nesting levels of all expressions in the stacked trees, the top of
the stack being the head of the list; the last item of an expression is visited first. -/
def foldLevels {α : Type} (f : α → Nat → α) (acc : α) : List (Value × Nat) → α
  | [] => acc
  | (expr items, level) :: rest =>
    foldLevels f (f acc level) ((items.map (·, level + 1)).reverse ++ rest)
  | (_leaf, _) :: rest => foldLevels f acc rest
termination_by stack => @List.sum Nat _ Zero.ofOfNat0 (stack.map fun entry => sizeOf entry.1)
decreasing_by
  · have := sum_sizeOf_lt items
    simp [Function.comp_def, List.map_reverse, List.sum_reverse]
    omega
  · have : 0 < sizeOf _leaf := by cases _leaf <;> simp +arith
    simpa using this

/-- The greatest nesting level of an expression in the tree; a leaf has depth zero. -/
def depth (v : Value) : Nat := foldLevels max 0 [(v, 1)]

/-- Whether some expression is nested deeper than `limit`. -/
def depthExceeds (v : Value) (limit : Int) : Bool :=
  foldLevels (fun found level => found || decide (limit < (level : Int))) false [(v, 1)]

end FuzzyRules.Value
