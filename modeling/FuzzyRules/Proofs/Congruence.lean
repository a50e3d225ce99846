import FuzzyRules.Proofs.Demand
import FuzzyRules.Proofs.Likeness

/-!
# Evaluation respects likeness

Two runs, of programs that are alike over environments that bind alike values, give results that
are alike (`evaluate_alike`). A run cannot tell `0.0` from `-0.0`: comparison sees positions only,
sums of numbers alike are alike, and the first member equal to a value stands at the same place
in two sets that are alike. NaN may come up in both runs at the same places only.

An object that is met in several places must be so in both runs, which is what twins are about
(`result_evaluate_twin`). Where no object is shared, this says nothing.
-/

namespace FuzzyRules

namespace Value.Twin

variable {a b : Value}

theorem kind_eq (h : a.Twin b) : a.kind = b.kind := by
  cases h <;> rfl

theorem asString_eq (h : a.Twin b) : a.asString = b.asString := by
  cases h <;> rfl

theorem isError_eq (h : a.Twin b) : a.isError = b.isError := by
  cases h <;> rfl

theorem asError_eq (h : a.Twin b) : a.asError = b.asError := by
  cases h <;> rfl

end Value.Twin

theorem Fault.twin_value (fault : Fault) : fault.value.Twin fault.value := .error fault.message

/-! ## Fuzzy sets -/

namespace FuzzySet

theorem twin_membership {xs ys : FuzzySet} {v w : Value} (h : (Value.fuzzy xs).Twin (.fuzzy ys))
    (hv : v.Twin w) : (membership xs v).Twin (membership ys w) := by
  obtain ⟨hvalues, hweights⟩ := Value.Related.fuzzy_iff.mp h
  clear h
  induction hvalues with
  | nil => exact .refl .zero
  | @cons m n xs ys hmn _ ih =>
    obtain ⟨hweight, hweights⟩ := List.forall₂_cons.mp hweights
    have hfound : m.value.isEqual v = n.value.isEqual w := Value.Twin.isEqual_congr hmn hv
    rw [membership_cons, membership_cons, hfound]
    split
    · exact hweight
    · exact ih hweights

theorem twin_membershipSum {xs ys : FuzzySet} {vs ws : List Value}
    (h : (Value.fuzzy xs).Twin (.fuzzy ys)) (hvs : List.Forall₂ Value.Twin vs ws) :
    (membershipSum xs vs).Twin (membershipSum ys ws) := by
  have hmap : List.Forall₂ Double.Twin (vs.map (membership xs)) (ws.map (membership ys)) :=
    List.rel_map (fun _ _ hv => twin_membership h hv) hvs
  exact List.rel_foldl (fun _ _ hx _ _ hy => hx.add hy) (.refl .zero) hmap

end FuzzySet

/-! ## Connectives -/

/-- Arguments that are twins as programs and give results that are twins. -/
structure Argument.Twin (a b : Argument) : Prop where
  program : a.program.Twin b.program
  result : a.result.Twin b.result

namespace Connective

variable {c : Connective} {a b : Argument} {args args' : List Argument}

theorem twin_onBool {next next' : Bool → Journaled Value} (h : a.Twin b)
    (hnext : ∀ t, (next t).result.Twin (next' t).result) :
    (onBool c a next).result.Twin (onBool c b next').result := by
  have hrun : (a.run ()).result.Twin (b.run ()).result := h.result
  unfold onBool
  rw [Journaled.result_bind, Journaled.result_bind]
  generalize (a.run ()).result = v, (b.run ()).result = w at hrun ⊢
  cases hrun with
  | bool t => exact hnext t
  | error message => exact .error message
  | _ => exact Fault.twin_value _

theorem twin_onFloat {next next' : Double → Journaled Value} (h : a.Twin b)
    (hnext : ∀ x y, x.Twin y → (next x).result.Twin (next' y).result) :
    (onFloat c a next).result.Twin (onFloat c b next').result := by
  have hrun : (a.run ()).result.Twin (b.run ()).result := h.result
  unfold onFloat
  rw [Journaled.result_bind, Journaled.result_bind]
  generalize (a.run ()).result = v, (b.run ()).result = w at hrun ⊢
  cases hrun with
  | float hx => exact hnext _ _ hx
  | error message => exact .error message
  | _ => exact Fault.twin_value _

theorem twin_untilDecisive (decisive : Bool) (h : List.Forall₂ Argument.Twin args args') :
    (untilDecisive c decisive args).result.Twin (untilDecisive c decisive args').result := by
  induction h with
  | nil => exact .bool _
  | cons ha _ ih =>
    refine twin_onBool ha fun t => ?_
    split
    · exact .bool decisive
    · exact ih

theorem twin_combine {op : Double → Double → Double}
    (hop : ∀ {x x' y y' : Double}, x.Twin x' → y.Twin y' → (op x y).Twin (op x' y'))
    {x x' : Double} (hx : x.Twin x') (h : List.Forall₂ Argument.Twin args args') :
    (combine c op x args).result.Twin (combine c op x' args').result := by
  induction h generalizing x x' with
  | nil => exact .float hx
  | cons ha _ ih => exact twin_onFloat ha fun y y' hy => ih (hop hx hy)

/-- Both stop at the same error, or both give all results. -/
theorem twin_runAll (h : List.Forall₂ Argument.Twin args args') :
    (∃ message, (runAll args).result = .error message ∧ (runAll args').result = .error message) ∨
      ∃ vs ws, (runAll args).result = .ok vs ∧ (runAll args').result = .ok ws ∧
        List.Forall₂ Value.Twin vs ws := by
  induction h with
  | nil => exact .inr ⟨[], [], rfl, rfl, .nil⟩
  | @cons a b _ _ ha _ ih =>
    have hresult := ha.result
    rw [result_runAll_cons, result_runAll_cons, ← hresult.isError_eq]
    split
    · exact .inl ⟨_, rfl, by rw [hresult.asError_eq]⟩
    · rcases ih with ⟨message, herror, herror'⟩ | ⟨vs, ws, hok, hok', hvs⟩
      · rw [herror, herror']
        exact .inl ⟨message, rfl, rfl⟩
      · rw [hok, hok']
        exact .inr ⟨_, _, rfl, rfl, .cons hresult hvs⟩

theorem twin_membershipOf {values values' : List Argument} (h : a.Twin b)
    (hvalues : List.Forall₂ Argument.Twin values values') :
    (membershipOf a values).result.Twin (membershipOf b values').result := by
  have hrun : (a.run ()).result.Twin (b.run ()).result := h.result
  unfold membershipOf
  rw [Journaled.result_bind, Journaled.result_bind]
  generalize (a.run ()).result = v, (b.run ()).result = w at hrun ⊢
  cases hrun with
  | fuzzy hmembers hweights =>
    simp only [Journaled.result_bind]
    rcases twin_runAll hvalues with ⟨message, herror, herror'⟩ | ⟨vs, ws, hok, hok', hvs⟩
    · rw [herror, herror']
      exact .error message
    · rw [hok, hok']
      exact .float (FuzzySet.twin_membershipSum (.fuzzy hmembers hweights) hvs)
  | error message => exact .error message
  | _ => exact Fault.twin_value _

/-- Connectives give twins on arguments that are twins. -/
theorem twin_apply (c : Connective) (h : List.Forall₂ Argument.Twin args args') :
    (c.apply args).result.Twin (c.apply args').result := by
  cases c with
  | negation =>
    match h with
    | .nil | .cons _ (.cons _ _) => exact Fault.twin_value (.arity .negation)
    | .cons ha .nil => exact twin_onBool ha fun t => .bool !t
  | conjunction =>
    match h with
    | .nil => exact Fault.twin_value (.arity .conjunction)
    | .cons ha hrest => exact twin_untilDecisive false (.cons ha hrest)
  | disjunction =>
    match h with
    | .nil => exact Fault.twin_value (.arity .disjunction)
    | .cons ha hrest => exact twin_untilDecisive true (.cons ha hrest)
  | conditional =>
    match h with
    | .nil | .cons _ .nil | .cons _ (.cons _ .nil) | .cons _ (.cons _ (.cons _ (.cons _ _))) =>
      exact Fault.twin_value (.arity .conditional)
    | .cons htest (.cons hyes (.cons hno .nil)) =>
      refine twin_onBool htest fun t => ?_
      cases t with
      | true => exact hyes.result
      | false => exact hno.result
  | complement =>
    match h with
    | .nil | .cons _ (.cons _ _) => exact Fault.twin_value (.arity .complement)
    | .cons ha .nil => exact twin_onFloat ha fun x y hx => .float ((Double.Twin.refl .one).sub hx)
  | minimum =>
    match h with
    | .nil => exact Fault.twin_value (.arity .minimum)
    | .cons ha hrest => exact twin_combine .lower (.refl .one) (.cons ha hrest)
  | maximum =>
    match h with
    | .nil => exact Fault.twin_value (.arity .maximum)
    | .cons ha hrest => exact twin_combine .upper (.refl .zero) (.cons ha hrest)
  | membership =>
    match h with
    | .nil | .cons _ .nil => exact Fault.twin_value (.arity .membership)
    | .cons hset (.cons hv hrest) => exact twin_membershipOf hset (.cons hv hrest)

end Connective

/-! ## Evaluation -/

/-- Environments with the same keys, bound to values that are twins. -/
def Environment.Twin (env env' : Environment) : Prop :=
  ∀ key, Option.Rel Value.Twin (env.get? key) (env'.get? key)

section Evaluation

variable {env env' : Environment}

theorem twin_lookupKey (henv : env.Twin env') {key key' : Value} (h : key.Twin key') :
    (lookupKey env key).result.Twin (lookupKey env' key').result := by
  cases h with
  | str name =>
    have hget := henv name
    rw [lookupKey, lookupKey]
    generalize env.get? name = v, env'.get? name = w at hget ⊢
    cases hget with
    | some hv => exact hv
    | none => exact Fault.twin_value (.unboundKey name)
  | _ => exact Fault.twin_value .lookupKey

theorem twin_lookup (henv : env.Twin env') {args args' : List Argument}
    (h : List.Forall₂ Argument.Twin args args') :
    (lookup env args).result.Twin (lookup env' args').result := by
  match h with
  | .nil | .cons _ (.cons _ _) => exact Fault.twin_value .lookupArity
  | .cons (a := a) (b := b) ha .nil =>
    rw [result_lookup_singleton, result_lookup_singleton, ha.program.kind_eq,
      ha.result.isError_eq]
    split
    · split
      · exact ha.result
      · exact twin_lookupKey henv ha.result
    · exact twin_lookupKey henv ha.program

theorem twin_callNamed {table : Table} (htable : table.IsLogical) (henv : env.Twin env')
    (name : String) {args args' : List Argument} (h : List.Forall₂ Argument.Twin args args') :
    (callNamed table env name args).result.Twin (callNamed table env' name args').result := by
  rw [callNamed, callNamed]
  split
  · exact twin_lookup henv h
  · split
    · exact Fault.twin_value (.unknownFunction name)
    · next handler hget =>
      obtain ⟨c, rfl⟩ := htable name handler hget
      exact c.twin_apply h

/-- By induction on the first program; the second one has the same shape. -/
theorem result_evaluate_twin {table : Table} (htable : table.IsLogical) (henv : env.Twin env')
    {program program' : Value} (h : program.Twin program') :
    (evaluate table env program).result.Twin (evaluate table env' program').result := by
  induction program using Value.callInduction generalizing program' with
  | leaf v hleaf =>
    rw [result_evaluate_leaf hleaf, result_evaluate_leaf (h.kind_eq ▸ hleaf)]
    exact h
  | empty =>
    cases h with
    | expr hitems =>
      cases hitems
      exact Fault.twin_value .noFunctionName
  | call head args ih =>
    cases h with
    | expr hitems =>
      cases hitems with
      | @cons _ head' _ args' hhead hargs =>
        rw [evaluate, evaluate, Value.Twin.asString_eq hhead, arguments_eq_map, arguments_eq_map]
        refine twin_callNamed htable henv _ ?_
        rw [List.forall₂_map_left_iff, List.forall₂_map_right_iff]
        exact forall₂_imp_mem hargs fun v hv w hvw => ⟨hvw, ih v hv hvw⟩

end Evaluation

/-- Environments with the same keys, bound to values that are alike. -/
def Environment.Alike (env env' : Environment) : Prop :=
  ∀ key, Option.Rel Value.Alike (env.get? key) (env'.get? key)

/-- An environment with a value that has a NaN that is also met in another place. -/
def Environment.Shared (env : Environment) : Prop := ∃ key, ∃ v ∈ env.get? key, v.Shared

theorem Environment.Alike.twin {env env' : Environment} (h : env.Alike env') (henv : ¬env.Shared)
    (henv' : ¬env'.Shared) : env.Twin env' := by
  intro key
  have hkey := h key
  generalize hv : env.get? key = v, hw : env'.get? key = w at hkey ⊢
  cases hkey with
  | none => exact .none
  | some hvw =>
    exact .some (hvw.twin (fun hshared => henv ⟨key, _, hv, hshared⟩)
      fun hshared => henv' ⟨key, _, hw, hshared⟩)

/-- Evaluation cannot tell values alike apart, unless they share a NaN. -/
theorem evaluate_alike (program program' : Value) (env env' : Environment)
    (hprogram : program.Alike program') (henv : env.Alike env')
    (unshared : ¬program.Shared ∧ ¬program'.Shared ∧ ¬env.Shared ∧ ¬env'.Shared) :
    (evaluate .standard env program).result.Alike (evaluate .standard env' program').result := by
  obtain ⟨hleft, hright, hleft', hright'⟩ := unshared
  have htwin := hprogram.twin hleft hright
  exact (result_evaluate_twin Table.isLogical_standard (henv.twin hleft' hright') htwin).alike

-- both sums are NaN, and both maxima pass over it
theorem evaluate_alike_signed_zeros :
    let wind (calm : Double) : Value := .fuzzy
      [⟨.float calm, .signed false .infinite⟩, ⟨.str "gale", .signed true .infinite⟩]
    let env : Environment := .ofList [("wind", wind .zero)]
    let env' : Environment := .ofList [("wind", wind (.signed true .zero))]
    let program (calm : Double) : Value := .expr [.str "for", .float calm,
      .expr [.str "feq", .expr [.str "env", .str "wind"], .float calm, .str "gale"]]
    (program (.signed true .zero)).Alike (program .zero) ∧ env.Alike env' ∧
      ¬(program .zero).Shared ∧ ¬env.Shared ∧
      (evaluate .standard env (program (.signed true .zero))).result.Alike
        (evaluate .standard env' (program .zero)).result := by
  intro wind env env' program
  have hzero : (Double.signed true .zero).Alike .zero := .inl rfl
  have hprogram : (program (.signed true .zero)).Alike (program .zero) :=
    .expr (.cons (.str _) (.cons (.float hzero) (.cons (.expr (.cons (.str _)
      (.cons (.expr (.cons (.str _) (.cons (.str _) .nil)))
        (.cons (.float hzero) (.cons (.str _) .nil))))) .nil)))
  have hwind : (wind .zero).Alike (wind (.signed true .zero)) :=
    .fuzzy (.cons (.float hzero.symm) (.cons (.str _) .nil))
      (.cons (.refl _) (.cons (.refl _) .nil))
  have henv : env.Alike env' := by
    intro key
    show Option.Rel _ ((OrderedMap.empty.insert "wind" _).get? key)
      ((OrderedMap.empty.insert "wind" _).get? key)
    rw [OrderedMap.get?_insert, OrderedMap.get?_insert]
    split
    · exact .some hwind
    · exact .none
  have hunshared (calm : Double) (h : ¬(wind calm).Shared) :
      ¬Environment.Shared (.ofList [("wind", wind calm)]) := by
    rintro ⟨key, v, hv, hshared⟩
    have hv : (OrderedMap.empty.insert "wind" (wind calm)).get? key = some v := hv
    rw [OrderedMap.get?_insert] at hv
    split at hv
    · cases hv
      exact h hshared
    · cases hv
  have hleft : ¬(program (.signed true .zero)).Shared := by decide
  have hright : ¬(program .zero).Shared := by decide
  have henvs : ¬env.Shared ∧ ¬env'.Shared :=
    ⟨hunshared _ (by decide), hunshared _ (by decide)⟩
  exact ⟨hprogram, henv, hright, henvs.1,
    evaluate_alike _ _ _ _ hprogram henv ⟨hleft, hright, henvs⟩⟩

end FuzzyRules
