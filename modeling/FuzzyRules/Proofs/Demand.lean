import FuzzyRules.Proofs.Context
import FuzzyRules.Value.DecEq

/-!
# Which arguments a call runs

`Operator.demanded` is the list of the arguments that a call needs, in the order in which it
needs them, by their results: none if their number is wrong, and else those up to the first
one that settles the call. A call runs these arguments and no others, each once and in this
order, whatever the arguments do when they are run (`traceLines_callNamed`).
-/

namespace FuzzyRules

/-- The things up to the first one at which to stop, and this one too; all of them if there is
none. -/
def upTo {α : Type} (stop : α → Bool) (xs : List α) : List α := xs.take (xs.findIdx stop + 1)

section UpTo

variable {α β : Type} (stop : α → Bool)

theorem upTo_cons (x : α) (xs : List α) :
    upTo stop (x :: xs) = x :: if stop x then [] else upTo stop xs := by
  unfold upTo
  rw [List.findIdx_cons, List.take_succ_cons]
  cases stop x <;> rfl

theorem upTo_map (f : β → α) (xs : List β) :
    upTo stop (xs.map f) = (upTo (stop ∘ f) xs).map f := by
  unfold upTo
  rw [List.findIdx_map, List.map_take]

theorem upTo_subset (xs : List α) : upTo stop xs ⊆ xs := List.take_subset _ xs

end UpTo

/-! ## What calls demand -/

section Demand

variable {α β : Type}

/-- The arguments that a connective needs, by their results. -/
def Connective.demanded (result : α → Value) (c : Connective) (args : List α) : List α :=
  match c, args with
  | .negation, [a] => [a]
  | .complement, [a] => [a]
  | .conjunction, args => upTo (fun a => result a ≠ .bool true) args
  | .disjunction, args => upTo (fun a => result a ≠ .bool false) args
  | .minimum, args => upTo (fun a => (result a).kind ≠ .float) args
  | .maximum, args => upTo (fun a => (result a).kind ≠ .float) args
  | .membership, set :: v :: rest =>
    if (result set).kind = .fuzzy then set :: upTo (fun a => (result a).isError) (v :: rest)
    else [set]
  | .conditional, [test, yes, no] =>
    if result test = .bool true then [test, yes]
    else if result test = .bool false then [test, no]
    else [test]
  | _, _ => []

/-- A name with a fixed meaning: that of look-ups, or that of a connective. -/
inductive Operator where
  | lookup
  | connective (c : Connective)

namespace Operator

def name : Operator → String
  | lookup => lookupName
  | connective c => c.name

/-- The program that calls an operator. -/
def call (op : Operator) (programs : List Value) : Value := .expr (.str op.name :: programs)

/-- The arguments that a call needs, by their results. A look-up needs its key only if that is
an expression. -/
def demanded (program result : α → Value) : Operator → List α → List α
  | lookup, [a] => if (program a).kind = .expression then [a] else []
  | lookup, _ => []
  | connective c, args => c.demanded result args

end Operator

theorem Connective.demanded_map (result : α → Value) (f : β → α) (c : Connective)
    (args : List β) :
    c.demanded result (args.map f) = (c.demanded (result ∘ f) args).map f := by
  cases c with
  | negation | complement =>
    match args with
    | [] | [_] | _ :: _ :: _ => rfl
  | conjunction | disjunction | minimum | maximum => exact upTo_map _ f args
  | conditional =>
    match args with
    | [] | [_] | [_, _] | _ :: _ :: _ :: _ :: _ => rfl
    | [test, yes, no] =>
      simp only [demanded, List.map_cons, List.map_nil, Function.comp_apply]
      split
      · rfl
      · split <;> rfl
  | membership =>
    match args with
    | [] | [_] => rfl
    | set :: v :: rest =>
      simp only [demanded, List.map_cons, Function.comp_apply]
      split
      · exact congrArg (f set :: ·) (upTo_map _ f (v :: rest))
      · rfl

theorem Operator.demanded_map (program result : α → Value) (f : β → α) (op : Operator)
    (args : List β) :
    op.demanded program result (args.map f) =
      (op.demanded (program ∘ f) (result ∘ f) args).map f := by
  cases op with
  | connective c => exact c.demanded_map result f args
  | lookup =>
    match args with
    | [] | _ :: _ :: _ => rfl
    | [a] =>
      simp only [demanded, List.map_cons, List.map_nil, Function.comp_apply]
      split <;> rfl

theorem Connective.demanded_subset (result : α → Value) (c : Connective) (args : List α) :
    c.demanded result args ⊆ args := by
  unfold demanded
  split
  · exact List.Subset.refl _
  · exact List.Subset.refl _
  · exact upTo_subset _ _
  · exact upTo_subset _ _
  · exact upTo_subset _ _
  · exact upTo_subset _ _
  · split
    · exact List.cons_subset_cons _ (upTo_subset _ _)
    · simp
  · split
    · simp
    · split <;> simp
  · exact List.nil_subset _

theorem Operator.demanded_subset (program result : α → Value) (op : Operator) (args : List α) :
    op.demanded program result args ⊆ args := by
  unfold demanded
  split
  · split
    · exact List.Subset.refl _
    · exact List.nil_subset _
  · exact List.nil_subset _
  · exact Connective.demanded_subset _ _ _

end Demand

/-! ## What calls run -/

/-- The lines that running an argument leaves. -/
def Argument.traceLines (a : Argument) : List String := (a.run ()).traceLines

namespace Connective

variable {c : Connective}

theorem traceLines_onBool (a : Argument) (next : Bool → Journaled Value) :
    (onBool c a next).traceLines = a.traceLines ++
      match a.result with
      | .bool b => (next b).traceLines
      | _ => [] := by
  unfold onBool
  rw [Journaled.traceLines_bind]
  show _ = a.traceLines ++ match (a.run ()).result with | .bool b => _ | _ => _
  generalize (a.run ()).result = r
  cases r <;> rfl

theorem traceLines_onFloat (a : Argument) (next : Double → Journaled Value) :
    (onFloat c a next).traceLines = a.traceLines ++
      match a.result with
      | .float x => (next x).traceLines
      | _ => [] := by
  unfold onFloat
  rw [Journaled.traceLines_bind]
  show _ = a.traceLines ++ match (a.run ()).result with | .float x => _ | _ => _
  generalize (a.run ()).result = r
  cases r <;> rfl

theorem traceLines_untilDecisive (decisive : Bool) (args : List Argument) :
    (untilDecisive c decisive args).traceLines =
      (upTo (fun a => a.result ≠ .bool !decisive) args).flatMap Argument.traceLines := by
  induction args with
  | nil => rfl
  | cons a rest ih =>
    rw [untilDecisive, traceLines_onBool, upTo_cons, List.flatMap_cons]
    congr 1
    cases a.result with
    | bool b => cases b <;> cases decisive <;> simp [ih]
    | _ => rfl

theorem traceLines_combine (op : Double → Double → Double) (x : Double) (args : List Argument) :
    (combine c op x args).traceLines =
      (upTo (fun a => a.result.kind ≠ .float) args).flatMap Argument.traceLines := by
  induction args generalizing x with
  | nil => rfl
  | cons a rest ih =>
    rw [combine, traceLines_onFloat, upTo_cons, List.flatMap_cons]
    congr 1
    cases a.result with
    | float y => exact ih (op x y)
    | _ => rfl

theorem traceLines_runAll (args : List Argument) :
    (runAll args).traceLines =
      (upTo (fun a => a.result.isError) args).flatMap Argument.traceLines := by
  induction args with
  | nil => rfl
  | cons a rest ih =>
    rw [runAll, Journaled.traceLines_bind, upTo_cons, List.flatMap_cons]
    show _ = a.traceLines ++ List.flatMap _ (if (a.run ()).result.isError then _ else _)
    congr 1
    cases (a.run ()).result with
    | error message => rfl
    | _ => simp [Value.isError, ih]

theorem traceLines_membershipOf (set : Argument) (values : List Argument) :
    (membershipOf set values).traceLines = set.traceLines ++
      if set.result.kind = .fuzzy then (runAll values).traceLines else [] := by
  unfold membershipOf
  rw [Journaled.traceLines_bind]
  show _ = set.traceLines ++ if (set.run ()).result.kind = _ then _ else _
  congr 1
  cases (set.run ()).result with
  | fuzzy members =>
    rw [Journaled.traceLines_bind]
    cases (runAll values).result <;> exact List.append_nil _
  | _ => rfl

theorem traceLines_apply (c : Connective) (args : List Argument) :
    (c.apply args).traceLines =
      (c.demanded Argument.result args).flatMap Argument.traceLines := by
  cases c with
  | negation =>
    match args with
    | [] | _ :: _ :: _ => rfl
    | [a] =>
      refine (traceLines_onBool a _).trans ?_
      rw [demanded, List.flatMap_singleton]
      cases a.result <;> exact List.append_nil _
  | complement =>
    match args with
    | [] | _ :: _ :: _ => rfl
    | [a] =>
      refine (traceLines_onFloat a _).trans ?_
      rw [demanded, List.flatMap_singleton]
      cases a.result <;> exact List.append_nil _
  | conjunction =>
    match args with
    | [] => rfl
    | a :: rest => exact traceLines_untilDecisive false (a :: rest)
  | disjunction =>
    match args with
    | [] => rfl
    | a :: rest => exact traceLines_untilDecisive true (a :: rest)
  | minimum =>
    match args with
    | [] => rfl
    | a :: rest => exact traceLines_combine .lower .one (a :: rest)
  | maximum =>
    match args with
    | [] => rfl
    | a :: rest => exact traceLines_combine .upper .zero (a :: rest)
  | conditional =>
    match args with
    | [] | [_] | [_, _] | _ :: _ :: _ :: _ :: _ => rfl
    | [test, yes, no] =>
      refine (traceLines_onBool test _).trans ?_
      rw [demanded]
      cases test.result with
      | bool b => cases b <;> simp [Argument.traceLines]
      | _ => simp
  | membership =>
    match args with
    | [] | [_] => rfl
    | set :: v :: rest =>
      refine (traceLines_membershipOf set (v :: rest)).trans ?_
      rw [demanded, traceLines_runAll]
      split
      · rfl
      · simp

end Connective

/-- A look-up runs its key if that is an expression. -/
theorem traceLines_lookup (env : Environment) (args : List Argument) :
    (lookup env args).traceLines =
      (Operator.lookup.demanded Argument.program Argument.result args).flatMap
        Argument.traceLines := by
  have hkey (v : Value) : (lookupKey env v).traceLines = [] := by
    unfold lookupKey
    split
    · split <;> rfl
    · rfl
  match args with
  | [] | _ :: _ :: _ => rfl
  | [a] =>
    rw [lookup, Operator.demanded]
    split
    · next items hprogram =>
      have hexpr : a.program.kind = .expression := by rw [hprogram]; rfl
      rw [Journaled.traceLines_bind, if_pos hexpr, List.flatMap_singleton]
      cases (a.run ()).result <;> simp [hkey, Argument.traceLines]
    · next hprogram =>
      have hleaf : a.program.kind ≠ .expression := by
        cases h : a.program with
        | expr items => exact absurd h (hprogram items)
        | _ => simp [Value.kind]
      rw [if_neg hleaf, hkey]
      rfl

/-- A call runs the arguments that it needs, each once and in order, and nothing else. -/
theorem traceLines_callNamed {table : Table} (env : Environment)
    (builtin : ∀ c : Connective, table.get? c.name = some (.connective c)) (op : Operator)
    (args : List Argument) :
    (callNamed table env op.name args).traceLines =
      (op.demanded Argument.program Argument.result args).flatMap Argument.traceLines := by
  cases op with
  | lookup =>
    show (callNamed table env lookupName args).traceLines = _
    rw [callNamed, if_pos rfl, traceLines_lookup]
  | connective c =>
    show (callNamed table env c.name args).traceLines = _
    rw [callNamed, if_neg c.name_ne_lookupName, builtin c]
    exact c.traceLines_apply args

/-! ## Evaluation in order -/

theorem arguments_eq_map (table : Table) (env : Environment) (programs : List Value) :
    arguments table env programs = programs.map fun p => ⟨p, fun _ => evaluate table env p⟩ := by
  induction programs with
  | nil => rfl
  | cons v vs ih => exact congrArg _ ih

/-- Programs as arguments that give what the programs evaluate to, and when they are run do
nothing but leave a line for their position. -/
def probes (table : Table) (env : Environment) (line : Nat → String) (programs : List Value) :
    List Argument :=
  programs.zipIdx.map fun p =>
    ⟨p.1, fun _ => ⟨(evaluate table env p.1).result, [.trace (line p.2)]⟩⟩

theorem result_probes (table : Table) (env : Environment)
    (builtin : ∀ c : Connective, table.get? c.name = some (.connective c)) (op : Operator)
    (line : Nat → String) (programs : List Value) :
    (callNamed table env op.name (probes table env line programs)).result =
      (evaluate table env (op.call programs)).result := by
  have hprogram : (probes table env line programs).map Argument.program =
      (arguments table env programs).map Argument.program := by
    rw [probes, arguments_eq_map]
    simp [Function.comp_def]
  have hresult : (probes table env line programs).map Argument.result =
      (arguments table env programs).map Argument.result := by
    rw [map_result_arguments, probes, List.map_map]
    show programs.zipIdx.map ((fun v => (evaluate table env v).result) ∘ Prod.fst) = _
    rw [← List.map_map, List.zipIdx_map_fst]
  rw [Operator.call, evaluate, Value.asString]
  cases op with
  | lookup =>
    show (callNamed table env lookupName _).result = (callNamed table env lookupName _).result
    rw [callNamed, callNamed, if_pos rfl, if_pos rfl]
    exact result_lookup_eq hprogram hresult
  | connective c =>
    show (callNamed table env c.name _).result = (callNamed table env c.name _).result
    rw [result_callNamed_connective c.name_ne_lookupName (builtin c),
      result_callNamed_connective c.name_ne_lookupName (builtin c), hresult]

/-- A call of an operator evaluates the arguments that it needs, each once and in order, and its
trace is theirs. Which ones it evaluates is seen when arguments of the same results, which
leave a line for their position and no other, stand in for them. -/
theorem evaluate_runs_demanded (table : Table) (env : Environment)
    (builtin : ∀ c : Connective, table.get? c.name = some (.connective c)) (op : Operator)
    (programs : List Value) :
    (∀ line : Nat → String,
      (callNamed table env op.name (probes table env line programs)).result =
        (evaluate table env (op.call programs)).result ∧
      (callNamed table env op.name (probes table env line programs)).traceLines =
        (op.demanded Prod.fst (fun p => (evaluate table env p.1).result) programs.zipIdx).map
          fun p => line p.2) ∧
    (evaluate table env (op.call programs)).traceLines =
      (op.demanded id (fun p => (evaluate table env p).result) programs).flatMap
        fun p => (evaluate table env p).traceLines := by
  refine ⟨fun line => ⟨result_probes table env builtin op line programs, ?_⟩, ?_⟩
  · rw [traceLines_callNamed env builtin, probes, op.demanded_map, List.flatMap_map]
    exact List.map_eq_flatMap.symm
  · rw [Operator.call, evaluate, Value.asString, traceLines_callNamed env builtin,
      arguments_eq_map, op.demanded_map, List.flatMap_map]
    rfl

theorem evaluate_runs_demanded_disjunction :
    let table : Table := Table.standard.insert "t" (.trace "t")
    let programs : List Value := [false, true, false].map fun b => .expr [.str "t", .bool b]
    (∀ c : Connective, table.get? c.name = some (.connective c)) ∧
      (callNamed table .empty "or" (probes table .empty toString programs)).traceLines =
        ["0", "1"] ∧
      (evaluate table .empty (.expr (.str "or" :: programs))).traceLines =
        ["t false", "t true"] := by
  intro table programs
  have builtin (c : Connective) : table.get? c.name = some (.connective c) := by
    cases c <;> rfl
  obtain ⟨hprobes, htrace⟩ :=
    evaluate_runs_demanded table .empty builtin (.connective .disjunction) programs
  exact ⟨builtin, (hprobes toString).2.trans (by decide), htrace.trans (by decide)⟩

end FuzzyRules
