import FuzzyRules.Evaluation

/-!
# What connectives make of the results of their arguments

Each way of running arguments, in terms of their results, for arguments that all give what
the connective asks for. Which of them it runs does not matter for the result. A property of
errors holds of a result if the operands keep it (`combine_induction`). For any
arguments, what a connective gives is a function of their results (`result_apply`). A call of
a connective by its name is its application to the programs after the name (`result_call`).
-/

namespace FuzzyRules

namespace Argument

/-- The result of running an argument. -/
def result (a : Argument) : Value := (a.run ()).result

/-- An argument that is done: running it gives its result at once. -/
def settled (v : Value) : Argument := ⟨v, fun _ => pure v⟩

end Argument

namespace Connective

/-! ## Single operands -/

section Operand

variable {c : Connective} {a : Argument}

theorem result_onBool {b : Bool} {next : Bool → Journaled Value} (h : a.result = .bool b) :
    (onBool c a next).result = (next b).result := by
  have hrun : (a.run ()).result = .bool b := h
  unfold onBool
  rw [Journaled.result_bind, hrun]

theorem result_onFloat {x : Double} {next : Double → Journaled Value}
    (h : a.result = .float x) : (onFloat c a next).result = (next x).result := by
  have hrun : (a.run ()).result = .float x := h
  unfold onFloat
  rw [Journaled.result_bind, hrun]

end Operand

/-! ## Any number of operands -/

section Operands

variable {c : Connective} {args : List Argument}

/-- Stopping early makes no difference: the result is decisive if any operand is. -/
theorem result_untilDecisive {decisive : Bool} {bs : List Bool}
    (h : args.map Argument.result = bs.map .bool) :
    (untilDecisive c decisive args).result =
      .bool (if decisive ∈ bs then decisive else !decisive) := by
  induction args generalizing bs with
  | nil =>
    obtain rfl : bs = [] := List.map_eq_nil_iff.mp h.symm
    rw [if_neg List.not_mem_nil]
    rfl
  | cons a rest ih =>
    cases bs with
    | nil => cases h
    | cons b bs =>
      rw [List.map_cons, List.map_cons, List.cons.injEq] at h
      obtain ⟨hb, hbs⟩ := h
      unfold untilDecisive
      rw [result_onBool hb]
      by_cases hd : b = decisive
      · rw [if_pos hd, if_pos (by simp [hd])]
        rfl
      · have hmem : decisive ∈ b :: bs ↔ decisive ∈ bs := by
          rw [List.mem_cons]
          exact or_iff_right fun h => hd h.symm
        rw [if_neg hd, ih hbs]
        simp only [hmem]

theorem result_untilFalse {bs : List Bool} (h : args.map Argument.result = bs.map .bool) :
    (untilDecisive c false args).result = .bool (bs.all id) := by
  rw [result_untilDecisive h]
  by_cases hmem : false ∈ bs
  · have hall : bs.all id = false := List.all_eq_false.mpr ⟨false, hmem, by simp⟩
    rw [if_pos hmem, hall]
  · have hall : bs.all id = true := by
      refine List.all_eq_true.mpr fun b hb => ?_
      cases b with
      | true => rfl
      | false => exact absurd hb hmem
    rw [if_neg hmem, hall]
    rfl

theorem result_untilTrue {bs : List Bool} (h : args.map Argument.result = bs.map .bool) :
    (untilDecisive c true args).result = .bool (bs.any id) := by
  rw [result_untilDecisive h]
  by_cases hmem : true ∈ bs
  · have hany : bs.any id = true := List.any_eq_true.mpr ⟨true, hmem, rfl⟩
    rw [if_pos hmem, hany]
  · have hany : bs.any id = false := by
      refine List.any_eq_false.mpr fun b hb => ?_
      cases b with
      | false => exact nofun
      | true => exact absurd hb hmem
    rw [if_neg hmem, hany]
    rfl

theorem result_combine {op : Double → Double → Double} {x : Double} {xs : List Double}
    (h : args.map Argument.result = xs.map .float) :
    (combine c op x args).result = .float (xs.foldl op x) := by
  induction args generalizing x xs with
  | nil =>
    obtain rfl : xs = [] := List.map_eq_nil_iff.mp h.symm
    rfl
  | cons a rest ih =>
    cases xs with
    | nil => cases h
    | cons y ys =>
      rw [List.map_cons, List.map_cons, List.cons.injEq] at h
      obtain ⟨hy, hys⟩ := h
      unfold combine
      rw [result_onFloat hy, ih hys, List.foldl_cons]

theorem result_runAll_cons (a : Argument) (rest : List Argument) :
    (runAll (a :: rest)).result =
      if a.result.isError then .error a.result.asError
      else (runAll rest).result.map (a.result :: ·) := by
  show (runAll (a :: rest)).result =
    if (a.run ()).result.isError then .error (a.run ()).result.asError
    else (runAll rest).result.map ((a.run ()).result :: ·)
  rw [runAll, Journaled.result_bind]
  cases (a.run ()).result <;> rfl

theorem result_runAll (h : ∀ a ∈ args, a.result.isError = false) :
    (runAll args).result = .ok (args.map Argument.result) := by
  induction args with
  | nil => rfl
  | cons a rest ih =>
    rw [result_runAll_cons, h a (by simp), ih fun b hb => h b (by simp [hb])]
    rfl

theorem result_membershipOf {set : Argument} {members : FuzzySet}
    (hset : set.result = .fuzzy members) (h : ∀ a ∈ args, a.result.isError = false) :
    (membershipOf set args).result =
      .float (FuzzySet.membershipSum members (args.map Argument.result)) := by
  have hrun : (set.run ()).result = .fuzzy members := hset
  unfold membershipOf
  rw [Journaled.result_bind, hrun]
  simp only
  rw [Journaled.result_bind, result_runAll h]
  rfl

end Operands

/-! ## What holds of all results -/

section Invariant

variable {c : Connective} {a : Argument} {P : Value → Prop}
  (herror : ∀ message, P (.error message))

include herror

theorem onBool_induction {next : Bool → Journaled Value}
    (hnext : ∀ b, a.result = .bool b → P (next b).result) : P (onBool c a next).result := by
  unfold onBool
  rw [Journaled.result_bind]
  split
  · next b hb => exact hnext b hb
  · exact herror _
  · exact herror _

theorem onFloat_induction {next : Double → Journaled Value}
    (hnext : ∀ x, a.result = .float x → P (next x).result) : P (onFloat c a next).result := by
  unfold onFloat
  rw [Journaled.result_bind]
  split
  · next x hx => exact hnext x hx
  · exact herror _
  · exact herror _

theorem untilDecisive_induction (hbool : ∀ b, P (.bool b)) (decisive : Bool)
    (args : List Argument) : P (untilDecisive c decisive args).result := by
  induction args with
  | nil => exact hbool _
  | cons a rest ih =>
    refine onBool_induction herror fun b _ => ?_
    split
    · exact hbool _
    · exact ih

/-- What the start has and every operand keeps holds of the number in the end. -/
theorem combine_induction {Q : Double → Prop} {op : Double → Double → Double} {x : Double}
    {args : List Argument} (hstart : Q x)
    (hop : ∀ x y, Q x → ∀ a ∈ args, a.result = .float y → Q (op x y))
    (hfloat : ∀ x, Q x → P (.float x)) : P (combine c op x args).result := by
  induction args generalizing x with
  | nil => exact hfloat x hstart
  | cons a rest ih =>
    refine onFloat_induction herror fun y hy => ?_
    exact ih (hop x y hstart a (by simp) hy) fun x y hx b hb => hop x y hx b (by simp [hb])

end Invariant

/-! ## Any arguments -/

/-- What a connective gives on the results of its arguments. -/
def valueOn (c : Connective) (results : List Value) : Value :=
  (c.apply (results.map .settled)).result

section Results

variable {c : Connective}

theorem result_onBool_congr {a b : Argument} {next next' : Bool → Journaled Value}
    (h : a.result = b.result) (hnext : ∀ t, (next t).result = (next' t).result) :
    (onBool c a next).result = (onBool c b next').result := by
  have hrun : (a.run ()).result = (b.run ()).result := h
  unfold onBool
  rw [Journaled.result_bind, Journaled.result_bind, hrun]
  split
  · exact hnext _
  · rfl
  · rfl

theorem result_onFloat_congr {a b : Argument} {next next' : Double → Journaled Value}
    (h : a.result = b.result) (hnext : ∀ x, (next x).result = (next' x).result) :
    (onFloat c a next).result = (onFloat c b next').result := by
  have hrun : (a.run ()).result = (b.run ()).result := h
  unfold onFloat
  rw [Journaled.result_bind, Journaled.result_bind, hrun]
  split
  · exact hnext _
  · rfl
  · rfl

theorem result_untilDecisive_settled (decisive : Bool) (args : List Argument) :
    (untilDecisive c decisive args).result =
      (untilDecisive c decisive ((args.map Argument.result).map .settled)).result := by
  induction args with
  | nil => rfl
  | cons a rest ih =>
    refine result_onBool_congr rfl fun b => ?_
    split
    · rfl
    · exact ih

theorem result_combine_settled (op : Double → Double → Double) (x : Double)
    (args : List Argument) :
    (combine c op x args).result =
      (combine c op x ((args.map Argument.result).map .settled)).result := by
  induction args generalizing x with
  | nil => rfl
  | cons a rest ih => exact result_onFloat_congr rfl fun y => ih (op x y)

theorem result_runAll_settled (args : List Argument) :
    (runAll args).result = (runAll ((args.map Argument.result).map .settled)).result := by
  induction args with
  | nil => rfl
  | cons a rest ih =>
    rw [result_runAll_cons, List.map_cons, List.map_cons, result_runAll_cons, ih]
    rfl

theorem result_membershipOf_congr {set set' : Argument} {values values' : List Argument}
    (h : set.result = set'.result) (hvalues : (runAll values).result = (runAll values').result) :
    (membershipOf set values).result = (membershipOf set' values').result := by
  have hrun : (set.run ()).result = (set'.run ()).result := h
  unfold membershipOf
  rw [Journaled.result_bind, Journaled.result_bind, hrun]
  split
  · rw [Journaled.result_bind, Journaled.result_bind, hvalues]
  · rfl
  · rfl

end Results

/-- What a connective gives depends on the results of its arguments only. -/
theorem result_apply (c : Connective) (args : List Argument) :
    (c.apply args).result = c.valueOn (args.map Argument.result) := by
  unfold valueOn
  cases c with
  | negation =>
    match args with
    | [] | _ :: _ :: _ => rfl
    | [a] => exact result_onBool_congr rfl fun _ => rfl
  | conjunction =>
    match args with
    | [] => rfl
    | a :: rest => exact result_untilDecisive_settled false (a :: rest)
  | disjunction =>
    match args with
    | [] => rfl
    | a :: rest => exact result_untilDecisive_settled true (a :: rest)
  | conditional =>
    match args with
    | [] | [_] | [_, _] | _ :: _ :: _ :: _ :: _ => rfl
    | [test, yes, no] => exact result_onBool_congr rfl fun b => by cases b <;> rfl
  | complement =>
    match args with
    | [] | _ :: _ :: _ => rfl
    | [a] => exact result_onFloat_congr rfl fun _ => rfl
  | minimum =>
    match args with
    | [] => rfl
    | a :: rest => exact result_combine_settled .lower .one (a :: rest)
  | maximum =>
    match args with
    | [] => rfl
    | a :: rest => exact result_combine_settled .upper .zero (a :: rest)
  | membership =>
    match args with
    | [] | [_] => rfl
    | set :: v :: rest =>
      exact result_membershipOf_congr rfl (result_runAll_settled (v :: rest))

/-! ## Calls -/

/-- The program that calls a connective. -/
def call (c : Connective) (programs : List Value) : Value := .expr (.str c.name :: programs)

theorem name_ne_lookupName (c : Connective) : c.name ≠ lookupName := by
  cases c <;> decide

theorem get?_standard (c : Connective) : Table.standard.get? c.name = some (.connective c) := by
  cases c <;> rfl

end Connective

/-- A table of connectives only. -/
def Table.IsLogical (table : Table) : Prop :=
  ∀ name handler, table.get? name = some handler → ∃ c, handler = .connective c

/-- The names of the standard table are those of its connectives. -/
theorem Table.exists_connective_of_get? {name : String} {handler : Handler}
    (h : Table.standard.get? name = some handler) :
    ∃ c : Connective, name = c.name ∧ handler = .connective c := by
  have hentries : Table.standard.entries =
      (Connective.classical ++ Connective.graded).map fun c => (c.name, .connective c) := rfl
  have hmem : (name, handler) ∈ Table.standard.entries := OrderedMap.mem_entries_of_get? h
  rw [hentries] at hmem
  obtain ⟨c, -, hc⟩ := List.mem_map.mp hmem
  cases hc
  exact ⟨c, rfl, rfl⟩

theorem Table.isLogical_standard : Table.standard.IsLogical := by
  intro name handler h
  obtain ⟨c, -, hc⟩ := exists_connective_of_get? h
  exact ⟨c, hc⟩

theorem map_result_arguments (table : Table) (env : Environment) (programs : List Value) :
    (arguments table env programs).map Argument.result =
      programs.map fun v => (evaluate table env v).result := by
  induction programs with
  | nil => rfl
  | cons v vs ih => exact congrArg _ ih

theorem map_result_arguments_cons {table : Table} {env : Environment} {v w : Value}
    {vs ws : List Value} (hv : (evaluate table env v).result = w)
    (hvs : vs.map (fun v => (evaluate table env v).result) = ws) :
    (arguments table env (v :: vs)).map Argument.result = w :: ws := by
  rw [map_result_arguments, List.map_cons, hv, hvs]

theorem result_call (env : Environment) (c : Connective) (programs : List Value) :
    (evaluate .standard env (c.call programs)).result =
      (c.apply (arguments .standard env programs)).result := by
  rw [Connective.call, evaluate, Value.asString, callNamed, if_neg c.name_ne_lookupName,
    c.get?_standard]
  rfl

/-- A choice evaluates to what the chosen program evaluates to. -/
theorem result_call_conditional {env : Environment} {test : Value} {b : Bool}
    (h : (evaluate .standard env test).result = .bool b) (yes no : Value) :
    (evaluate .standard env (Connective.conditional.call [test, yes, no])).result =
      if b then (evaluate .standard env yes).result else (evaluate .standard env no).result := by
  have htest : Argument.result ⟨test, fun _ => evaluate .standard env test⟩ = .bool b := h
  rw [result_call]
  refine (Connective.result_onBool htest).trans ?_
  cases b <;> rfl

/-- A bound key evaluates to what it is bound to. -/
theorem result_lookup (table : Table) {env : Environment} {key : String} {v : Value}
    (h : env.get? key = some v) :
    (evaluate table env (.expr [.str lookupName, .str key])).result = v := by
  rw [evaluate, Value.asString, callNamed, if_pos rfl]
  show (lookupKey env (.str key)).result = v
  rw [lookupKey, h]
  rfl

/-- A bound set evaluates to the sum of the memberships of what the programs evaluate to. -/
theorem result_call_membership {env : Environment} {key : String} {set : FuzzySet}
    {first : Value} {rest : List Value} (hset : env.get? key = some (.fuzzy set))
    (h : ∀ v ∈ (arguments .standard env (first :: rest)).map Argument.result, v.isError = false) :
    (evaluate .standard env (Connective.membership.call
        (.expr [.str lookupName, .str key] :: first :: rest))).result =
      .float (FuzzySet.membershipSum set
        ((arguments .standard env (first :: rest)).map Argument.result)) := by
  rw [result_call]
  refine Connective.result_membershipOf (result_lookup .standard hset) fun a ha => ?_
  exact h _ (List.mem_map_of_mem ha)

end FuzzyRules
