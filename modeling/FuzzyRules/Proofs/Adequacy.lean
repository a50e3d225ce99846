import FuzzyRules.Proofs.Connective

/-!
# The meaning of rules

The programs of two-valued and of graded logic over an environment, as syntax trees: a
`Proposition` has a truth value and a `Degree` has a number, both given by recursion on the
tree with no regard to the order in which operands are run. Evaluation agrees with them
(`Proposition.result_program`, `Degree.result_program`), so it never fails on such programs.

A key stands in a tree together with what the environment binds it to, so that trees with
keys of the wrong kind cannot be built.
-/

namespace FuzzyRules

/-! ## Propositions -/

/-- The programs of two-valued logic. -/
inductive Proposition (env : Environment) where
  | literal (truth : Bool)
  | bound (key : String) (truth : Bool) (isBound : env.get? key = some (.bool truth))
  | negation (p : Proposition env)
  | conjunction (first : Proposition env) (rest : List (Proposition env))
  | disjunction (first : Proposition env) (rest : List (Proposition env))
  | conditional (test yes no : Proposition env)

namespace Proposition

variable {env : Environment}

mutual

/-- The classical truth value. -/
def truth : Proposition env → Bool
  | literal b => b
  | bound _ b _ => b
  | negation p => !p.truth
  | conjunction first rest => (first.truth :: truths rest).all id
  | disjunction first rest => (first.truth :: truths rest).any id
  | conditional test yes no => if test.truth then yes.truth else no.truth

def truths : List (Proposition env) → List Bool
  | [] => []
  | p :: ps => p.truth :: truths ps

end

mutual

/-- A proposition as a program. -/
def program : Proposition env → Value
  | literal b => .bool b
  | bound key _ _ => .expr [.str lookupName, .str key]
  | negation p => Connective.negation.call [p.program]
  | conjunction first rest => Connective.conjunction.call (first.program :: programs rest)
  | disjunction first rest => Connective.disjunction.call (first.program :: programs rest)
  | conditional test yes no =>
    Connective.conditional.call [test.program, yes.program, no.program]

def programs : List (Proposition env) → List Value
  | [] => []
  | p :: ps => p.program :: programs ps

end

mutual

/-- A proposition evaluates to its truth value. -/
theorem result_program : ∀ p : Proposition env,
    (evaluate .standard env p.program).result = .bool p.truth
  | literal b => rfl
  | bound key b isBound => result_lookup .standard isBound
  | negation p => by
    rw [program, result_call, truth]
    exact Connective.result_onBool (result_program p)
  | conjunction first rest => by
    rw [program, result_call, truth]
    refine Connective.result_untilFalse ?_
    exact map_result_arguments_cons (result_program first) (result_programs rest)
  | disjunction first rest => by
    rw [program, result_call, truth]
    refine Connective.result_untilTrue ?_
    exact map_result_arguments_cons (result_program first) (result_programs rest)
  | conditional test yes no => by
    rw [program, result_call_conditional (result_program test), result_program yes,
      result_program no, truth]
    exact (apply_ite Value.bool _ _ _).symm

theorem result_programs : ∀ ps : List (Proposition env),
    (programs ps).map (fun v => (evaluate .standard env v).result) = (truths ps).map .bool
  | [] => rfl
  | p :: ps => by
    rw [programs, truths, List.map_cons, List.map_cons, result_program p, result_programs ps]

end

end Proposition

/-! ## Degrees -/

mutual

/-- The programs of graded logic. -/
inductive Degree (env : Environment) where
  | literal (x : Double)
  | bound (key : String) (x : Double) (isBound : env.get? key = some (.float x))
  | complement (d : Degree env)
  | minimum (first : Degree env) (rest : List (Degree env))
  | maximum (first : Degree env) (rest : List (Degree env))
  | conditional (test : Proposition env) (yes no : Degree env)
  | membership (key : String) (set : FuzzySet) (isBound : env.get? key = some (.fuzzy set))
      (first : Operand env) (rest : List (Operand env))

/-- What is looked for in a fuzzy set. -/
inductive Operand (env : Environment) where
  | proposition (p : Proposition env)
  | degree (d : Degree env)
  | text (s : String)

end

variable {env : Environment}

mutual

/-- The number of a degree. -/
def Degree.number : Degree env → Double
  | .literal x => x
  | .bound _ x _ => x
  | .complement d => Double.one.sub d.number
  | .minimum first rest => (first.number :: Degree.numbers rest).foldl .lower .one
  | .maximum first rest => (first.number :: Degree.numbers rest).foldl .upper .zero
  | .conditional test yes no => if test.truth then yes.number else no.number
  | .membership _ set _ first rest =>
    Double.sum ((first.value :: Operand.values rest).map (FuzzySet.membership set))

def Degree.numbers : List (Degree env) → List Double
  | [] => []
  | d :: ds => d.number :: Degree.numbers ds

/-- The value that an operand stands for. -/
def Operand.value : Operand env → Value
  | .proposition p => .bool p.truth
  | .degree d => .float d.number
  | .text s => .str s

def Operand.values : List (Operand env) → List Value
  | [] => []
  | v :: vs => v.value :: Operand.values vs

end

mutual

/-- A degree as a program. -/
def Degree.program : Degree env → Value
  | .literal x => .float x
  | .bound key _ _ => .expr [.str lookupName, .str key]
  | .complement d => Connective.complement.call [d.program]
  | .minimum first rest => Connective.minimum.call (first.program :: Degree.programs rest)
  | .maximum first rest => Connective.maximum.call (first.program :: Degree.programs rest)
  | .conditional test yes no =>
    Connective.conditional.call [test.program, yes.program, no.program]
  | .membership key _ _ first rest => Connective.membership.call
      (.expr [.str lookupName, .str key] :: first.program :: Operand.programs rest)

def Degree.programs : List (Degree env) → List Value
  | [] => []
  | d :: ds => d.program :: Degree.programs ds

/-- An operand as a program. -/
def Operand.program : Operand env → Value
  | .proposition p => p.program
  | .degree d => d.program
  | .text s => .str s

def Operand.programs : List (Operand env) → List Value
  | [] => []
  | v :: vs => v.program :: Operand.programs vs

end

theorem Operand.isError_value (v : Operand env) : v.value.isError = false := by
  cases v <;> rfl

theorem Operand.isError_values (vs : List (Operand env)) :
    ∀ w ∈ Operand.values vs, w.isError = false := by
  induction vs with
  | nil => exact nofun
  | cons v vs ih =>
    intro w hw
    rcases List.mem_cons.mp hw with rfl | hw
    · exact v.isError_value
    · exact ih w hw

mutual

/-- A degree evaluates to its number. -/
theorem Degree.result_program : ∀ d : Degree env,
    (evaluate .standard env d.program).result = .float d.number
  | .literal x => rfl
  | .bound key x isBound => result_lookup .standard isBound
  | .complement d => by
    rw [Degree.program, result_call, Degree.number]
    exact Connective.result_onFloat (Degree.result_program d)
  | .minimum first rest => by
    rw [Degree.program, result_call, Degree.number]
    refine Connective.result_combine ?_
    exact map_result_arguments_cons (Degree.result_program first) (Degree.result_programs rest)
  | .maximum first rest => by
    rw [Degree.program, result_call, Degree.number]
    refine Connective.result_combine ?_
    exact map_result_arguments_cons (Degree.result_program first) (Degree.result_programs rest)
  | .conditional test yes no => by
    rw [Degree.program, result_call_conditional test.result_program, Degree.result_program yes,
      Degree.result_program no, Degree.number]
    exact (apply_ite Value.float _ _ _).symm
  | .membership key set isBound first rest => by
    have hresults : (arguments .standard env (first.program :: Operand.programs rest)).map
        Argument.result = first.value :: Operand.values rest :=
      map_result_arguments_cons (Operand.result_program first) (Operand.result_programs rest)
    rw [Degree.program, result_call_membership isBound ?_, hresults, Degree.number]
    · rfl
    · rw [hresults]
      exact Operand.isError_values (first :: rest)

theorem Degree.result_programs : ∀ ds : List (Degree env),
    (Degree.programs ds).map (fun v => (evaluate .standard env v).result) =
      (Degree.numbers ds).map .float
  | [] => rfl
  | d :: ds => by
    rw [Degree.programs, Degree.numbers, List.map_cons, List.map_cons, Degree.result_program d,
      Degree.result_programs ds]

/-- An operand evaluates to the value that it stands for. -/
theorem Operand.result_program : ∀ v : Operand env,
    (evaluate .standard env v.program).result = v.value
  | .proposition p => p.result_program
  | .degree d => Degree.result_program d
  | .text _ => rfl

theorem Operand.result_programs : ∀ vs : List (Operand env),
    (Operand.programs vs).map (fun v => (evaluate .standard env v).result) = Operand.values vs
  | [] => rfl
  | v :: vs => by
    rw [Operand.programs, Operand.values, List.map_cons, Operand.result_program v,
      Operand.result_programs vs]

end

/-! ## Adequacy -/

/-- Propositions evaluate to their truth values and degrees to their numbers, so none of
them fails. -/
theorem evaluate_adequate (env : Environment) :
    (∀ p : Proposition env, (evaluate .standard env p.program).result = .bool p.truth ∧
      (evaluate .standard env p.program).result.isError = false) ∧
    ∀ d : Degree env, (evaluate .standard env d.program).result = .float d.number ∧
      (evaluate .standard env d.program).result.isError = false := by
  refine ⟨fun p => ⟨p.result_program, ?_⟩, fun d => ⟨d.result_program, ?_⟩⟩
  · rw [p.result_program]
    rfl
  · rw [d.result_program]
    rfl

/-- Of two weights for one text the first counts, and a NaN is found where it is bound itself. -/
theorem evaluate_adequate_mixed :
    let small (rank : Nat) : Double := .signed false (.ofRank rank)
    let gust : Double := .nan (some 0)
    let env : Environment := .ofList [("raining", .bool true), ("gust", .float gust),
      ("wind", .fuzzy [⟨.str "calm", small 1⟩, ⟨.float gust, small 4⟩, ⟨.str "calm", .one⟩])]
    (evaluate .standard env (.expr [.str "if",
        .expr [.str "or", .bool false, .expr [.str "env", .str "raining"]],
        .expr [.str "fand", .expr [.str "feq", .expr [.str "env", .str "wind"],
          .str "calm", .bool false, .expr [.str "env", .str "gust"]]],
        .float .one])).result = .float (small 5) := by
  intro small gust env
  let wind : Degree env := .membership "wind" _ rfl (.text "calm")
    [.proposition (.literal false), .degree (.bound "gust" gust rfl)]
  let choice : Degree env := .conditional
    (.disjunction (.literal false) [.bound "raining" true rfl]) (.minimum wind []) (.literal .one)
  have hnumber : choice.number = small 5 := by decide +kernel
  exact ((evaluate_adequate env).2 choice).1.trans (congrArg Value.float hnumber)

end FuzzyRules
