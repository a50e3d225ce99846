import FuzzyRules.Proofs.Demand
import FuzzyRules.Proofs.Nesting

/-!
# How deep evaluation recurses

The evaluator calls itself for arguments only, never for results or for what is bound in the
environment, so its calls nest no deeper than the program (`evaluate_nests_within_depth`).

Two evaluators show it. `evaluateAround` does something around each call; with `marked` it
leaves a line when a call is entered and one when it is left, so that the calls that are active
at a moment are counted by the lines up to it. `evaluateWithin` has a budget of nested calls.
-/

namespace FuzzyRules

/-! ## Marked calls -/

mutual

/-- Evaluate a program, with something done around each call of the evaluator. -/
def evaluateAround (around : Journaled Value → Journaled Value) (table : Table)
    (env : Environment) : Value → Journaled Value
  | .expr [] => around (pure Fault.noFunctionName.value)
  | .expr (head :: args) =>
    around (callNamed table env head.asString (argumentsAround around table env args))
  | v => around (pure v)

/-- Programs as arguments, each with its evaluation. -/
def argumentsAround (around : Journaled Value → Journaled Value) (table : Table)
    (env : Environment) : List Value → List Argument
  | [] => []
  | v :: rest =>
    ⟨v, fun _ => evaluateAround around table env v⟩ :: argumentsAround around table env rest

end

/-- The line at the start of a call. -/
def enterLine : String := "enter"

/-- The line at the end of a call. -/
def leaveLine : String := "leave"

/-- A call with a line when it is entered and a line when it is left. -/
def marked (call : Journaled Value) : Journaled Value := do
  Journaled.emit (.trace enterLine)
  let v ← call
  Journaled.emit (.trace leaveLine)
  return v

theorem result_marked (call : Journaled Value) : (marked call).result = call.result := rfl

/-- The calls that are active after these lines: those entered less those left. -/
def activeCalls (lines : List String) : Int :=
  (lines.count enterLine : Int) - lines.count leaveLine

/-- At no moment of a computation with marked calls are more than `limit` calls active. -/
def NestsWithin {α : Type} (limit : Int) (m : Journaled α) : Prop :=
  ∀ before, before <+: m.traceLines → activeCalls before ≤ limit

section Around

variable {around : Journaled Value → Journaled Value} {table : Table} {env : Environment}

theorem evaluateAround_leaf {v : Value} (h : v.kind ≠ .expression) :
    evaluateAround around table env v = around (pure v) := by
  cases v with
  | expr items => exact absurd rfl h
  | _ => rfl

theorem argumentsAround_eq_map (programs : List Value) :
    argumentsAround around table env programs =
      programs.map fun v => ⟨v, fun _ => evaluateAround around table env v⟩ := by
  induction programs with
  | nil => rfl
  | cons v vs ih => exact congrArg _ ih

/-- With nothing around its calls, this is evaluation. -/
theorem evaluateAround_id (program : Value) :
    evaluateAround id table env program = evaluate table env program := by
  induction program using Value.callInduction with
  | leaf v hleaf => rw [evaluateAround_leaf hleaf, evaluate_leaf hleaf, id]
  | empty => rfl
  | call head args ih =>
    have hargs : argumentsAround id table env args = arguments table env args := by
      rw [argumentsAround_eq_map, arguments_eq_map]
      refine List.map_congr_left fun v hv => ?_
      rw [ih v hv]
    rw [evaluateAround, evaluate, hargs, id]

/-- What is done around calls does not change the result, if it changes no call's. -/
theorem result_evaluateAround (htable : table.IsLogical)
    (haround : ∀ m, (around m).result = m.result) (program : Value) :
    (evaluateAround around table env program).result = (evaluate table env program).result := by
  induction program using Value.callInduction with
  | leaf v hleaf => rw [evaluateAround_leaf hleaf, haround, evaluate_leaf hleaf]
  | empty => rw [evaluateAround, haround, evaluate]
  | call head args ih =>
    rw [evaluateAround, haround, evaluate, argumentsAround_eq_map, arguments_eq_map]
    refine result_callNamed_eq htable head.asString ?_ ?_
    · simp [Function.comp_def]
    · rw [List.map_map, List.map_map]
      exact List.map_congr_left ih

end Around

/-! ## Active calls -/

/-- The most calls that are active at once. -/
def mostCalls (lines : List String) : Int := peak (· == enterLine) (· == leaveLine) lines

theorem activeCalls_append (xs ys : List String) :
    activeCalls (xs ++ ys) = activeCalls xs + activeCalls ys := rise_append _ _ xs ys

theorem mostCalls_append (xs ys : List String) :
    mostCalls (xs ++ ys) = max (mostCalls xs) (activeCalls xs + mostCalls ys) :=
  peak_append _ _ xs ys

theorem nestsWithin_iff {α : Type} {limit : Int} {m : Journaled α} :
    NestsWithin limit m ↔ mostCalls m.traceLines ≤ limit := by
  obtain ⟨⟨best, hbest, hpeak⟩, hbound⟩ :=
    isGreatest_peak (· == enterLine) (· == leaveLine) m.traceLines
  constructor
  · intro h
    rw [mostCalls, hpeak]
    exact h best hbest
  · intro h before hbefore
    exact Int.le_trans (hbound ⟨before, hbefore, rfl⟩) h

theorem nestsWithin_of_traceLines_eq_nil {α : Type} {limit : Int} (hlimit : 0 ≤ limit)
    {m : Journaled α} (h : m.traceLines = []) : NestsWithin limit m := by
  rw [nestsWithin_iff, h]
  exact hlimit

/-- Lines in which every call that is entered is left, and at most `limit` are active at once. -/
structure Settles (limit : Int) (lines : List String) : Prop where
  active : activeCalls lines = 0
  most : mostCalls lines ≤ limit

namespace Settles

variable {limit : Int}

theorem nil (hlimit : 0 ≤ limit) : Settles limit [] := ⟨rfl, hlimit⟩

theorem mono {limit' : Int} {lines : List String} (hle : limit ≤ limit')
    (h : Settles limit lines) : Settles limit' lines :=
  ⟨h.active, Int.le_trans h.most hle⟩

theorem append {xs ys : List String} (hxs : Settles limit xs) (hys : Settles limit ys) :
    Settles limit (xs ++ ys) := by
  obtain ⟨hactive, hmost⟩ := hxs
  obtain ⟨hactive', hmost'⟩ := hys
  constructor
  · rw [activeCalls_append]
    omega
  · rw [mostCalls_append]
    omega

theorem flatMap {α : Type} (hlimit : 0 ≤ limit) {f : α → List String} {xs : List α}
    (h : ∀ x ∈ xs, Settles limit (f x)) : Settles limit (xs.flatMap f) := by
  induction xs with
  | nil => exact .nil hlimit
  | cons x xs ih =>
    rw [List.flatMap_cons]
    exact (h x (by simp)).append (ih fun y hy => h y (by simp [hy]))

/-- While a call is made, one call more is active. -/
theorem mark {call : Journaled Value} (hlimit : 0 ≤ limit)
    (h : Settles limit call.traceLines) : Settles (limit + 1) (marked call).traceLines := by
  obtain ⟨hactive, hmost⟩ := h
  have hlines : (marked call).traceLines = [enterLine] ++ (call.traceLines ++ [leaveLine]) := by
    simp only [marked, Journaled.traceLines_bind, Journaled.traceLines_pure]
    rfl
  have henter : activeCalls [enterLine] = 1 ∧ mostCalls [enterLine] = 1 := by decide
  have hleave : activeCalls [leaveLine] = -1 ∧ mostCalls [leaveLine] = 0 := by decide
  constructor
  · rw [hlines, activeCalls_append, activeCalls_append]
    omega
  · rw [hlines, mostCalls_append, mostCalls_append]
    omega

end Settles

/-! ## Calls of a program -/

section Settles

variable {table : Table} {env : Environment}

/-- A call settles if its arguments do: it runs some of them, one after the other. -/
theorem settles_callNamed (htable : table.IsLogical) {limit : Int} (hlimit : 0 ≤ limit)
    (name : String) {args : List Argument} (h : ∀ a ∈ args, Settles limit a.traceLines) :
    Settles limit (callNamed table env name args).traceLines := by
  rw [callNamed]
  split
  · rw [traceLines_lookup]
    exact .flatMap hlimit fun a ha => h a (Operator.demanded_subset _ _ _ _ ha)
  · split
    · exact .nil hlimit
    · next handler hget =>
      obtain ⟨c, rfl⟩ := htable _ handler hget
      show Settles limit (c.apply args).traceLines
      rw [c.traceLines_apply]
      exact .flatMap hlimit fun a ha => h a (c.demanded_subset _ _ ha)

/-- By induction on the program: its arguments are less high, so that there is room for the call
that runs them. -/
theorem settles_evaluateAround (htable : table.IsLogical) (program : Value) :
    Settles (program.height + 1) (evaluateAround marked table env program).traceLines := by
  induction program using Value.callInduction with
  | leaf v hleaf =>
    rw [evaluateAround_leaf hleaf]
    exact .mark (by omega) (.nil (by omega))
  | empty => exact .mark (by omega) (.nil (by omega))
  | call head args ih =>
    rw [evaluateAround, argumentsAround_eq_map]
    refine .mark (by omega) (settles_callNamed htable (by omega) _ ?_)
    refine List.forall_mem_map.mpr fun v hv => ?_
    have hheight := Value.height_lt_of_mem (List.mem_cons_of_mem head hv)
    exact (ih v hv).mono (by omega)

end Settles

/-! ## Budgets -/

/-- Evaluate a program with a budget of nested calls; `exhausted` is what a call comes to for
which there is none left. -/
def evaluateWithin (exhausted : Journaled Value) (table : Table) (env : Environment) :
    Nat → Value → Journaled Value
  | 0, _ => exhausted
  | _ + 1, .expr [] => pure Fault.noFunctionName.value
  | budget + 1, .expr (head :: args) =>
    callNamed table env head.asString
      (args.map fun v => ⟨v, fun _ => evaluateWithin exhausted table env budget v⟩)
  | _ + 1, v => pure v

/-- A budget of more calls than the program is high is never exhausted. -/
theorem evaluateWithin_eq {exhausted : Journaled Value} {table : Table} {env : Environment}
    {budget : Nat} {program : Value} (h : program.height < budget) :
    evaluateWithin exhausted table env budget program = evaluate table env program := by
  induction budget generalizing program with
  | zero => omega
  | succ budget ih =>
    match program with
    | .expr [] => rfl
    | .expr (head :: args) =>
      rw [evaluateWithin, evaluate, arguments_eq_map]
      congr 1
      refine List.map_congr_left fun v hv => ?_
      have hheight := Value.height_lt_of_mem (List.mem_cons_of_mem head hv)
      rw [ih (by omega)]
    | .str _ | .int _ | .float _ | .bool _ | .fuzzy _ | .error _ => rfl

/-! ## The depth of programs bounds recursion -/

theorem traceLines_parse (source : String) : (parse source).traceLines = [] := by
  unfold parse
  split <;> rfl

theorem nestsWithin_evaluateAround {table : Table} (htable : table.IsLogical)
    (env : Environment) (program : Value) :
    NestsWithin (program.depth + 1) (evaluateAround marked table env program) := by
  rw [nestsWithin_iff, Value.depth_eq_height]
  exact (settles_evaluateAround htable program).most

theorem Session.nestsWithin_runWith {table : Table} (htable : table.IsLogical)
    (settings : Settings) (env : Environment) {limit : Int} (hlimit : 1 ≤ limit)
    (program : Value) :
    NestsWithin (limit + 1)
      ((start settings table env (some limit)).runWith (evaluateAround marked) program) := by
  rw [runWith_start _ settings table env hlimit]
  split
  · exact nestsWithin_of_traceLines_eq_nil (by omega) rfl
  · next hshallow =>
    rw [nestsWithin_iff]
    have hmost := nestsWithin_iff.mp (nestsWithin_evaluateAround htable env program)
    omega

/-- No more calls of the evaluator are active at once than the program is deep, and one. So a
budget of as many calls is enough, and a session with a limit needs no more than its limit and
one, whatever is bound in its environment. -/
theorem evaluate_nests_within_depth (table : Table) (htable : table.IsLogical)
    (env : Environment) :
    (∀ program : Value,
      evaluateAround id table env program = evaluate table env program ∧
      NestsWithin (program.depth + 1) (evaluateAround marked table env program) ∧
      (evaluateAround marked table env program).result = (evaluate table env program).result ∧
      ∀ (exhausted : Journaled Value) (budget : Nat), program.depth + 1 ≤ budget →
        evaluateWithin exhausted table env budget program = evaluate table env program) ∧
    ∀ (settings : Settings) (limit : Int), 1 ≤ limit →
      let session := Session.start settings table env (some limit)
      (∀ program, NestsWithin (limit + 1) (session.runWith (evaluateAround marked) program)) ∧
      ∀ source, NestsWithin (limit + 1) (session.evalWith (evaluateAround marked) source) := by
  refine ⟨fun program => ⟨evaluateAround_id program, ?_, ?_, ?_⟩, ?_⟩
  · exact nestsWithin_evaluateAround htable env program
  · exact result_evaluateAround htable result_marked program
  · intro exhausted budget hbudget
    rw [Value.depth_eq_height] at hbudget
    exact evaluateWithin_eq hbudget
  · intro settings limit hlimit session
    have hrun (program : Value) :
        NestsWithin (limit + 1) (session.runWith (evaluateAround marked) program) :=
      Session.nestsWithin_runWith htable settings env hlimit program
    refine ⟨hrun, fun source => ?_⟩
    cases hparse : (parse source).result with
    | ok program =>
      have hlines : (session.evalWith (evaluateAround marked) source).traceLines =
          (session.runWith (evaluateAround marked) program).traceLines := by
        rw [Session.evalWith_of_parse _ hparse]
        simp [traceLines_parse]
      rw [nestsWithin_iff, hlines, ← nestsWithin_iff]
      exact hrun program
    | error error =>
      refine nestsWithin_of_traceLines_eq_nil (by omega) ?_
      rw [Session.evalWith, Journaled.traceLines_bind, traceLines_parse, hparse]
      rfl

theorem evaluate_nests_within_depth_attained :
    let env : Environment := .ofList [("tree", .expr [.expr [.expr [.expr []]]])]
    let program : Value := .expr [.str "if", .expr [.str "not", .bool true], .int 1,
      .expr [.str "env", .str "tree"]]
    Table.standard.IsLogical ∧
      NestsWithin 3 (evaluateAround marked .standard env program) ∧
      (∃ before, before <+: (evaluateAround marked .standard env program).traceLines ∧
        activeCalls before = 3) ∧
      (∀ exhausted, evaluateWithin exhausted .standard env 3 program =
        evaluate .standard env program) ∧
      NestsWithin 3 ((Session.start [] .standard env (some 2)).runWith (evaluateAround marked)
        program) := by
  intro env program
  have hdepth : program.depth = 2 := program.depth_eq_height
  obtain ⟨hprogram, hsession⟩ :=
    evaluate_nests_within_depth .standard Table.isLogical_standard env
  obtain ⟨-, hnests, -, hbudget⟩ := hprogram program
  rw [hdepth] at hnests hbudget
  refine ⟨Table.isLogical_standard, hnests, ⟨List.replicate 3 enterLine, ?_, ?_⟩,
    fun exhausted => hbudget exhausted 3 (by decide), (hsession [] 2 (by decide)).1 program⟩
  · decide
  · decide

end FuzzyRules
