import FuzzyRules.Proofs.Duality

/-!
# Negated conjunctions and disjunctions

The laws of duality for truth values. A conjunction goes on from operands that are true, and a
disjunction from operands that are false; the first other operand settles the whole, by its truth
value or by a failure (`valueOn_junction_stop`). The negated operands are settled by the dual
connective at the same place, so that both sides leave the same trace. A truth value or an error
makes both sides the same value; for any other operand the complaints differ.
-/

namespace FuzzyRules

namespace Connective

/-- The two-valued connectives of any number of operands. -/
def junctions : List Connective := [conjunction, disjunction]

/-- The truth value of the operands from which such a connective goes on. -/
def neutral (c : Connective) : Bool := decide (c = conjunction)

variable {c : Connective} {v : Value}

theorem junctions_cases (hc : c ∈ junctions) : c = conjunction ∨ c = disjunction := by
  simpa [junctions] using hc

theorem dual_mem_junctions (hc : c ∈ junctions) : c.dual ∈ junctions := by
  rcases junctions_cases hc with rfl | rfl <;> simp [dual, junctions]

theorem neutral_dual (hc : c ∈ junctions) : c.dual.neutral = !c.neutral := by
  rcases junctions_cases hc with rfl | rfl <;> rfl

theorem apply_junction (hc : c ∈ junctions) {args : List Argument} (h : args ≠ []) :
    c.apply args = untilDecisive c (!c.neutral) args := by
  rcases junctions_cases hc with rfl | rfl
  · exact apply_conjunction h
  · exact apply_disjunction h

theorem demanded_junction (hc : c ∈ junctions) (result : Value → Value) (programs : List Value) :
    c.demanded result programs = upTo (fun p => result p ≠ .bool c.neutral) programs := by
  rcases junctions_cases hc with rfl | rfl <;> rfl

/-! ## The operand that settles -/

/-- What an operand that is not neutral makes of the whole: a truth value decides it. -/
def verdict (c : Connective) (v : Value) : Value := if v.kind = .bool then v else c.complaint v

theorem verdict_bool (b : Bool) : c.verdict (.bool b) = .bool b := if_pos rfl

theorem verdict_of_kind (h : v.kind ≠ .bool) : c.verdict v = c.complaint v := if_neg h

theorem result_onBool_of_kind {a : Argument} {next : Bool → Journaled Value}
    (h : a.result.kind ≠ .bool) : (onBool c a next).result = c.complaint a.result := by
  unfold onBool
  rw [Journaled.result_bind]
  show _ = c.complaint (a.run ()).result
  have hrun : (a.run ()).result.kind ≠ .bool := h
  cases hv : (a.run ()).result with
  | bool b =>
    rw [hv] at hrun
    exact absurd rfl hrun
  | _ => rfl

/-- By induction on the neutral operands in front. -/
theorem result_untilDecisive_stop {neutral : Bool} {args : List Argument} {n : Nat}
    {rest : List Value} (hv : v ≠ .bool neutral)
    (h : args.map Argument.result = List.replicate n (.bool neutral) ++ v :: rest) :
    (untilDecisive c (!neutral) args).result = c.verdict v := by
  induction n generalizing args with
  | zero =>
    cases args with
    | nil => cases h
    | cons a args =>
      rw [List.replicate_zero, List.nil_append, List.map_cons, List.cons.injEq] at h
      obtain ⟨rfl, -⟩ := h
      unfold untilDecisive
      cases hresult : a.result with
      | bool b =>
        have hb : b = !neutral := Bool.eq_not.mpr fun heq => hv (by rw [hresult, heq])
        rw [result_onBool hresult, if_pos hb, verdict_bool, hb]
        rfl
      | _ => rw [result_onBool_of_kind (by simp [hresult, Value.kind]), hresult]; rfl
  | succ n ih =>
    cases args with
    | nil => cases h
    | cons a args =>
      rw [List.replicate_succ, List.cons_append, List.map_cons, List.cons.injEq] at h
      unfold untilDecisive
      rw [result_onBool h.1, if_neg (by simp), ih h.2]

section Values

variable (hc : c ∈ junctions)

include hc

/-- The first operand that is not neutral settles the whole. -/
theorem valueOn_junction_stop (n : Nat) (hv : v ≠ .bool c.neutral) (rest : List Value) :
    c.valueOn (List.replicate n (.bool c.neutral) ++ v :: rest) = c.verdict v := by
  rw [valueOn, apply_junction hc (by simp)]
  exact result_untilDecisive_stop hv (map_result_settled _)

theorem valueOn_junction_neutral {n : Nat} (hn : n ≠ 0) :
    c.valueOn (List.replicate n (.bool c.neutral)) = .bool c.neutral := by
  have hbools : ((List.replicate n (.bool c.neutral)).map Argument.settled).map Argument.result =
      (List.replicate n c.neutral).map .bool := by
    rw [map_result_settled, List.map_replicate]
  have hmem : (!c.neutral) ∉ List.replicate n c.neutral := by simp
  rw [valueOn, apply_junction hc (by simpa using hn), result_untilDecisive hbools, if_neg hmem,
    Bool.not_not]

end Values

/-! ## Negations -/

theorem valueOn_negation_bool (b : Bool) : negation.valueOn [.bool b] = .bool !b := rfl

theorem valueOn_negation_of_kind (hv : v.kind ≠ .bool) :
    negation.valueOn [v] = negation.complaint v := by
  cases v with
  | bool b => exact absurd rfl hv
  | _ => rfl

/-- Negated, the operands from which a connective goes on are those of its dual. -/
theorem valueOn_negation_eq_iff (v : Value) (b : Bool) :
    negation.valueOn [v] = .bool (!b) ↔ v = .bool b := by
  by_cases hv : v.kind = .bool
  · cases v with
    | bool t => rw [valueOn_negation_bool, Value.bool.injEq, Value.bool.injEq, Bool.not_inj_iff]
    | _ => cases hv
  · rw [valueOn_negation_of_kind hv]
    refine iff_of_false (fun h => ?_) (fun h => hv (by rw [h]; rfl))
    have hkind := kind_complaint negation v
    rw [h] at hkind
    cases hkind

theorem map_valueOn_negation_replicate (n : Nat) (b : Bool) :
    (List.replicate n (.bool b)).map (fun v => negation.valueOn [v]) =
      List.replicate n (.bool !b) := List.map_replicate

/-- Of neutral operands only, both sides make the truth value that is not neutral. -/
theorem valueOn_negation_neutral (hc : c ∈ junctions) {n : Nat} (hn : n ≠ 0) :
    negation.valueOn [c.valueOn (List.replicate n (.bool c.neutral))] = .bool !c.neutral ∧
      c.dual.valueOn ((List.replicate n (.bool c.neutral)).map fun v => negation.valueOn [v]) =
        .bool !c.neutral := by
  rw [valueOn_junction_neutral hc hn, map_valueOn_negation_replicate, ← neutral_dual hc,
    valueOn_junction_neutral (dual_mem_junctions hc) hn, neutral_dual hc]
  exact ⟨rfl, rfl⟩

/-- The operand that settles the one side settles the other. -/
theorem valueOn_negation_stop (hc : c ∈ junctions) (n : Nat) (hv : v ≠ .bool c.neutral)
    (rest : List Value) :
    negation.valueOn [c.valueOn (List.replicate n (.bool c.neutral) ++ v :: rest)] =
        negation.valueOn [c.verdict v] ∧
      c.dual.valueOn ((List.replicate n (Value.bool c.neutral) ++ v :: rest).map
        fun v => negation.valueOn [v]) = c.dual.verdict (negation.valueOn [v]) := by
  have hnegated : negation.valueOn [v] ≠ .bool c.dual.neutral := by
    rw [neutral_dual hc, ne_eq, valueOn_negation_eq_iff]
    exact hv
  rw [valueOn_junction_stop hc n hv, List.map_append, map_valueOn_negation_replicate,
    List.map_cons, ← neutral_dual hc, valueOn_junction_stop (dual_mem_junctions hc) n hnegated]
  exact ⟨rfl, rfl⟩

/-- The negated operands are settled where the operands are, and leave the same lines. -/
theorem traceLines_negation_dual {table : Table} (env : Environment)
    (hnegation : table.get? negation.name = some (.connective negation))
    (hc : c ∈ junctions) (hget : table.get? c.name = some (.connective c))
    (hdual : table.get? c.dual.name = some (.connective c.dual)) (programs : List Value) :
    (evaluate table env (negation.call [c.call programs])).traceLines =
      (evaluate table env (c.dual.call (programs.map fun p => negation.call [p]))).traceLines := by
  refine traceLines_of_stop env hnegation hget hdual (fun v => v ≠ .bool c.neutral)
    (fun v => v ≠ .bool c.dual.neutral) (fun _ _ => rfl) (demanded_junction hc)
    (demanded_junction (dual_mem_junctions hc)) (fun v => ?_) programs
  simp only [ne_eq, neutral_dual hc, valueOn_negation_eq_iff]

end Connective

/-! ## The laws -/

/-- The negation of a conjunction or a disjunction is its dual on the negations. The first operand
that is not neutral settles both sides: a truth value or an error makes them one value, and anything
else makes both complain. The traces are always the same. -/
theorem evaluate_negation_dual (table : Table) (env : Environment)
    (builtin : ∀ c ∈ [Connective.negation, .conjunction, .disjunction],
      table.get? c.name = some (.connective c))
    (c : Connective) (hc : c ∈ Connective.junctions) (programs : List Value)
    (hprograms : programs ≠ []) :
    let first? := (programs.map fun p => (evaluate table env p).result).find?
      fun v => v ≠ .bool c.neutral
    let left := evaluate table env (Connective.negation.call [c.call programs])
    let right := evaluate table env
      (c.dual.call (programs.map fun p => Connective.negation.call [p]))
    left.traceLines = right.traceLines ∧
      (first? = none → left.result = .bool (!c.neutral) ∧ right.result = .bool (!c.neutral)) ∧
      (first? = some (.bool !c.neutral) →
        left.result = .bool c.neutral ∧ right.result = .bool c.neutral) ∧
      (∀ message, first? = some (.error message) →
        left.result = .error message ∧ right.result = .error message) ∧
      ∀ v, first? = some v → v.kind ≠ .bool → v.isError = false →
        left.result.isError = true ∧ right.result.isError = true := by
  intro first? left right
  have hnegation := builtin .negation (by simp)
  have hget : table.get? c.name = some (.connective c) := by
    rcases Connective.junctions_cases hc with rfl | rfl <;> exact builtin _ (by simp)
  have hdual : table.get? c.dual.name = some (.connective c.dual) := by
    rcases Connective.junctions_cases hc with rfl | rfl <;>
      exact builtin _ (by simp [Connective.dual])
  have hleft : left.result = _ := result_negated_call env hnegation hget programs
  have hright : right.result = _ := result_call_negated env hnegation hdual programs
  have hstop (v : Value) (hv : first? = some v) :
      left.result = Connective.negation.valueOn [c.verdict v] ∧
        right.result = c.dual.verdict (Connective.negation.valueOn [v]) := by
    obtain ⟨hne, before, rest, hsplit, hbefore⟩ := List.find?_eq_some_iff_append.mp hv
    have hneutral : before = List.replicate before.length (.bool c.neutral) :=
      List.eq_replicate_of_mem fun w hw => by simpa using hbefore w hw
    rw [hleft, hright, hsplit, hneutral]
    exact Connective.valueOn_negation_stop hc _ (by simpa using hne) rest
  refine ⟨Connective.traceLines_negation_dual env hnegation hc hget hdual programs,
    fun hnone => ?_, fun hbool => ?_, fun message herror => ?_, fun v hv hkind _ => ?_⟩
  · have hneutral := List.eq_replicate_of_mem fun w hw => by
      simpa using List.find?_eq_none.mp hnone w hw
    rw [hleft, hright, hneutral]
    exact Connective.valueOn_negation_neutral hc (by simpa using hprograms)
  · obtain ⟨hl, hr⟩ := hstop _ hbool
    rw [hl, hr, Connective.verdict_bool, Connective.valueOn_negation_bool, Bool.not_not,
      Connective.verdict_bool]
    exact ⟨rfl, rfl⟩
  · exact hstop _ herror
  · obtain ⟨hl, hr⟩ := hstop v hv
    rw [hl, hr, Connective.verdict_of_kind hkind, Connective.valueOn_negation_of_kind hkind,
      Connective.valueOn_negation_of_kind (by simp), Connective.verdict_of_kind (by simp)]
    exact ⟨Connective.isError_complaint _ _, Connective.isError_complaint _ _⟩

theorem evaluate_negation_dual_error :
    let table : Table := Table.standard.insert "t" (.trace "t")
    let programs : List Value := [.bool true, .error "lost", .bool false].map fun v =>
      .expr [.str "t", v]
    let left := evaluate table .empty (.expr [.str "not", .expr (.str "and" :: programs)])
    let right := evaluate table .empty
      (.expr (.str "or" :: programs.map fun p => .expr [.str "not", p]))
    (∀ c ∈ [Connective.negation, .conjunction, .disjunction],
        table.get? c.name = some (.connective c)) ∧
      Connective.conjunction ∈ Connective.junctions ∧ programs ≠ [] ∧
      (programs.map fun p => (evaluate table .empty p).result).find?
        (fun v => v ≠ .bool Connective.conjunction.neutral) = some (.error "lost") ∧
      left.result = .error "lost" ∧ right.result = .error "lost" ∧
      left.traceLines = ["t true", "t #<error: lost>"] ∧
      right.traceLines = ["t true", "t #<error: lost>"] := by
  intro table programs left right
  have builtin : ∀ c ∈ [Connective.negation, .conjunction, .disjunction],
      table.get? c.name = some (.connective c) := by
    simp only [List.mem_cons, List.not_mem_nil, or_false]
    rintro c (rfl | rfl | rfl) <;> rfl
  have hfirst : (programs.map fun p => (evaluate table .empty p).result).find?
      (fun v => v ≠ .bool Connective.conjunction.neutral) = some (.error "lost") := by decide
  obtain ⟨htrace, -, -, herror, -⟩ := evaluate_negation_dual table .empty builtin .conjunction
    (by decide) programs (by simp [programs])
  obtain ⟨hleft, hright⟩ := herror "lost" hfirst
  have hlines : left.traceLines = ["t true", "t #<error: lost>"] := by decide
  exact ⟨builtin, by decide, by simp [programs], hfirst, hleft, hright, hlines,
    htrace.symm.trans hlines⟩

end FuzzyRules
