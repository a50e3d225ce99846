import FuzzyRules.Proofs.Regrouping

/-!
# Dual connectives

The complement of a conjunction is the disjunction of the complements, and the other way around, for
the graded connectives and all numbers: the complement turns one extremum into the other, number by
number (`complement_foldl`). An operand that is no number ends both sides at the same place, so that
their traces are the same (`traceLines_dual`). Its error is passed on by both; if it is none, the
complaints differ.
-/

namespace FuzzyRules

/-! ## Calls by the results of their arguments -/

section Call

variable {table : Table} {c : Connective} (env : Environment)
  (hget : table.get? c.name = some (.connective c)) (programs : List Value)

include hget

theorem result_call_eq :
    (evaluate table env (c.call programs)).result =
      c.valueOn (programs.map fun p => (evaluate table env p).result) := by
  rw [(sameRun_call env hget programs).1, c.result_apply, map_result_arguments]

theorem traceLines_call :
    (evaluate table env (c.call programs)).traceLines =
      (c.demanded (fun p => (evaluate table env p).result) programs).flatMap
        fun p => (evaluate table env p).traceLines := by
  rw [(sameRun_call env hget programs).2, c.traceLines_apply, arguments_eq_map, c.demanded_map,
    List.flatMap_map]
  rfl

end Call

section Results

variable {table : Table} {neg c : Connective} (env : Environment)
  (hneg : table.get? neg.name = some (.connective neg))
  (hget : table.get? c.name = some (.connective c)) (programs : List Value)

include hneg hget

theorem result_negated_call :
    (evaluate table env (neg.call [c.call programs])).result =
      neg.valueOn [c.valueOn (programs.map fun p => (evaluate table env p).result)] := by
  rw [result_call_eq env hneg, List.map_singleton, result_call_eq env hget]

theorem result_call_negated :
    (evaluate table env (c.call (programs.map fun p => neg.call [p]))).result =
      c.valueOn ((programs.map fun p => (evaluate table env p).result).map
        fun v => neg.valueOn [v]) := by
  rw [result_call_eq env hget, List.map_map, List.map_map]
  congr 2
  funext p
  exact result_call_eq env hneg [p]

end Results

namespace Connective

/-- The connective that takes the place of another one under a negation. -/
def dual : Connective → Connective
  | conjunction => disjunction
  | disjunction => conjunction
  | minimum => maximum
  | maximum => minimum
  | c => c

/-- The graded connectives of any number of operands. -/
def extrema : List Connective := [minimum, maximum]

theorem extrema_cases {c : Connective} (hc : c ∈ extrema) : c = minimum ∨ c = maximum := by
  simpa [extrema] using hc

/-- What a connective gives for an operand that is not of the kind it asks for. -/
def complaint (c : Connective) (v : Value) : Value :=
  if v.isError then v else (Fault.operand c).value

variable {c : Connective} {v : Value}

theorem complaint_of_isError (h : v.isError = true) : c.complaint v = v := if_pos h

theorem isError_complaint (c : Connective) (v : Value) : (c.complaint v).isError = true := by
  unfold complaint
  split
  · next h => exact h
  · rfl

@[simp] theorem kind_complaint (c : Connective) (v : Value) : (c.complaint v).kind = .error := by
  have h := isError_complaint c v
  cases hv : c.complaint v with
  | error message => rfl
  | _ =>
    rw [hv] at h
    cases h

/-! ## Operands that are no numbers -/

theorem result_onFloat_of_kind {a : Argument} {next : Double → Journaled Value}
    (h : a.result.kind ≠ .float) : (onFloat c a next).result = c.complaint a.result := by
  unfold onFloat
  rw [Journaled.result_bind]
  show _ = c.complaint (a.run ()).result
  have hrun : (a.run ()).result.kind ≠ .float := h
  cases hv : (a.run ()).result with
  | float x =>
    rw [hv] at hrun
    exact absurd rfl hrun
  | _ => rfl

theorem result_combine_stop {op : Double → Double → Double} {x : Double} {args : List Argument}
    {xs : List Double} {rest : List Value} (hv : v.kind ≠ .float)
    (h : args.map Argument.result = xs.map .float ++ v :: rest) :
    (combine c op x args).result = c.complaint v := by
  induction xs generalizing args x with
  | nil =>
    cases args with
    | nil => cases h
    | cons a args =>
      rw [List.map_cons, List.map_nil, List.nil_append, List.cons.injEq] at h
      rw [combine, result_onFloat_of_kind (h.1 ▸ hv), h.1]
  | cons y ys ih =>
    cases args with
    | nil => cases h
    | cons a args =>
      rw [List.map_cons, List.map_cons, List.cons_append, List.cons.injEq] at h
      rw [combine, result_onFloat h.1, ih h.2]

theorem map_result_settled (results : List Value) :
    (results.map Argument.settled).map Argument.result = results := by
  rw [List.map_map]
  exact List.map_id results

section Values

variable {op : Double → Double → Double} {start : Double}
  (hc : ∀ args, args ≠ [] → c.apply args = combine c op start args)

include hc

theorem valueOn_floats {xs : List Double} (hxs : xs ≠ []) :
    c.valueOn (xs.map .float) = .float (xs.foldl op start) := by
  rw [valueOn, hc _ (by simpa using hxs)]
  exact result_combine (map_result_settled _)

theorem valueOn_stop (xs : List Double) (hv : v.kind ≠ .float) (rest : List Value) :
    c.valueOn (xs.map .float ++ v :: rest) = c.complaint v := by
  rw [valueOn, hc _ (by simp)]
  exact result_combine_stop hv (map_result_settled _)

end Values

theorem valueOn_complement_float (x : Double) :
    complement.valueOn [.float x] = .float (Double.one.sub x) := rfl

theorem valueOn_complement_of_kind (hv : v.kind ≠ .float) :
    complement.valueOn [v] = complement.complaint v := by
  cases v with
  | float x => exact absurd rfl hv
  | _ => rfl

/-! ## Complements of extrema -/

/-- The complement goes through the numbers with the other operation. -/
theorem complement_foldl {op op' : Double → Double → Double}
    (hop : ∀ {x : Double}, x.isNaN = false → ∀ y, (op x y).isNaN = false ∧
      Double.one.sub (op x y) = op' (Double.one.sub x) (Double.one.sub y))
    {x : Double} (hx : x.isNaN = false) (xs : List Double) :
    Double.one.sub (xs.foldl op x) = (xs.map Double.one.sub).foldl op' (Double.one.sub x) := by
  induction xs generalizing x with
  | nil => rfl
  | cons y ys ih =>
    obtain ⟨hnan, hcomplement⟩ := hop hx y
    rw [List.foldl_cons, ih hnan, hcomplement, List.map_cons, List.foldl_cons]

/-- A graded connective and its dual: the complement leads from the numbers of the one to those of
the other. -/
theorem exists_dual_operations (hc : c ∈ extrema) :
    ∃ (op op' : Double → Double → Double) (start : Double),
      (∀ args, args ≠ [] → c.apply args = combine c op start args) ∧
      (∀ args, args ≠ [] → c.dual.apply args = combine c.dual op' (Double.one.sub start) args) ∧
      ∀ xs : List Double, Double.one.sub (xs.foldl op start) =
        (xs.map Double.one.sub).foldl op' (Double.one.sub start) := by
  rcases extrema_cases hc with rfl | rfl
  · refine ⟨.lower, .upper, .one, fun _ => apply_minimum, ?_, complement_foldl ?_ rfl⟩
    · rw [Double.complement_one]
      exact fun _ => apply_maximum
    · exact fun hx y => ⟨Double.isNaN_lower hx y, Double.complement_lower hx y⟩
  · refine ⟨.upper, .lower, .zero, fun _ => apply_maximum, ?_, complement_foldl ?_ rfl⟩
    · rw [Double.complement_zero]
      exact fun _ => apply_minimum
    · exact fun hx y => ⟨Double.isNaN_upper hx y, Double.complement_upper hx y⟩

theorem map_valueOn_complement_floats (xs : List Double) :
    (xs.map .float).map (fun v => complement.valueOn [v]) =
      (xs.map Double.one.sub).map .float := by
  rw [List.map_map, List.map_map]
  rfl

/-- Of numbers only, both sides make the same number. -/
theorem valueOn_dual_floats (hc : c ∈ extrema) {xs : List Double} (hxs : xs ≠ []) :
    ∃ x, complement.valueOn [c.valueOn (xs.map .float)] = .float x ∧
      c.dual.valueOn ((xs.map .float).map fun v => complement.valueOn [v]) = .float x := by
  obtain ⟨op, op', start, happly, hdual, hfold⟩ := exists_dual_operations hc
  refine ⟨_, by rw [valueOn_floats happly hxs, valueOn_complement_float], ?_⟩
  rw [map_valueOn_complement_floats, valueOn_floats hdual (by simpa using hxs), hfold]

/-- An operand that is no number ends both sides. -/
theorem valueOn_dual_stop (hc : c ∈ extrema) (xs : List Double) (hv : v.kind ≠ .float)
    (rest : List Value) :
    complement.valueOn [c.valueOn (xs.map .float ++ v :: rest)] = c.complaint v ∧
      c.dual.valueOn ((xs.map Value.float ++ v :: rest).map fun v => complement.valueOn [v]) =
        complement.complaint v := by
  obtain ⟨op, op', start, happly, hdual, -⟩ := exists_dual_operations hc
  constructor
  · rw [valueOn_stop happly xs hv, valueOn_complement_of_kind (by simp),
      complaint_of_isError (isError_complaint c v)]
  · rw [List.map_append, map_valueOn_complement_floats, List.map_cons,
      valueOn_complement_of_kind hv, valueOn_stop hdual _ (by simp),
      complaint_of_isError (isError_complaint complement v)]

/-! ## Traces -/

theorem kind_valueOn_complement (v : Value) :
    (complement.valueOn [v]).kind = .float ↔ v.kind = .float := by
  by_cases hv : v.kind = .float
  · cases v with
    | float x => exact iff_of_true rfl rfl
    | _ => cases hv
  · rw [valueOn_complement_of_kind hv]
    exact iff_of_false (by simp) hv

theorem demanded_graded {α : Type} (hc : c ∈ extrema) (result : α → Value)
    (args : List α) :
    c.demanded result args = upTo (fun a => (result a).kind ≠ .float) args := by
  rcases extrema_cases hc with rfl | rfl <;> rfl

section Traces

variable {table : Table} (env : Environment) {neg c' : Connective}
  (hneg : table.get? neg.name = some (.connective neg))
  (hget : table.get? c.name = some (.connective c))
  (hget' : table.get? c'.name = some (.connective c'))

include hneg hget hget'

/-- Two connectives that stop at the same operands, one at the operands themselves and the other at
what `neg` makes of them, leave the same lines. -/
theorem traceLines_of_stop (stop stop' : Value → Bool)
    (hone : ∀ (result : Value → Value) p, neg.demanded result [p] = [p])
    (hstop : ∀ result programs,
      c.demanded result programs = upTo (fun p : Value => stop (result p)) programs)
    (hstop' : ∀ result programs,
      c'.demanded result programs = upTo (fun p : Value => stop' (result p)) programs)
    (hsame : ∀ v, stop' (neg.valueOn [v]) = stop v) (programs : List Value) :
    (evaluate table env (neg.call [c.call programs])).traceLines =
      (evaluate table env (c'.call (programs.map fun p => neg.call [p]))).traceLines := by
  have hlines (p : Value) : (evaluate table env (neg.call [p])).traceLines =
      (evaluate table env p).traceLines := by
    rw [traceLines_call env hneg, hone]
    exact List.flatMap_singleton _ _
  rw [hlines, traceLines_call env hget, traceLines_call env hget', c'.demanded_map, hstop, hstop',
    List.flatMap_map]
  congr 1
  · funext p
    exact (hlines p).symm
  · congr 1
    funext p
    rw [Function.comp_apply, result_call_eq env hneg, List.map_singleton, hsame]

end Traces

/-- The complements of the operands stop where the operands do, and leave the same lines. -/
theorem traceLines_dual {table : Table} (env : Environment)
    (hcomplement : table.get? complement.name = some (.connective complement))
    (hc : c ∈ extrema) (hget : table.get? c.name = some (.connective c))
    (hdual : table.get? c.dual.name = some (.connective c.dual)) (programs : List Value) :
    (evaluate table env (complement.call [c.call programs])).traceLines =
      (evaluate table env
        (c.dual.call (programs.map fun p => complement.call [p]))).traceLines := by
  have hmem : c.dual ∈ extrema := by
    rcases extrema_cases hc with rfl | rfl <;> simp [dual, extrema]
  refine traceLines_of_stop env hcomplement hget hdual (fun v => v.kind ≠ .float)
    (fun v => v.kind ≠ .float) (fun _ _ => rfl) (demanded_graded hc) (demanded_graded hmem)
    (fun v => ?_) programs
  simp only [ne_eq, kind_valueOn_complement]

end Connective

/-! ## The laws -/

theorem exists_map_float {results : List Value} (h : ∀ v ∈ results, v.kind = .float) :
    ∃ xs : List Double, results = xs.map .float := by
  induction results with
  | nil => exact ⟨[], rfl⟩
  | cons v rest ih =>
    obtain ⟨xs, rfl⟩ := ih fun w hw => h w (by simp [hw])
    have hv := h v (by simp)
    cases v with
    | float x => exact ⟨x :: xs, rfl⟩
    | _ => cases hv

/-- The complement of a graded connective is its dual on the complements. If all operands are
numbers both sides are the same number, and the error of the first one that is none is passed on by
both; any other first one makes both complain. The traces are always the same. -/
theorem evaluate_complement_dual (table : Table) (env : Environment)
    (builtin : ∀ c ∈ [Connective.complement, .minimum, .maximum],
      table.get? c.name = some (.connective c))
    (c : Connective) (hc : c ∈ Connective.extrema) (programs : List Value)
    (hprograms : programs ≠ []) :
    let first? := (programs.map fun p => (evaluate table env p).result).find?
      fun v => v.kind ≠ .float
    let left := evaluate table env (Connective.complement.call [c.call programs])
    let right := evaluate table env
      (c.dual.call (programs.map fun p => Connective.complement.call [p]))
    left.traceLines = right.traceLines ∧
      (first? = none → ∃ x, left.result = .float x ∧ right.result = .float x) ∧
      (∀ message, first? = some (.error message) →
        left.result = .error message ∧ right.result = .error message) ∧
      ∀ v, first? = some v → v.isError = false →
        left.result.isError = true ∧ right.result.isError = true := by
  intro first? left right
  have hcomplement := builtin .complement (by simp)
  have hget : table.get? c.name = some (.connective c) := by
    rcases Connective.extrema_cases hc with rfl | rfl <;> exact builtin _ (by simp)
  have hdual : table.get? c.dual.name = some (.connective c.dual) := by
    rcases Connective.extrema_cases hc with rfl | rfl <;>
      exact builtin _ (by simp [Connective.dual])
  have hleft : left.result = _ := result_negated_call env hcomplement hget programs
  have hright : right.result = _ := result_call_negated env hcomplement hdual programs
  have hstop (v : Value) (hv : first? = some v) :
      left.result = c.complaint v ∧ right.result = Connective.complement.complaint v := by
    obtain ⟨hkind, before, rest, hsplit, hbefore⟩ := List.find?_eq_some_iff_append.mp hv
    obtain ⟨xs, rfl⟩ := exists_map_float fun w hw => by simpa using hbefore w hw
    rw [hleft, hright, hsplit]
    exact Connective.valueOn_dual_stop hc xs (by simpa using hkind) rest
  refine ⟨Connective.traceLines_dual env hcomplement hc hget hdual programs, fun hnone => ?_,
    fun message herror => hstop _ herror, fun v hv _ => ?_⟩
  · obtain ⟨xs, hxs⟩ := exists_map_float fun w hw => by
      simpa using List.find?_eq_none.mp hnone w hw
    have hne : xs ≠ [] := by
      rintro rfl
      exact hprograms (List.map_eq_nil_iff.mp hxs)
    rw [hleft, hright, hxs]
    exact Connective.valueOn_dual_floats hc hne
  · rw [(hstop v hv).1, (hstop v hv).2]
    exact ⟨Connective.isError_complaint c v, Connective.isError_complaint .complement v⟩

theorem evaluate_complement_dual_rounded :
    let table : Table := Table.standard.insert "t" (.trace "t")
    let programs : List Value :=
      [.nan none, .signed false (.ofRank 1), .signed true .zero].map fun x =>
        .expr [.str "t", .float x]
    let left := evaluate table .empty (.expr [.str "fnot", .expr (.str "fand" :: programs)])
    let right := evaluate table .empty
      (.expr (.str "for" :: programs.map fun p => .expr [.str "fnot", p]))
    (∀ c ∈ [Connective.complement, .minimum, .maximum],
        table.get? c.name = some (.connective c)) ∧
      Connective.minimum ∈ Connective.extrema ∧ programs ≠ [] ∧
      (programs.map fun p => (evaluate table .empty p).result).find?
        (fun v => v.kind ≠ .float) = none ∧
      left.result = .float .one ∧ right.result = .float .one ∧
      left.traceLines = ["t nan", "t 5e-324", "t -0.0"] ∧
      right.traceLines = ["t nan", "t 5e-324", "t -0.0"] := by
  intro table programs left right
  have builtin : ∀ c ∈ [Connective.complement, .minimum, .maximum],
      table.get? c.name = some (.connective c) := by
    simp only [List.mem_cons, List.not_mem_nil, or_false]
    rintro c (rfl | rfl | rfl) <;> rfl
  have hfirst : (programs.map fun p => (evaluate table .empty p).result).find?
      (fun v => v.kind ≠ .float) = none := by decide
  obtain ⟨htrace, hfloat, -, -⟩ :=
    evaluate_complement_dual table .empty builtin .minimum (by decide) programs (by simp [programs])
  obtain ⟨x, hleft, hright⟩ := hfloat hfirst
  have hone : left.result = .float .one := by decide +kernel
  obtain rfl : x = .one := Value.float.inj (hleft.symm.trans hone)
  have hlines : left.traceLines = ["t nan", "t 5e-324", "t -0.0"] := by decide +kernel
  exact ⟨builtin, by decide, by simp [programs], hfirst, hone, hright, hlines,
    htrace.symm.trans hlines⟩

end FuzzyRules
