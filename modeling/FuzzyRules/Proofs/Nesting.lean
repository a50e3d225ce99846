import FuzzyRules.Proofs.Derivation
import FuzzyRules.Proofs.Spelling
import FuzzyRules.Proofs.Tree

/-!
# The depth of a text and of its program

The depth of a program is the greatest number of parentheses that are open at once in its text
(`isNesting_of_parse`). Both are peaks of a count that goes up and down along a list: over the
characters of the text, and over its tokens, which have the same peak (`peakOf_scan`). The tokens
of a form go up to the height of its value and come down again (`peakOf_tokens_append`).

So a session refuses a text for its parentheses, and evaluates nothing then
(`eval_by_nesting`).
-/

namespace FuzzyRules

/-! ## Peaks -/

section Peak

variable {α : Type} (up down : α → Bool)

/-- How far a list goes up: the number of steps up less the number of steps down. -/
def rise (xs : List α) : Int := (xs.countP up : Int) - xs.countP down

/-- The highest point that a list reaches on its way, from zero. -/
def peak : List α → Int
  | [] => 0
  | x :: xs => max 0 (rise up down [x] + peak xs)

theorem rise_nil : rise up down [] = 0 := rfl

theorem rise_append (xs ys : List α) :
    rise up down (xs ++ ys) = rise up down xs + rise up down ys := by
  simp only [rise, List.countP_append]
  omega

theorem rise_cons (x : α) (xs : List α) :
    rise up down (x :: xs) = rise up down [x] + rise up down xs :=
  rise_append up down [x] xs

theorem peak_nonneg (xs : List α) : 0 ≤ peak up down xs := by
  cases xs with
  | nil => exact Int.le_refl 0
  | cons x xs =>
    rw [peak]
    omega

theorem peak_append (xs ys : List α) :
    peak up down (xs ++ ys) = max (peak up down xs) (rise up down xs + peak up down ys) := by
  induction xs with
  | nil =>
    have := peak_nonneg up down ys
    rw [List.nil_append, rise_nil, peak]
    omega
  | cons x xs ih =>
    rw [List.cons_append, peak, peak, ih, rise_cons up down x xs]
    omega

/-- The peak is the greatest rise of a beginning. -/
theorem isGreatest_peak (xs : List α) :
    IsGreatest {n | ∃ before, before <+: xs ∧ n = rise up down before} (peak up down xs) := by
  induction xs with
  | nil =>
    refine ⟨⟨[], List.prefix_refl [], rfl⟩, ?_⟩
    rintro _ ⟨before, hprefix, rfl⟩
    rw [List.prefix_nil.mp hprefix, rise_nil, peak]
  | cons x xs ih =>
    obtain ⟨⟨best, hbest, hpeak⟩, hbound⟩ := ih
    rw [peak]
    constructor
    · by_cases hdown : rise up down [x] + peak up down xs ≤ 0
      · refine ⟨[], List.nil_prefix, ?_⟩
        rw [rise_nil]
        omega
      · refine ⟨x :: best, List.prefix_cons_inj x |>.mpr hbest, ?_⟩
        rw [rise_cons up down x best]
        omega
    · rintro _ ⟨before, hprefix, rfl⟩
      rcases List.prefix_cons_iff.mp hprefix with rfl | ⟨more, rfl, hmore⟩
      · rw [rise_nil]
        omega
      · have := hbound ⟨more, hmore, rfl⟩
        rw [rise_cons up down x more]
        omega

end Peak

/-! ## Characters and tokens -/

/-- The greatest number of parentheses that are open at once in a text: over all its beginnings,
the opening ones less the closing ones. -/
def IsNesting (source : String) (depth : Int) : Prop :=
  IsGreatest {n | ∃ before, before <+: source.toList ∧
    n = (before.count '(' : Int) - before.count ')'} depth

namespace Token

/-- The highest number of open lists on the way through tokens. -/
def peakOf (tokens : List Token) : Int :=
  peak (·.kind = .opening) (·.kind = .closing) tokens

theorem peakOf_cons (t : Token) (ts : List Token) :
    peakOf (t :: ts) = max 0 (balance [t] + peakOf ts) := rfl

theorem peakOf_nonneg (ts : List Token) : 0 ≤ peakOf ts := peak_nonneg _ _ ts

theorem peakOf_atom_cons (text : String) (ts : List Token) :
    peakOf (⟨.atom, text⟩ :: ts) = peakOf ts := by
  have := peakOf_nonneg ts
  rw [peakOf_cons, balance_other (by simp) (by simp)]
  omega

theorem peakOf_endWord_append (word : List Char) (ts : List Token) :
    peakOf ((endWord [] word).reverse ++ ts) = peakOf ts := by
  cases word with
  | nil => rfl
  | cons c word => exact peakOf_atom_cons _ ts

/-- The tokens of a text go up and down as its parentheses do. -/
theorem peakOf_scan (word cs : List Char) :
    peakOf (scan [] word cs) = peak (· == '(') (· == ')') cs := by
  induction cs generalizing word with
  | nil =>
    have h := peakOf_endWord_append word []
    rw [List.append_nil] at h
    exact h
  | cons c cs ih =>
    have hpos := peak_nonneg (· == '(') (· == ')') cs
    rw [scan, peak]
    split
    · next hblank =>
      have hopen : c ≠ '(' := by rintro rfl; exact absurd hblank (by decide)
      have hclose : c ≠ ')' := by rintro rfl; exact absurd hblank (by decide)
      have hrise : rise (· == '(') (· == ')') [c] = 0 := by simp [rise, hopen, hclose]
      rw [scan_eq_append, peakOf_endWord_append, ih, hrise]
      omega
    · split
      · next hopen =>
        subst hopen
        rw [scan_eq_append, List.reverse_cons, List.append_assoc, peakOf_endWord_append]
        show max 0 (balance [openParen] + peakOf (scan [] [] cs)) = _
        rw [ih]
        rfl
      · split
        · next hclose =>
          subst hclose
          rw [scan_eq_append, List.reverse_cons, List.append_assoc, peakOf_endWord_append]
          show max 0 (balance [closeParen] + peakOf (scan [] [] cs)) = _
          rw [ih]
          rfl
        · next hopen hclose =>
          have hrise : rise (· == '(') (· == ')') [c] = 0 := by simp [rise, hopen, hclose]
          rw [ih, hrise]
          omega

end Token

open Token

theorem isNesting_peakOf (source : String) : IsNesting source (peakOf (tokenize source)) := by
  rw [tokenize, peakOf_scan]
  exact isGreatest_peak _ _ source.toList

/-! ## Forms -/

theorem Spellable.height_eq {v : Value} (h : Spellable v) : v.height = 0 := by
  cases h <;> rfl

theorem height_of_readAt {isHead : Bool} {text : String} {v : Value}
    (h : Atom.readAt isHead text = .ok v) : v.height = 0 := by
  unfold Atom.readAt at h
  split at h
  · cases h
    rfl
  · rcases Atom.read_cases h with rfl | ⟨-, hspell⟩
    · rfl
    · exact hspell.height_eq

mutual

/-- The tokens of a form go up to the height of its value, and come down again. -/
theorem peakOf_tokens_append : ∀ (f : Form) {isHead : Bool} {v : Value} (rest : List Token),
    f.value isHead = .ok v → peakOf (f.tokens ++ rest) = max (v.height : Int) (peakOf rest)
  | .word text, isHead, v, rest, h => by
    have := peakOf_nonneg rest
    have hread : Atom.readAt isHead text = .ok v := h
    rw [Form.tokens, List.singleton_append, peakOf_atom_cons, height_of_readAt hread]
    omega
  | .list elements, isHead, v, rest, h => by
    obtain ⟨vs, hvs, rfl⟩ := Form.value_list_cases h
    have := peakOf_nonneg rest
    rw [Form.tokens, List.cons_append, List.append_assoc, List.singleton_append, peakOf_cons,
      peakOf_allTokens_append elements (closeParen :: rest) hvs, peakOf_cons,
      balance_opening rfl, balance_closing rfl, Value.height]
    omega

theorem peakOf_allTokens_append : ∀ (fs : List Form) {isHead : Bool} {vs : List Value}
    (rest : List Token), Form.values isHead fs = .ok vs →
    peakOf (Form.allTokens fs ++ rest) = max (Value.heightAll vs : Int) (peakOf rest)
  | [], isHead, vs, rest, h => by
    have := peakOf_nonneg rest
    cases h
    rw [Form.allTokens, List.nil_append, Value.heightAll]
    omega
  | f :: fs, isHead, vs, rest, h => by
    obtain ⟨w, ws, hw, hws, rfl⟩ := Form.values_cons_cases h
    rw [Form.allTokens, List.append_assoc, peakOf_tokens_append f _ hw,
      peakOf_allTokens_append fs rest hws, Value.heightAll]
    omega

end

/-- The depth of a program is the nesting of the parentheses in its text. -/
theorem isNesting_of_parse {source : String} {v : Value} (h : (parse source).result = .ok v) :
    IsNesting source v.depth := by
  rw [result_parse] at h
  obtain ⟨f, htokens, hvalue⟩ := exists_form_of_readTokens lexed_tokenize h
  have hpeak := peakOf_tokens_append f [] hvalue
  have hnesting := isNesting_peakOf source
  have hnil : peakOf [] = 0 := rfl
  rw [List.append_nil, htokens, hnil] at hpeak
  rw [hpeak] at hnesting
  rw [Value.depth_eq_height]
  simpa using hnesting

/-! ## Sessions -/

namespace Session

section Limit

variable (evaluator : Evaluator)

theorem runWith_start (settings : Settings) (table : Table) (env : Environment) {limit : Int}
    (hlimit : 1 ≤ limit) (program : Value) :
    (start settings table env (some limit)).runWith evaluator program =
      if limit < program.depth then pure (Fault.tooDeep program.depth limit).value
      else evaluator table env program := by
  have hstart : (start settings table env (some limit)).maxDepth? = some limit := by
    rw [start]
    exact if_pos (by omega)
  have hexceeds : program.depthExceeds limit = true ↔ limit < program.depth := by
    rw [Value.depthExceeds_iff, Value.depth_eq_height]
    refine and_iff_right_of_imp fun h => ?_
    by_contra hleaf
    rw [Value.height_leaf hleaf] at h
    omega
  rw [runWith, hstart]
  simp only [hexceeds]
  rfl

theorem evalWith_of_parse {source : String} {program : Value}
    (h : (parse source).result = .ok program) (session : Session) :
    session.evalWith evaluator source = do
      let _ ← parse source
      return .ok (← session.runWith evaluator program) := by
  refine Journaled.bind_congr_result ?_
  rw [h]

end Limit

end Session

/-- The depth of a program is the nesting of its text. A session with a limit refuses a program
whose text is nested deeper, whatever its evaluator does, and evaluates every other one. -/
theorem eval_by_nesting (source : String) (program : Value)
    (h : (parse source).result = .ok program) :
    ∃ depth : Nat, IsNesting source depth ∧ program.depth = depth ∧
      ∀ (settings : Settings) (table : Table) (env : Environment) (limit : Int), 1 ≤ limit →
        let session := Session.start settings table env (some limit)
        (limit < depth →
          (∀ evaluator, session.evalWith evaluator source = session.eval source) ∧
          session.eval source = do
            let _ ← parse source
            return .ok (.error ("expression depth " ++ toString depth ++ " exceeds limit " ++
              toString limit))) ∧
        (depth ≤ limit → session.eval source = do
          let _ ← parse source
          return .ok (← evaluate table env program)) := by
  refine ⟨program.depth, isNesting_of_parse h, rfl, fun settings table env limit hlimit => ?_⟩
  intro session
  have heval (evaluator : Session.Evaluator) :
      session.evalWith evaluator source = do
        let _ ← parse source
        return .ok (← session.runWith evaluator program) :=
    Session.evalWith_of_parse evaluator h session
  constructor
  · intro hdeep
    have hrefused (evaluator : Session.Evaluator) :
        session.runWith evaluator program = pure (Fault.tooDeep program.depth limit).value := by
      rw [Session.runWith_start evaluator settings table env hlimit, if_pos hdeep]
    refine ⟨fun evaluator => ?_, ?_⟩
    · rw [Session.eval, heval, heval, hrefused, hrefused]
    · rw [Session.eval, heval, hrefused]
      rfl
  · intro hshallow
    have hrun : session.runWith evaluate program = evaluate table env program := by
      rw [Session.runWith_start evaluate settings table env hlimit, if_neg (by omega)]
    rw [Session.eval, heval, hrun]

theorem eval_by_nesting_limits :
    let source := "(and (not false) true)"
    let program : Value := .expr [.str "and", .expr [.str "not", .bool false], .bool true]
    (parse source).result = .ok program ∧ IsNesting source 2 ∧
      ((Session.start [] .standard .empty (some 1)).eval source).result =
        .ok (.error "expression depth 2 exceeds limit 1") ∧
      ((Session.start [] .standard .empty (some 2)).eval source).result = .ok (.bool true) := by
  intro source program
  let form : Form := .list [.word "and", .list [.word "not", .word "false"], .word "true"]
  have hform : form.tokens = tokenize source := by decide
  have hparse : (parse source).result = .ok program := by
    rw [result_parse, ← hform, readTokens_tokens]
    rfl
  have hheight : program.depth = 2 := program.depth_eq_height
  obtain ⟨depth, hnesting, hdepth, hsession⟩ := eval_by_nesting source program hparse
  obtain rfl : depth = 2 := hdepth.symm.trans hheight
  obtain ⟨hdeep, -⟩ := hsession [] .standard .empty 1 (by decide)
  obtain ⟨-, hshallow⟩ := hsession [] .standard .empty 2 (by decide)
  refine ⟨hparse, hnesting, ?_, ?_⟩
  · exact congrArg Journaled.result (hdeep (by decide)).2
  · exact congrArg Journaled.result (hshallow (by decide))

end FuzzyRules
