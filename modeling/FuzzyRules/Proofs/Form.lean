import FuzzyRules.Atom
import FuzzyRules.Token

/-!
# Forms

The grammar of programs, over tokens:

* a program is a word or a list;
* a list is an opening parenthesis, any number of elements and a closing parenthesis;
* an element is a word or a list.

A `Form` is a derivation in this grammar and `Form.tokens` is the sequence of tokens it
derives. The grammar is unambiguous (`Form.tokens_inj`). `Form.value` is the value a form
stands for: the word at the head of a list is a name, every other word is read.
-/

namespace FuzzyRules

/-- A derivation of a program, or of an element of a list. -/
inductive Form where
  | word (text : String)
  | list (elements : List Form)

namespace Form

mutual

/-- The tokens that a form derives. -/
def tokens : Form → List Token
  | word text => [⟨.atom, text⟩]
  | list elements => .openParen :: (allTokens elements ++ [.closeParen])

/-- The tokens that a sequence of forms derives. -/
def allTokens : List Form → List Token
  | [] => []
  | form :: rest => form.tokens ++ allTokens rest

end

mutual

/-- The value of a form, which may stand at the head of a list. -/
def value (isHead : Bool) : Form → Except Atom.Error Value
  | word text => if isHead then .ok (.str text) else Atom.read text
  | list elements => (values true elements).map .expr

/-- The values of forms in a row, the first of which may stand at the head of a list. -/
def values (isHead : Bool) : List Form → Except Atom.Error (List Value)
  | [] => .ok []
  | form :: rest =>
    match form.value isHead with
    | .error error => .error error
    | .ok v => (values false rest).map (v :: ·)

end

/-! ## Unambiguity -/

mutual

theorem eq_of_tokens_append : ∀ {f g : Form} {r s : List Token},
    f.tokens ++ r = g.tokens ++ s → f = g ∧ r = s
  | word _, word _, _, _, h => by simpa [tokens] using h
  | word _, list _, _, _, h => by simp [tokens, Token.openParen] at h
  | list _, word _, _, _, h => by simp [tokens, Token.openParen] at h
  | list _, list _, _, _, h => by
    simp only [tokens, List.cons_append, List.append_assoc, List.nil_append, List.cons.injEq,
      true_and] at h
    obtain ⟨rfl, rfl⟩ := eq_of_allTokens_append h
    exact ⟨rfl, rfl⟩

theorem eq_of_allTokens_append : ∀ {fs gs : List Form} {r s : List Token},
    allTokens fs ++ .closeParen :: r = allTokens gs ++ .closeParen :: s → fs = gs ∧ r = s
  | [], [], _, _, h => by simpa [allTokens] using h
  | [], g :: _, _, _, h => by
    cases g <;> simp [allTokens, tokens, Token.openParen, Token.closeParen] at h
  | f :: _, [], _, _, h => by
    cases f <;> simp [allTokens, tokens, Token.openParen, Token.closeParen] at h
  | f :: fs, g :: gs, r, s, h => by
    simp only [allTokens, List.append_assoc] at h
    obtain ⟨rfl, hrest⟩ := eq_of_tokens_append h
    obtain ⟨rfl, rfl⟩ := eq_of_allTokens_append hrest
    exact ⟨rfl, rfl⟩

end

/-- A sequence of tokens has at most one derivation. -/
theorem tokens_inj {f g : Form} (h : f.tokens = g.tokens) : f = g :=
  (eq_of_tokens_append (r := []) (s := []) (by rw [h])).1

/-! ## Values of sequences -/

theorem values_cons_eq_ok {isHead : Bool} {f : Form} {fs : List Form} {v : Value}
    {vs : List Value} (hf : f.value isHead = .ok v) (hfs : values false fs = .ok vs) :
    values isHead (f :: fs) = .ok (v :: vs) := by
  simp only [values, hf, hfs]; rfl

theorem values_cons_cases {isHead : Bool} {f : Form} {fs : List Form} {ws : List Value}
    (h : values isHead (f :: fs) = .ok ws) :
    ∃ v vs, f.value isHead = .ok v ∧ values false fs = .ok vs ∧ ws = v :: vs := by
  rw [values] at h
  split at h
  · cases h
  · next v hv =>
    cases hvs : values false fs with
    | error e => rw [hvs] at h; cases h
    | ok vs => rw [hvs] at h; cases h; exact ⟨v, vs, hv, rfl, rfl⟩

theorem value_list_eq_ok {isHead : Bool} {fs : List Form} {vs : List Value}
    (h : values true fs = .ok vs) : (list fs).value isHead = .ok (.expr vs) := by
  rw [value, h]; rfl

theorem value_list_cases {isHead : Bool} {fs : List Form} {v : Value}
    (h : (list fs).value isHead = .ok v) : ∃ vs, values true fs = .ok vs ∧ v = .expr vs := by
  rw [value] at h
  cases hvs : values true fs with
  | error e => rw [hvs] at h; cases h
  | ok vs => rw [hvs] at h; cases h; exact ⟨vs, rfl, rfl⟩

end Form

end FuzzyRules
