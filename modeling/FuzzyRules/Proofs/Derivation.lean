import FuzzyRules.Proofs.Balance
import FuzzyRules.Proofs.Form

/-!
# Programs are the derivable texts

Reading accepts the token sequences that the grammar of forms derives, and gives the value
of the form. That it accepts them all is an induction on the form, with the lists still
open as a parameter (`readItems_tokens`). That it accepts no others follows from what the
open lists still demand of the tokens, which is written down as `Closes`.
-/

namespace FuzzyRules

open Token

/-! ## Derived tokens are read -/

mutual

theorem readItems_tokens : ∀ (f : Form) {v : Value} (items : List Value)
    (outer : List (List Value)) (rest : List Token), f.value items.isEmpty = .ok v →
    readItems items outer (f.tokens ++ rest) = readItems (v :: items) outer rest
  | .word text, v, items, outer, rest, h => by
    have hread : Atom.readAt items.isEmpty text = .ok v := h
    rw [Form.tokens, List.singleton_append, readItems_atom, hread]
  | .list elements, v, items, outer, rest, h => by
    obtain ⟨vs, hvs, rfl⟩ := Form.value_list_cases h
    rw [Form.tokens, List.cons_append, List.append_assoc, readItems_openParen,
      readItems_allTokens elements [] (items :: outer) _ hvs, List.singleton_append,
      readItems_closeParen]
    simp

theorem readItems_allTokens : ∀ (fs : List Form) {vs : List Value} (items : List Value)
    (outer : List (List Value)) (rest : List Token), Form.values items.isEmpty fs = .ok vs →
    readItems items outer (Form.allTokens fs ++ rest) =
      readItems (vs.reverse ++ items) outer rest
  | [], vs, items, outer, rest, h => by cases h; rfl
  | f :: fs, vs, items, outer, rest, h => by
    obtain ⟨w, ws, hw, hws, rfl⟩ := Form.values_cons_cases h
    rw [Form.allTokens, List.append_assoc, readItems_tokens f items outer _ hw,
      readItems_allTokens fs (w :: items) outer rest hws]
    simp

end

mutual

theorem readItems_tokens_error : ∀ (f : Form) {error : Atom.Error} (items : List Value)
    (outer : List (List Value)) (rest : List Token), f.value items.isEmpty = .error error →
    (readItems items outer (f.tokens ++ rest)).1 = .error (.atom error)
  | .word text, error, items, outer, rest, h => by
    have hread : Atom.readAt items.isEmpty text = .error error := h
    rw [Form.tokens, List.singleton_append, readItems_atom, hread]
  | .list elements, error, items, outer, rest, h => by
    have hvs : Form.values true elements = .error error := by
      rw [Form.value] at h
      cases hvs : Form.values true elements with
      | ok vs => rw [hvs] at h; cases h
      | error e => rw [hvs] at h; cases h; rfl
    rw [Form.tokens, List.cons_append, List.append_assoc, readItems_openParen]
    exact readItems_allTokens_error elements [] (items :: outer) _ hvs

theorem readItems_allTokens_error : ∀ (fs : List Form) {error : Atom.Error} (items : List Value)
    (outer : List (List Value)) (rest : List Token), Form.values items.isEmpty fs = .error error →
    (readItems items outer (Form.allTokens fs ++ rest)).1 = .error (.atom error)
  | f :: fs, error, items, outer, rest, h => by
    rw [Form.allTokens, List.append_assoc]
    rw [Form.values] at h
    split at h
    · next e hf =>
      cases h
      exact readItems_tokens_error f items outer _ hf
    · next v hf =>
      rw [readItems_tokens f items outer _ hf]
      refine readItems_allTokens_error fs (v :: items) outer rest ?_
      cases hfs : Form.values false fs with
      | ok vs => rw [hfs] at h; cases h
      | error e => rw [hfs] at h; cases h; exact hfs

end

/-- Derived tokens are read as the value of the form. -/
theorem readTokens_tokens (f : Form) :
    readTokens f.tokens = (f.value false).mapError .atom := by
  cases f with
  | word text => exact readTokens_word text
  | list elements =>
    rw [Form.tokens, Form.value]
    cases hvs : Form.values true elements with
    | ok vs =>
      refine readTokens_whole rfl ?_
      rw [readItems_allTokens elements [] [] _ hvs, readItems_closeParen_outermost]
      simp
    | error error =>
      exact readTokens_stuck rfl (Prod.ext (readItems_allTokens_error elements [] [] _ hvs) rfl)

/-! ## Only derived tokens are read -/

/-- The tokens that end a list with `items` so far, and then the lists `outer` around it:
for each of them the elements still missing and a closing token. The last list ended is the
value. -/
inductive Closes : List Value → List (List Value) → List Token → Value → Prop where
  | outermost {items vs : List Value} (fs : List Form) :
      Form.values items.isEmpty fs = .ok vs →
      Closes items [] (Form.allTokens fs ++ [closeParen]) (.expr (items.reverse ++ vs))
  | inner {items above vs : List Value} {outer : List (List Value)} {tokens : List Token}
      {v : Value} (fs : List Form) : Form.values items.isEmpty fs = .ok vs →
      Closes (.expr (items.reverse ++ vs) :: above) outer tokens v →
      Closes items (above :: outer) (Form.allTokens fs ++ closeParen :: tokens) v

theorem Closes.cons {items : List Value} {outer : List (List Value)} {tokens : List Token}
    {f : Form} {w v : Value} (hf : f.value items.isEmpty = .ok w)
    (h : Closes (w :: items) outer tokens v) : Closes items outer (f.tokens ++ tokens) v := by
  cases h with
  | outermost fs hvs =>
    have := Closes.outermost (f :: fs) (Form.values_cons_eq_ok hf hvs)
    simpa [Form.allTokens] using this
  | @inner _ above vs outer tokens v fs hvs hrest =>
    have hrest : Closes (.expr (items.reverse ++ w :: vs) :: above) outer tokens v := by
      simpa using hrest
    have := Closes.inner (f :: fs) (Form.values_cons_eq_ok hf hvs) hrest
    simpa [Form.allTokens] using this

theorem closes_of_readItems {items : List Value} {outer : List (List Value)}
    {tokens rest : List Token} {v : Value} (hlex : ∀ t ∈ tokens, Lexed t)
    (h : readItems items outer tokens = (.ok v, rest)) :
    ∃ used, tokens = used ++ rest ∧ Closes items outer used v := by
  induction tokens generalizing items outer with
  | nil => cases h
  | cons t ts ih =>
    have hts : ∀ u ∈ ts, Lexed u := fun u hu => hlex u (by simp [hu])
    cases hlex t (by simp) with
    | opening =>
      rw [readItems_openParen] at h
      obtain ⟨used, rfl, hclose⟩ := ih hts h
      cases hclose with
      | @inner _ _ vs _ tokens _ fs hvs hrest =>
        have := hrest.cons (f := .list fs) (Form.value_list_eq_ok hvs)
        refine ⟨openParen :: (Form.allTokens fs ++ closeParen :: tokens), rfl, ?_⟩
        simpa [Form.tokens] using this
    | closing =>
      cases outer with
      | nil =>
        rw [readItems_closeParen_outermost] at h
        cases h
        have := Closes.outermost [] (show Form.values items.isEmpty [] = .ok [] from rfl)
        rw [List.append_nil] at this
        exact ⟨[closeParen], rfl, this⟩
      | cons above outer =>
        rw [readItems_closeParen] at h
        obtain ⟨used, rfl, hclose⟩ := ih hts h
        refine ⟨closeParen :: used, rfl, .inner [] rfl ?_⟩
        rw [List.append_nil]
        exact hclose
    | @atom text hword =>
      rw [readItems_atom] at h
      split at h
      · next w hw =>
        obtain ⟨used, rfl, hclose⟩ := ih hts h
        exact ⟨⟨.atom, text⟩ :: used, rfl, hclose.cons (f := .word text) hw⟩
      · cases h

/-- What is read is derived, and its value is that of the derivation. -/
theorem exists_form_of_readTokens {tokens : List Token} {v : Value}
    (hlex : ∀ t ∈ tokens, Lexed t) (h : readTokens tokens = .ok v) :
    ∃ f : Form, f.tokens = tokens ∧ f.value false = .ok v := by
  cases tokens with
  | nil => cases h
  | cons t ts =>
    have hts : ∀ u ∈ ts, Lexed u := fun u hu => hlex u (by simp [hu])
    cases hlex t (by simp) with
    | opening =>
      rcases hread : readItems [] [] ts with ⟨error | w, rest⟩
      · rw [readTokens, readFormAt_opening rfl, hread] at h
        cases error <;> cases h
      · obtain ⟨used, hused, hclose⟩ := closes_of_readItems hts hread
        cases rest with
        | nil =>
          rw [readTokens_whole rfl hread] at h
          cases h
          rw [List.append_nil] at hused
          cases hclose with
          | outermost fs hvs =>
            exact ⟨.list fs, by rw [hused, Form.tokens], Form.value_list_eq_ok hvs⟩
        | cons u rest =>
          rw [readTokens_trailing rfl used hread hused] at h
          cases h
    | closing =>
      have hr : readTokens (closeParen :: ts) = .error _ :=
        readTokens_notOpening (by decide) fun _ => by decide
      rw [hr] at h
      cases h
    | @atom text hword =>
      cases ts with
      | nil =>
        rw [readTokens_word] at h
        refine ⟨.word text, rfl, ?_⟩
        rw [Form.value, if_neg Bool.false_ne_true]
        cases hread : Atom.read text with
        | ok w => rw [hread] at h; cases h; rfl
        | error e => rw [hread] at h; cases h
      | cons u us =>
        have hr : readTokens (⟨.atom, text⟩ :: u :: us) = .error _ :=
          readTokens_notOpening (by simp) (by simp)
        rw [hr] at h
        cases h

/-! ## Programs -/

/-- If all words that are read have values, the texts that parse are the derivable ones, each
has one derivation, and it parses to the value of that derivation. -/
theorem parse_iff_derivable (source : String)
    (readable : ∀ text, IsInferred (tokenize source) text → ∃ v, Atom.read text = .ok v) :
    ((∃ v, (parse source).result = .ok v) ↔ ∃ f : Form, f.tokens = tokenize source) ∧
      ∀ f : Form, f.tokens = tokenize source →
        (∀ g : Form, g.tokens = tokenize source → g = f) ∧
        ∃ v, f.value false = .ok v ∧ (parse source).result = .ok v := by
  have hderived (f : Form) (hf : f.tokens = tokenize source) :
      ∃ v, f.value false = .ok v ∧ (parse source).result = .ok v := by
    have hread := readTokens_tokens f
    rw [hf, ← result_parse] at hread
    cases hv : f.value false with
    | ok v => exact ⟨v, rfl, by rw [hread, hv]; rfl⟩
    | error error =>
      rw [hv, result_parse] at hread
      obtain ⟨text, hinf, herror⟩ := exists_isInferred lexed_tokenize hread
      obtain ⟨w, hw⟩ := readable text hinf
      rw [hw] at herror
      cases herror
  refine ⟨⟨fun ⟨v, hv⟩ => ?_, fun ⟨f, hf⟩ => ?_⟩, fun f hf => ⟨fun g hg => ?_, hderived f hf⟩⟩
  · rw [result_parse] at hv
    obtain ⟨f, hf, -⟩ := exists_form_of_readTokens lexed_tokenize hv
    exact ⟨f, hf⟩
  · obtain ⟨v, -, hv⟩ := hderived f hf
    exact ⟨v, hv⟩
  · exact Form.tokens_inj (hg.trans hf.symm)

theorem parse_iff_derivable_nested :
    (∀ text, IsInferred (tokenize "(2 (g 2) x)") text → ∃ v, Atom.read text = .ok v) ∧
      (parse "(2 (g 2) x)").result =
        .ok (.expr [.str "2", .expr [.str "g", .int 2], .str "x"]) := by
  have readable {text : String} (h : IsInferred (tokenize "(2 (g 2) x)") text) :
      ∃ v, Atom.read text = .ok v := readable_of_forall_mem (by decide) h
  let form : Form := .list [.word "2", .list [.word "g", .word "2"], .word "x"]
  have hform : form.tokens = tokenize "(2 (g 2) x)" := by decide
  obtain ⟨-, v, hv, hparse⟩ := (parse_iff_derivable _ fun _ => readable).2 form hform
  cases hv
  exact ⟨fun _ => readable, hparse⟩

end FuzzyRules
