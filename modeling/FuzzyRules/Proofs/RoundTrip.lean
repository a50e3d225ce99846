import FuzzyRules.Proofs.Derivation
import FuzzyRules.Proofs.Spelling

/-!
# Programs as text and back

The values that texts parse to are the `Canonical` ones, and each of them parses from its
own text. Writing and reading meet in the form of a value, `Value.form`: the text of a
canonical value has the tokens of its form (`Canonical.scans`), and the form stands for the
value (`Canonical.value_form`).
-/

namespace FuzzyRules

open Token

/-- The values of programs. The first item of a list is a list or a name, and a name may be
any word. -/
inductive Canonical : Value → Prop where
  | leaf {v : Value} : Spellable v → Canonical v
  | empty : Canonical (.expr [])
  | named {name : String} {arguments : List Value} : IsWord name →
      (∀ v ∈ arguments, Canonical v) → Canonical (.expr (.str name :: arguments))
  | nested {items arguments : List Value} : Canonical (.expr items) →
      (∀ v ∈ arguments, Canonical v) → Canonical (.expr (.expr items :: arguments))

namespace Value

mutual

/-- The form that a value is written as. -/
def form : Value → Form
  | expr items => .list (forms items)
  | v => .word v.render

def forms : List Value → List Form
  | [] => []
  | v :: vs => form v :: forms vs

end

theorem form_of_spellable {v : Value} (h : Spellable v) : v.form = .word v.render := by
  cases h <;> rfl

/-- The text of a value has the tokens of its form, whatever delimits it. -/
def Scans (v : Value) : Prop := ∀ {rest : List Char}, Delimits rest →
  scan [] [] (v.render.toList ++ rest) = v.form.tokens ++ scan [] [] rest

theorem scan_renderAll {items : List Value} (h : ∀ v ∈ items, Scans v) (rest : List Char) :
    scan [] [] ((" ".intercalate (renderAll items)).toList ++ ')' :: rest) =
      Form.allTokens (forms items) ++ closeParen :: scan [] [] rest := by
  induction items with
  | nil => exact scan_closing rest
  | cons v vs ih =>
    have hv : Scans v := h v (by simp)
    have hvs : ∀ w ∈ vs, Scans w := fun w hw => h w (by simp [hw])
    cases vs with
    | nil =>
      have hscan := hv (delimits_closing rest)
      rw [scan_closing] at hscan
      simpa [renderAll, forms, Form.allTokens] using hscan
    | cons w ws =>
      have hscan := hv (delimits_space
        ((" ".intercalate (renderAll (w :: ws))).toList ++ ')' :: rest))
      rw [scan_space, ih hvs] at hscan
      simpa [renderAll, forms, Form.allTokens] using hscan

theorem scans_expr {items : List Value} (h : ∀ v ∈ items, Scans v) : Scans (.expr items) := by
  intro rest _
  have hscan := scan_renderAll h rest
  have hopen := scan_opening ((" ".intercalate (renderAll items)).toList ++ ')' :: rest)
  rw [hscan] at hopen
  simpa [render, form, Form.tokens] using hopen

theorem scans_word {v : Value} (hform : v.form = .word v.render) (hword : IsWord v.render) :
    Scans v := by
  intro rest hrest
  rw [scan_word hword hrest, hform]
  rfl

end Value

namespace Canonical

variable {v : Value}

theorem scans (h : Canonical v) : v.Scans := by
  induction h with
  | leaf hleaf => exact Value.scans_word (Value.form_of_spellable hleaf) hleaf.isWord_render
  | empty => exact Value.scans_expr fun w hw => absurd hw List.not_mem_nil
  | named hname _ ih =>
    refine Value.scans_expr fun w hw => ?_
    rcases List.mem_cons.mp hw with rfl | hw
    · exact Value.scans_word (v := .str _) rfl hname
    · exact ih w hw
  | nested _ _ ihead ih =>
    refine Value.scans_expr fun w hw => ?_
    rcases List.mem_cons.mp hw with rfl | hw
    · exact ihead
    · exact ih w hw

theorem values_forms {vs : List Value} (h : ∀ v ∈ vs, v.form.value false = .ok v) :
    Form.values false (Value.forms vs) = .ok vs := by
  induction vs with
  | nil => rfl
  | cons v vs ih =>
    exact Form.values_cons_eq_ok (h v (by simp)) (ih fun w hw => h w (by simp [hw]))

/-- The form of a canonical value stands for it. -/
theorem value_form (h : Canonical v) : v.form.value false = .ok v := by
  induction h with
  | leaf hleaf => rw [Value.form_of_spellable hleaf]; exact hleaf.read_render
  | empty => rfl
  | @named name arguments _ _ ih =>
    have hhead : (Value.str name).form.value true = .ok (.str name) := rfl
    exact Form.value_list_eq_ok (Form.values_cons_eq_ok hhead (values_forms ih))
  | @nested items arguments _ _ ihead ih =>
    -- a list stands for the same value at the head of a list
    have hhead : (Value.expr items).form.value true = .ok (.expr items) := ihead
    exact Form.value_list_eq_ok (Form.values_cons_eq_ok hhead (values_forms ih))

/-- A canonical value parses from its own text. -/
theorem parse_render (h : Canonical v) : (parse v.render).result = .ok v := by
  have htokens : tokenize v.render = v.form.tokens := by
    have hnil : Delimits [] := nofun
    have hscan := h.scans hnil
    rw [List.append_nil] at hscan
    exact hscan.trans (List.append_nil _)
  rw [result_parse, htokens, readTokens_tokens, h.value_form]
  rfl

end Canonical

/-! ## What parses is canonical -/

theorem lexed_allTokens {elements : List Form} (h : ∀ t ∈ (Form.list elements).tokens, Lexed t) :
    ∀ t ∈ Form.allTokens elements, Lexed t :=
  fun t ht => h t (by simp [Form.tokens, ht])

mutual

theorem canonical_of_value : ∀ {f : Form} {v : Value}, (∀ t ∈ f.tokens, Lexed t) →
    f.value false = .ok v → Canonical v
  | .word text, v, hlex, h => by
    cases hlex ⟨.atom, text⟩ (by simp [Form.tokens]) with
    | atom hword => exact .leaf (spellable_of_read hword h)
  | .list [], v, _, h => by
    cases h
    exact .empty
  | .list (.word text :: fs), v, hlex, h => by
    obtain ⟨ws, hws, rfl⟩ := Form.value_list_cases h
    obtain ⟨w, vs, hw, hvs, rfl⟩ := Form.values_cons_cases hws
    cases hw
    have hall := lexed_allTokens hlex
    have hfs : ∀ t ∈ Form.allTokens fs, Lexed t := fun t ht => hall t (List.mem_append_right _ ht)
    cases hall ⟨.atom, text⟩ (List.mem_append_left _ (List.mem_singleton_self _)) with
    | atom hword => exact .named hword (canonical_of_values hfs hvs)
  | .list (.list elements :: fs), v, hlex, h => by
    obtain ⟨ws, hws, rfl⟩ := Form.value_list_cases h
    obtain ⟨w, vs, hw, hvs, rfl⟩ := Form.values_cons_cases hws
    have hall := lexed_allTokens hlex
    have hhead : ∀ t ∈ (Form.list elements).tokens, Lexed t :=
      fun t ht => hall t (List.mem_append_left _ ht)
    have hfs : ∀ t ∈ Form.allTokens fs, Lexed t := fun t ht => hall t (List.mem_append_right _ ht)
    have hcanonical : Canonical w := canonical_of_value hhead hw
    obtain ⟨items, -, rfl⟩ := Form.value_list_cases hw
    exact .nested hcanonical (canonical_of_values hfs hvs)

theorem canonical_of_values : ∀ {fs : List Form} {vs : List Value},
    (∀ t ∈ Form.allTokens fs, Lexed t) → Form.values false fs = .ok vs → ∀ v ∈ vs, Canonical v
  | [], vs, _, h => by
    cases h
    exact nofun
  | f :: fs, vs, hlex, h => by
    obtain ⟨w, ws, hw, hws, rfl⟩ := Form.values_cons_cases h
    have hf : ∀ t ∈ f.tokens, Lexed t := fun t ht => hlex t (List.mem_append_left _ ht)
    have hfs : ∀ t ∈ Form.allTokens fs, Lexed t := fun t ht => hlex t (List.mem_append_right _ ht)
    have hhead : Canonical w := canonical_of_value hf hw
    have htail := canonical_of_values hfs hws
    intro v hv
    rcases List.mem_cons.mp hv with rfl | hv
    · exact hhead
    · exact htail v hv

end

theorem canonical_of_parse {source : String} {v : Value} (h : (parse source).result = .ok v) :
    Canonical v := by
  rw [result_parse] at h
  obtain ⟨f, hf, hv⟩ := exists_form_of_readTokens lexed_tokenize h
  refine canonical_of_value (fun t ht => ?_) hv
  rw [hf] at ht
  exact lexed_tokenize t ht

/-! ## The round trip -/

/-- What parses is read back from its own text, the values that texts parse to are the
canonical ones, and no set and no failure is among them. -/
theorem parse_render_and_range :
    (∀ (source : String) (v : Value), (parse source).result = .ok v →
      (parse v.render).result = .ok v) ∧
    (∀ v : Value, (∃ source, (parse source).result = .ok v) ↔ Canonical v) ∧
    (∀ members, ¬Canonical (.fuzzy members)) ∧ ∀ message, ¬Canonical (.error message) := by
  refine ⟨fun source v h => (canonical_of_parse h).parse_render, fun v => ⟨?_, ?_⟩, ?_, ?_⟩
  · rintro ⟨source, h⟩
    exact canonical_of_parse h
  · intro h
    exact ⟨v.render, h.parse_render⟩
  · intro members h
    cases h with
    | leaf hleaf => cases hleaf
  · intro message h
    cases h with
    | leaf hleaf => cases hleaf

theorem parse_render_and_range_respelled :
    let v : Value := .expr [.str "1",
      .expr [.expr [.str "0"], .float (.signed true .infinite)], .float (.nan none),
      .int 2147483647]
    (parse "( 1 ((0)-Infinity ) +NAN 02147483647)").result = .ok v ∧
      (parse v.render).result = .ok v ∧ Canonical v := by
  intro v
  have hparse : (parse "( 1 ((0)-Infinity ) +NAN 02147483647)").result = .ok v := rfl
  exact ⟨hparse, parse_render_and_range.1 _ _ hparse, (parse_render_and_range.2.1 v).mp ⟨_, hparse⟩⟩

end FuzzyRules
