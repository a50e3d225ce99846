import FuzzyRules.Proofs.Lexing
import Mathlib.Data.List.Chain

/-!
# Texts as tokens and blanks

A text is woven of tokens and the blanks around them (`weave`), where two words in a row are
kept apart by a blank (`Spaced`). Every text can be cut in this way (`woven`), and lexing
finds the tokens of any cut (`tokenize_weave`), so a text has the tokens of all its cuts.
-/

namespace FuzzyRules.Token

/-- A text of blanks only. -/
def IsBlank (text : String) : Prop := ∀ c ∈ text.toList, Text.isBlank c

/-- The text of tokens, each with the blanks that follow it, after the blanks `gap`. -/
def weave : String → List (Token × String) → String
  | gap, [] => gap
  | gap, (t, next) :: rest => gap ++ t.text ++ weave next rest

/-- Tokens with only blanks around them, and some blank between two words in a row. -/
structure Spaced (gap : String) (pieces : List (Token × String)) : Prop where
  lexed : ∀ p ∈ pieces, Lexed p.1
  front : IsBlank gap
  after : ∀ p ∈ pieces, IsBlank p.2
  apart : pieces.IsChain fun p q => p.1.kind = .atom → q.1.kind = .atom → p.2 ≠ ""

theorem isBlank_empty : IsBlank "" := by
  intro c hc
  cases hc

theorem isBlank_space : IsBlank " " := by
  intro c hc
  obtain rfl : c = ' ' := by simpa using hc
  decide

theorem isWordChar_of_isBlank {c : Char} (h : Text.isBlank c) : isWordChar c = false := by
  simp [isWordChar, h]

theorem weave_append (u v : String) (pieces : List (Token × String)) :
    weave (u ++ v) pieces = u ++ weave v pieces := by
  cases pieces <;> simp [weave, String.append_assoc]

theorem toList_weave_cons (gap : String) (t : Token) (next : String)
    (rest : List (Token × String)) :
    (weave gap ((t, next) :: rest)).toList =
      gap.toList ++ (t.text.toList ++ (weave next rest).toList) := by
  simp [weave]

namespace Spaced

variable {gap next : String} {t : Token} {pieces rest : List (Token × String)}

theorem nil (h : IsBlank gap) : Spaced gap [] := ⟨nofun, h, nofun, .nil⟩

theorem tail (h : Spaced gap ((t, next) :: rest)) : Spaced next rest where
  lexed p hp := h.lexed p (by simp [hp])
  front := h.after (t, next) (by simp)
  after p hp := h.after p (by simp [hp])
  apart := (List.isChain_cons.mp h.apart).2

/-- One token more in front of spaced tokens. -/
theorem cons (ht : Lexed t) (h : Spaced next rest)
    (hapart : ∀ q ∈ rest.head?, t.kind = .atom → q.1.kind = .atom → next ≠ "") :
    Spaced "" ((t, next) :: rest) where
  lexed p hp := by
    rcases List.mem_cons.mp hp with rfl | hp
    · exact ht
    · exact h.lexed p hp
  front := isBlank_empty
  after p hp := by
    rcases List.mem_cons.mp hp with rfl | hp
    · exact h.front
    · exact h.after p hp
  apart := List.isChain_cons.mpr ⟨hapart, h.apart⟩

/-! ## Lexing a woven text -/

/-- What is woven after a word delimits it. -/
theorem delimits_weave (hkind : t.kind = .atom) (h : Spaced gap ((t, next) :: rest)) :
    Delimits (weave next rest).toList := by
  intro c hc
  by_cases hnext : next = ""
  · subst hnext
    cases rest with
    | nil => cases hc
    | cons q rest =>
      obtain ⟨u, after⟩ := q
      have hu : u.kind ≠ .atom := fun hu =>
        (List.isChain_cons.mp h.apart).1 (u, after) rfl hkind hu rfl
      rw [toList_weave_cons] at hc
      cases h.tail.lexed (u, after) (by simp) with
      | opening => cases hc; decide
      | closing => cases hc; decide
      | atom _ => exact absurd rfl hu
  · obtain ⟨d, ds, hd⟩ := List.exists_cons_of_ne_nil (mt String.toList_eq_nil_iff.mp hnext)
    have hdc : d = c := by
      cases rest with
      | nil =>
        rw [weave, hd] at hc
        cases hc
        rfl
      | cons q rest =>
        rw [toList_weave_cons, hd] at hc
        cases hc
        rfl
    exact isWordChar_of_isBlank (h.tail.front c (by simp [hd, hdc]))

end Spaced

theorem scan_blanks {w : List Char} (hw : ∀ c ∈ w, Text.isBlank c) (cs : List Char) :
    scan [] [] (w ++ cs) = scan [] [] cs := by
  induction w with
  | nil => rfl
  | cons c w ih =>
    rw [List.cons_append, scan, if_pos (hw c (by simp))]
    exact ih fun d hd => hw d (by simp [hd])

/-- Lexing finds the tokens that a text is woven of. -/
theorem tokenize_weave {gap : String} {pieces : List (Token × String)} (h : Spaced gap pieces) :
    tokenize (weave gap pieces) = pieces.map Prod.fst := by
  unfold tokenize
  induction pieces generalizing gap with
  | nil =>
    have hscan := scan_blanks h.front []
    rw [List.append_nil] at hscan
    exact hscan
  | cons p rest ih =>
    obtain ⟨t, next⟩ := p
    rw [toList_weave_cons, scan_blanks h.front, List.map_cons, ← ih h.tail]
    cases h.lexed (t, next) (by simp) with
    | opening => exact scan_opening _
    | closing => exact scan_closing _
    | atom hword => exact scan_word hword (h.delimits_weave rfl)

/-! ## Cutting a text -/

/-- The texts that are woven of spaced tokens. -/
inductive Woven : List Char → Prop where
  | intro {gap : String} {pieces : List (Token × String)} :
      Spaced gap pieces → Woven (weave gap pieces).toList

/-- A token in front of spaced tokens. -/
theorem Woven.cons {t : Token} {next : String} {rest : List (Token × String)} (ht : Lexed t)
    (h : Spaced next rest)
    (hapart : ∀ q ∈ rest.head?, t.kind = .atom → q.1.kind = .atom → next ≠ "") :
    Woven (t.text.toList ++ (weave next rest).toList) := by
  have hweave := toList_weave_cons "" t next rest
  rw [String.toList_empty, List.nil_append] at hweave
  rw [← hweave]
  exact .intro (h.cons ht hapart)

section Cut

variable {c : Char} {cs : List Char}

theorem woven_blank (hc : Text.isBlank c) (h : Woven cs) : Woven (c :: cs) := by
  obtain @⟨gap, pieces, h⟩ := h
  have hfront : IsBlank (String.singleton c ++ gap) := by
    intro d hd
    rcases List.mem_cons.mp (by simpa using hd) with rfl | hd
    · exact hc
    · exact h.front d hd
  have hweave : (weave (String.singleton c ++ gap) pieces).toList =
      c :: (weave gap pieces).toList := by
    simp [weave_append]
  rw [← hweave]
  exact .intro { h with front := hfront }

theorem woven_parenthesis {t : Token} (ht : Lexed t) (hkind : t.kind ≠ .atom) (h : Woven cs) :
    Woven (t.text.toList ++ cs) := by
  obtain @⟨gap, pieces, h⟩ := h
  exact .cons ht h fun _ _ hatom => absurd hatom hkind

/-- A character of a word goes on in the word right behind it, if there is one, and is a word of
its own if there is none. -/
theorem woven_wordChar (hc : isWordChar c) (h : Woven cs) : Woven (c :: cs) := by
  obtain @⟨gap, pieces, h⟩ := h
  have hword {text : String} (htext : ∀ d ∈ text.toList, isWordChar d) :
      Lexed ⟨.atom, String.singleton c ++ text⟩ := by
    refine .atom ⟨by simp, fun d hd => ?_⟩
    rcases List.mem_cons.mp (by simpa using hd) with rfl | hd
    · exact hc
    · exact htext d hd
  by_cases hjoin : gap = "" ∧ ∃ q ∈ pieces.head?, q.1.kind = .atom
  · obtain ⟨rfl, ⟨u, next⟩, hq, hu⟩ := hjoin
    obtain ⟨rest, rfl⟩ := List.head?_eq_some_iff.mp hq
    have hu' : ∀ d ∈ u.text.toList, isWordChar d := by
      cases h.lexed (u, next) (by simp) with
      | opening => cases hu
      | closing => cases hu
      | atom hword => exact hword.2
    have hwoven := Woven.cons (hword hu') h.tail fun q hq _ hatom =>
      (List.isChain_cons.mp h.apart).1 q hq hu hatom
    simpa [toList_weave_cons] using hwoven
  · have hwoven := Woven.cons (@hword "" nofun) h fun q hq _ hatom hgap =>
      hjoin ⟨hgap, q, hq, hatom⟩
    simpa using hwoven

/-- Every text is woven of spaced tokens. -/
theorem woven (cs : List Char) : Woven cs := by
  induction cs with
  | nil => exact .intro (.nil isBlank_empty)
  | cons c cs ih =>
    by_cases hblank : Text.isBlank c
    · exact woven_blank hblank ih
    by_cases hopen : c = '('
    · subst hopen
      exact woven_parenthesis .opening nofun ih
    by_cases hclose : c = ')'
    · subst hclose
      exact woven_parenthesis .closing nofun ih
    exact woven_wordChar (isWordChar_eq_true.mpr ⟨by simpa using hblank, hopen, hclose⟩) ih

end Cut

/-! ## Joined tokens -/

/-- Each token followed by one space, and the last one by nothing. -/
def spread : List Token → List (Token × String)
  | [] => []
  | [t] => [(t, "")]
  | t :: u :: rest => (t, " ") :: spread (u :: rest)

theorem map_fst_spread (tokens : List Token) : (spread tokens).map Prod.fst = tokens := by
  fun_induction spread tokens with
  | case1 => rfl
  | case2 t => rfl
  | case3 t u rest ih => rw [List.map_cons, ih]

theorem weave_spread (tokens : List Token) :
    weave "" (spread tokens) = " ".intercalate (tokens.map Token.text) := by
  fun_induction spread tokens with
  | case1 => rfl
  | case2 t => simp [weave]
  | case3 t u rest ih =>
    have hfront := weave_append " " "" (spread (u :: rest))
    rw [String.append_empty, ih] at hfront
    rw [weave, hfront]
    simp [String.append_assoc]

theorem spaced_spread {tokens : List Token} (h : ∀ t ∈ tokens, Lexed t) :
    Spaced "" (spread tokens) := by
  fun_induction spread tokens with
  | case1 => exact .nil isBlank_empty
  | case2 t => exact (Spaced.nil isBlank_empty).cons (h t (by simp)) nofun
  | case3 t u rest ih =>
    have hrest := ih fun v hv => h v (by simp [List.mem_cons.mp hv])
    have hspace : Spaced " " (spread (u :: rest)) := { hrest with front := isBlank_space }
    exact hspace.cons (h t (by simp)) fun _ _ _ _ => by decide

theorem filter_weave {gap : String} {pieces : List (Token × String)} (h : Spaced gap pieces) :
    (weave gap pieces).toList.filter (fun c => !Text.isBlank c) =
      pieces.flatMap fun p => p.1.text.toList := by
  have hblanks {text : String} (hb : IsBlank text) :
      text.toList.filter (fun c => !Text.isBlank c) = [] := by
    rw [List.filter_eq_nil_iff]
    intro c hc
    simp [hb c hc]
  induction pieces generalizing gap with
  | nil => exact hblanks h.front
  | cons p rest ih =>
    obtain ⟨t, next⟩ := p
    have htext : t.text.toList.filter (fun c => !Text.isBlank c) = t.text.toList := by
      cases h.lexed (t, next) (by simp) with
      | opening => decide
      | closing => decide
      | atom hword =>
        rw [List.filter_eq_self]
        intro c hc
        simp [(isWordChar_eq_true.mp (hword.2 c hc)).1]
    rw [toList_weave_cons, List.filter_append, List.filter_append, hblanks h.front, htext,
      ih h.tail]
    rfl

/-! ## The tokens of a text -/

/-- The tokens of a text are those it is woven of. So tokens joined by spaces are read back, and
the texts of the tokens together are the text without its blanks. -/
theorem tokenize_eq_iff_woven :
    (∀ (source : String) (tokens : List Token), tokenize source = tokens ↔
      ∃ gap pieces, Spaced gap pieces ∧ pieces.map Prod.fst = tokens ∧
        source = weave gap pieces) ∧
    (∀ tokens : List Token, (∀ t ∈ tokens, Lexed t) →
      tokenize (" ".intercalate (tokens.map Token.text)) = tokens) ∧
    ∀ source : String, String.join ((tokenize source).map Token.text) =
      String.ofList (source.toList.filter fun c => !Text.isBlank c) := by
  have hcut (source : String) : ∃ gap pieces, Spaced gap pieces ∧ source = weave gap pieces := by
    generalize hcs : source.toList = cs
    obtain @⟨gap, pieces, h⟩ := woven cs
    exact ⟨gap, pieces, h, String.toList_inj.mp hcs⟩
  refine ⟨fun source tokens => ⟨?_, ?_⟩, fun tokens hlex => ?_, fun source => ?_⟩
  · rintro rfl
    obtain ⟨gap, pieces, h, rfl⟩ := hcut source
    exact ⟨gap, pieces, h, (tokenize_weave h).symm, rfl⟩
  · rintro ⟨gap, pieces, h, rfl, rfl⟩
    exact tokenize_weave h
  · rw [← weave_spread, tokenize_weave (spaced_spread hlex), map_fst_spread]
  · obtain ⟨gap, pieces, h, rfl⟩ := hcut source
    rw [tokenize_weave h, filter_weave h, ← String.toList_inj]
    simp [String.toList_join, List.flatMap_map]

theorem tokenize_eq_iff_woven_crowded :
    let tokens : List Token := [⟨.atom, "a"⟩, openParen, ⟨.atom, "b"⟩, ⟨.atom, "c"⟩, closeParen]
    (∃ gap pieces, Spaced gap pieces ∧ pieces.map Prod.fst = tokens ∧
      " a(b\tc)" = weave gap pieces) ∧
    (∀ t ∈ tokens, Lexed t) ∧ tokenize "a ( b c )" = tokens := by
  intro tokens
  have htokens : tokenize " a(b\tc)" = tokens := by decide
  have hlex : ∀ t ∈ tokens, Lexed t := htokens ▸ lexed_tokenize
  exact ⟨(tokenize_eq_iff_woven.1 _ _).mp htokens, hlex, tokenize_eq_iff_woven.2.1 tokens hlex⟩

end FuzzyRules.Token
