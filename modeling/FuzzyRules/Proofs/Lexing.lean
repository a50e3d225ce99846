import FuzzyRules.Token

/-!
# The tokens of a text

A scan puts the finished tokens in front of the tokens of what remains (`scan_eq_append`),
so the tokens of a text can be read off from its left end: a parenthesis is a token of its
own, and a word together with what delimits it is one atom.
-/

namespace FuzzyRules.Token

/-- Whether a character can stand in a word. -/
def isWordChar (c : Char) : Bool := !Text.isBlank c && c != '(' && c != ')'

/-- The text of one word: not empty, and without blanks and parentheses. -/
def IsWord (text : String) : Prop := text.toList ≠ [] ∧ ∀ c ∈ text.toList, isWordChar c

/-- The tokens that lexing makes. -/
inductive Lexed : Token → Prop where
  | opening : Lexed openParen
  | closing : Lexed closeParen
  | atom {text : String} : IsWord text → Lexed ⟨.atom, text⟩

/-- The text that follows a word does not go on with it. -/
def Delimits (rest : List Char) : Prop := ∀ c ∈ rest.head?, isWordChar c = false

theorem isWordChar_eq_true {c : Char} :
    isWordChar c = true ↔ Text.isBlank c = false ∧ c ≠ '(' ∧ c ≠ ')' := by
  simp [isWordChar, and_assoc]

theorem isWord_iff {text : String} :
    IsWord text ↔ (!text.toList.isEmpty && text.toList.all isWordChar) = true := by
  rw [IsWord, Bool.and_eq_true, List.all_eq_true, Bool.not_eq_true', List.isEmpty_eq_false_iff]

instance (text : String) : Decidable (IsWord text) := decidable_of_iff _ isWord_iff.symm

/-! ## Scanning -/

theorem endWord_eq_append (done : List Token) (word : List Char) :
    endWord done word = endWord [] word ++ done := by
  cases word <;> rfl

theorem scan_eq_append (done : List Token) (word cs : List Char) :
    scan done word cs = done.reverse ++ scan [] word cs := by
  induction cs generalizing done word with
  | nil => simp only [scan]; rw [endWord_eq_append]; simp
  | cons c cs ih =>
    simp only [scan]
    split
    · rw [ih (endWord done word), ih (endWord [] word), endWord_eq_append]; simp
    · split
      · rw [ih (openParen :: endWord done word), ih (openParen :: endWord [] word),
          endWord_eq_append]
        simp
      · split
        · rw [ih (closeParen :: endWord done word), ih (closeParen :: endWord [] word),
            endWord_eq_append]
          simp
        · exact ih done (c :: word)

theorem lexed_endWord {done : List Token} {word : List Char} (hd : ∀ t ∈ done, Lexed t)
    (hw : ∀ c ∈ word, isWordChar c) : ∀ t ∈ endWord done word, Lexed t := by
  intro t ht
  cases word with
  | nil => exact hd t ht
  | cons c cs =>
    rcases List.mem_cons.mp ht with rfl | ht
    · exact .atom ⟨by simp, fun a ha => hw a (by simpa [or_comm] using ha)⟩
    · exact hd t ht

theorem lexed_scan {done : List Token} {word cs : List Char} (hd : ∀ t ∈ done, Lexed t)
    (hw : ∀ c ∈ word, isWordChar c) : ∀ t ∈ scan done word cs, Lexed t := by
  have push {t : Token} {ts : List Token} (ht : Lexed t) (hts : ∀ t ∈ ts, Lexed t) :
      ∀ u ∈ t :: ts, Lexed u := fun u hu => by
    rcases List.mem_cons.mp hu with rfl | hu
    · exact ht
    · exact hts u hu
  induction cs generalizing done word with
  | nil => intro t ht; exact lexed_endWord hd hw t (by simpa [scan] using ht)
  | cons c cs ih =>
    have hend := lexed_endWord hd hw
    simp only [scan]
    split
    · exact ih hend (by simp)
    · split
      · exact ih (push .opening hend) (by simp)
      · split
        · exact ih (push .closing hend) (by simp)
        · next hb ho hc =>
          refine ih hd fun a ha => ?_
          rcases List.mem_cons.mp ha with rfl | ha
          · exact isWordChar_eq_true.mpr ⟨by simpa using hb, ho, hc⟩
          · exact hw a ha

theorem lexed_tokenize {source : String} : ∀ t ∈ tokenize source, Lexed t :=
  lexed_scan (by simp) (by simp)

/-! ## The left end of a text -/

theorem delimits_space (rest : List Char) : Delimits (' ' :: rest) := by
  intro c hc; cases hc; decide

theorem delimits_closing (rest : List Char) : Delimits (')' :: rest) := by
  intro c hc; cases hc; decide

/-- What delimits a word ends it. -/
theorem scan_of_delimits {done : List Token} {word rest : List Char} (hr : Delimits rest) :
    scan done word rest = (endWord done word).reverse ++ scan [] [] rest := by
  cases rest with
  | nil => simp [scan, endWord]
  | cons c rest =>
    have hc := hr c rfl
    simp only [scan]
    split
    · exact scan_eq_append ..
    · split
      · rw [scan_eq_append, scan_eq_append (openParen :: _)]; simp [endWord]
      · split
        · rw [scan_eq_append, scan_eq_append (closeParen :: _)]; simp [endWord]
        · next hb ho hcl =>
          rw [isWordChar_eq_true.mpr ⟨by simpa using hb, ho, hcl⟩] at hc
          cases hc

theorem scan_opening (cs : List Char) : scan [] [] ('(' :: cs) = openParen :: scan [] [] cs := by
  rw [scan, if_neg (by decide), if_pos rfl, scan_eq_append]; rfl

theorem scan_closing (cs : List Char) : scan [] [] (')' :: cs) = closeParen :: scan [] [] cs := by
  rw [scan, if_neg (by decide), if_neg (by decide), if_pos rfl, scan_eq_append]; rfl

theorem scan_space (cs : List Char) : scan [] [] (' ' :: cs) = scan [] [] cs := by
  rw [scan, if_pos (by decide)]; rfl

theorem scan_wordChars {done : List Token} {word w : List Char} (rest : List Char)
    (hw : ∀ c ∈ w, isWordChar c) :
    scan done word (w ++ rest) = scan done (w.reverse ++ word) rest := by
  induction w generalizing word with
  | nil => rfl
  | cons c w ih =>
    obtain ⟨hb, ho, hc⟩ := isWordChar_eq_true.mp (hw c (by simp))
    rw [List.cons_append, scan, hb, if_neg (by simp), if_neg ho, if_neg hc,
      ih fun a ha => hw a (by simp [ha])]
    simp

/-- A word with what delimits it is one atom. -/
theorem scan_word {w : String} {rest : List Char} (hw : IsWord w) (hr : Delimits rest) :
    scan [] [] (w.toList ++ rest) = ⟨.atom, w⟩ :: scan [] [] rest := by
  obtain ⟨hne, hall⟩ := hw
  have hend : endWord [] w.toList.reverse = [⟨.atom, w⟩] := by
    obtain ⟨c, cs, h⟩ := List.exists_cons_of_ne_nil (l := w.toList.reverse) (by simpa using hne)
    have hw : String.ofList (c :: cs).reverse = w := by rw [← h]; simp
    rw [h, endWord, hw]
    simp
  rw [scan_wordChars rest hall, List.append_nil, scan_of_delimits hr, hend]
  rfl

theorem tokenize_of_isWord {text : String} (h : IsWord text) :
    tokenize text = [⟨.atom, text⟩] := by
  have hnil : Delimits [] := nofun
  have hscan := scan_word h hnil
  rw [List.append_nil] at hscan
  exact hscan

end FuzzyRules.Token
