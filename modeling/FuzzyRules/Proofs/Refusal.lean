import FuzzyRules.Proofs.Balance
import FuzzyRules.Proofs.Spelling

/-!
# Texts that fail for want of a value

Two kinds of words are refused (`Refused`): integers of too many digits, and infinity spelled
with a letter `i` from outside ASCII. All other words have a value (`read_eq_error_iff`), so a
text that does not parse has an error of syntax or holds a refused word
(`parse_ok_or_raises_iff`).
-/

namespace FuzzyRules

open Literal Token

/-- An optional sign. -/
def IsSign (sign : List Char) : Prop := sign = [] ∨ sign = ['+'] ∨ sign = ['-']

/-- The words that have no value, and why. -/
inductive Refused (text : String) : Atom.Error → Prop where
  | overlong {sign digits : List Char} : IsSign sign → text.toList = sign ++ digits →
      (∀ d ∈ digits, isDigit d) → Atom.digitLimit < digits.length →
      Refused text (.tooManyDigits digits.length)
  | foreign {sign letters : List Char} : IsSign sign → text.toList = sign ++ letters →
      letters.map foldCase = "inf".toList ∨ letters.map foldCase = "infinity".toList →
      (∃ c ∈ letters, isForeignI c) → Refused text (.notANumber text)

/-! ## Signs -/

theorem exists_isSign (cs : List Char) :
    ∃ sign, IsSign sign ∧ (splitSign cs).1 = decide (sign = ['-']) ∧
      cs = sign ++ (splitSign cs).2 := by
  unfold splitSign
  split
  · exact ⟨['-'], .inr (.inr rfl), rfl, rfl⟩
  · exact ⟨['+'], .inr (.inl rfl), rfl, rfl⟩
  · exact ⟨[], .inl rfl, rfl, rfl⟩

theorem splitSign_append {sign body : List Char} (hsign : IsSign sign)
    (hbody : ∀ c ∈ body.head?, c ≠ '-' ∧ c ≠ '+') :
    splitSign (sign ++ body) = (decide (sign = ['-']), body) := by
  rcases hsign with rfl | rfl | rfl
  · rw [List.nil_append]
    unfold splitSign
    split
    · exact absurd rfl (hbody '-' rfl).1
    · exact absurd rfl (hbody '+' rfl).2
    · rfl
  · rfl
  · rfl

theorem ne_sign {c : Char} (h : isDigit c ∨ c = '.') : c ≠ '-' ∧ c ≠ '+' := by
  refine ⟨?_, ?_⟩
  · rintro rfl; revert h; decide
  · rintro rfl; revert h; decide

/-- What starts like a number has no sign but the one in front of it. -/
theorem splitSign_numeral {sign tail : List Char} {c : Char} (hsign : IsSign sign)
    (hc : isDigit c ∨ c = '.') :
    splitSign (sign ++ c :: tail) = (decide (sign = ['-']), c :: tail) := by
  refine splitSign_append hsign fun d hd => ?_
  cases hd
  exact ne_sign hc

/-- Letters that are a word up to case hold no sign. -/
theorem splitSign_letters {sign letters name : List Char} {first : Char} (hsign : IsSign sign)
    (hname : letters.map foldCase = first :: name) (hfirst : first ≠ '-' ∧ first ≠ '+') :
    splitSign (sign ++ letters) = (decide (sign = ['-']), letters) := by
  refine splitSign_append hsign fun d hd => ?_
  have hhead : (letters.map foldCase).head? = some first := by rw [hname]; rfl
  rw [List.head?_map, hd] at hhead
  have hfold : foldCase d = first := Option.some.inj hhead
  constructor
  · rintro rfl; exact hfirst.1 hfold.symm
  · rintro rfl; exact hfirst.2 hfold.symm

theorem splitSign_infinity {sign letters : List Char} (hsign : IsSign sign)
    (hname : letters.map foldCase = "inf".toList ∨ letters.map foldCase = "infinity".toList) :
    splitSign (sign ++ letters) = (decide (sign = ['-']), letters) := by
  rcases hname with hname | hname
  · exact splitSign_letters hsign hname (by decide)
  · exact splitSign_letters hsign hname (by decide)

theorem word?_infinity {sign letters : List Char} (hsign : IsSign sign)
    (hname : letters.map foldCase = "inf".toList ∨ letters.map foldCase = "infinity".toList) :
    word? (sign ++ letters) = some (.signed (decide (sign = ['-'])) .infinite) := by
  unfold word?
  simp only [splitSign_infinity hsign hname]
  exact if_pos (by simpa using hname)

theorem not_isForeignI_of_isSign {sign : List Char} (h : IsSign sign) {c : Char} (hc : c ∈ sign) :
    isForeignI c = false := by
  rcases h with rfl | rfl | rfl
  · cases hc
  · cases List.mem_singleton.mp hc; decide
  · cases List.mem_singleton.mp hc; decide

theorem foldCase_of_isForeignI {c : Char} (h : isForeignI c) : foldCase c = 'i' := if_pos h

theorem not_isDigit_of_isForeignI {c : Char} (h : isForeignI c) : isDigit c = false := by
  rcases Bool.or_eq_true_iff.mp h with hc | hc
  · cases of_decide_eq_true hc; decide
  · cases of_decide_eq_true hc; decide

/-! ## Words without a value -/

theorem exists_of_integerDigits? {cs digits : List Char} {negative : Bool}
    (h : integerDigits? cs = some (negative, digits)) :
    ∃ sign, IsSign sign ∧ negative = decide (sign = ['-']) ∧ cs = sign ++ digits ∧ digits ≠ [] ∧
      ∀ d ∈ digits, isDigit d := by
  obtain ⟨sign, hsign, hnegative, hcs⟩ := exists_isSign cs
  unfold integerDigits? at h
  simp only at h
  split at h
  · next hdigits =>
    obtain ⟨rfl, rfl⟩ := Prod.mk.inj (Option.some.inj h)
    rw [Bool.and_eq_true, List.all_eq_true] at hdigits
    exact ⟨sign, hsign, hnegative, hcs, by simpa using hdigits.1, hdigits.2⟩
  · cases h

theorem refused_of_overlong {text : String} {negative : Bool} {digits : List Char}
    (h : integerDigits? text.toList = some (negative, digits))
    (hlong : Atom.digitLimit < digits.length) : Refused text (.tooManyDigits digits.length) := by
  obtain ⟨sign, hsign, -, htext, -, hdigits⟩ := exists_of_integerDigits? h
  exact .overlong hsign htext hdigits hlong

theorem refused_of_foreign {text : String} {x : Double} (h : word? text.toList = some x)
    (hforeign : text.toList.any isForeignI) : Refused text (.notANumber text) := by
  obtain ⟨sign, hsign, -, htext⟩ := exists_isSign text.toList
  -- the foreign letter does not stand in the sign
  obtain ⟨c, hc, hci⟩ := List.any_eq_true.mp hforeign
  have hletter : c ∈ (splitSign text.toList).2 := by
    rw [htext] at hc
    rcases List.mem_append.mp hc with hc | hc
    · rw [not_isForeignI_of_isSign hsign hc] at hci
      cases hci
    · exact hc
  unfold word? at h
  simp only at h
  split at h
  · next hname =>
    rw [Bool.or_eq_true, decide_eq_true_eq, decide_eq_true_eq] at hname
    exact .foreign hsign htext hname ⟨c, hletter, hci⟩
  · split at h
    · next hname =>
      have hi : 'i' ∈ (splitSign text.toList).2.map foldCase :=
        List.mem_map.mpr ⟨c, hletter, foldCase_of_isForeignI hci⟩
      rw [hname] at hi
      exact absurd hi (by decide)
    · cases h

theorem read_of_overlong {text : String} {sign digits : List Char} (hsign : IsSign sign)
    (htext : text.toList = sign ++ digits) (hdigits : ∀ d ∈ digits, isDigit d)
    (hlong : Atom.digitLimit < digits.length) :
    Atom.read text = .error (.tooManyDigits digits.length) := by
  have hlimit : Atom.digitLimit = 4300 := rfl
  have hlength : 4300 < text.toList.length := by
    rw [htext, List.length_append]
    omega
  have htrue : text ≠ "true" := by
    rintro rfl
    exact absurd hlength (by decide)
  have hfalse : text ≠ "false" := by
    rintro rfl
    exact absurd hlength (by decide)
  have hbody : (splitSign text.toList).2 = digits := by
    rw [htext, splitSign_append hsign fun c hc => ?_]
    exact ne_sign (.inl (hdigits c (List.mem_of_mem_head? hc)))
  have hinteger : integerDigits? text.toList =
      some ((splitSign text.toList).1, digits) := by
    have hne : digits.isEmpty = false := by
      cases digits with
      | nil => exact absurd hlong (by simp)
      | cons _ _ => rfl
    unfold integerDigits?
    simp only [hbody, hne, List.all_eq_true.mpr hdigits]
    rfl
  rw [Atom.read, if_neg htrue, if_neg hfalse, hinteger]
  exact if_pos hlong

theorem read_of_foreign {text : String} {sign letters : List Char} (hsign : IsSign sign)
    (htext : text.toList = sign ++ letters)
    (hname : letters.map foldCase = "inf".toList ∨ letters.map foldCase = "infinity".toList)
    (hforeign : ∃ c ∈ letters, isForeignI c) : Atom.read text = .error (.notANumber text) := by
  obtain ⟨c, hc, hci⟩ := hforeign
  have hany : text.toList.any isForeignI = true := by
    rw [htext]
    exact List.any_eq_true.mpr ⟨c, List.mem_append_right _ hc, hci⟩
  have htrue : text ≠ "true" := by
    rintro rfl
    exact absurd hany (by decide)
  have hfalse : text ≠ "false" := by
    rintro rfl
    exact absurd hany (by decide)
  have hinteger : integerDigits? text.toList = none := by
    have hall : letters.all isDigit = false :=
      List.all_eq_false.mpr ⟨c, hc, by simp [not_isDigit_of_isForeignI hci]⟩
    unfold integerDigits?
    simp [htext, splitSign_infinity hsign hname, hall]
  have hword := word?_infinity hsign hname
  rw [← htext] at hword
  rw [Atom.read, if_neg htrue, if_neg hfalse, hinteger, hword]
  exact if_pos hany

/-- Words are refused for one of two reasons and have a value otherwise. -/
theorem read_eq_error_iff {text : String} {error : Atom.Error} :
    Atom.read text = .error error ↔ Refused text error := by
  constructor
  · intro h
    unfold Atom.read at h
    split at h
    · cases h
    split at h
    · cases h
    split at h
    · next negative digits hinteger =>
      split at h
      · next hlong =>
        cases h
        exact refused_of_overlong hinteger hlong
      · cases h
    · split at h
      · next x hword =>
        split at h
        · next hforeign =>
          cases h
          exact refused_of_foreign hword hforeign
        · cases h
      · cases h
  · rintro (⟨hsign, htext, hdigits, hlong⟩ | ⟨hsign, htext, hname, hforeign⟩)
    · exact read_of_overlong hsign htext hdigits hlong
    · exact read_of_foreign hsign htext hname hforeign

/-! ## Texts that do not parse -/

/-- A word without a value stops the reader where it is read, unless another one has stopped it
before. -/
theorem readItems_of_not_readable {items : List Value} {outer : List (List Value)}
    {before after : List Token} {text : String} {e : Atom.Error}
    (hread : Atom.read text = .error e) (hopen : StaysOpen (outer.length + 1) before)
    (hhead : before = [] → items ≠ []) (hlast : ∀ t ∈ before.getLast?, t.kind ≠ .opening) :
    ∃ error rest, readItems items outer (before ++ ⟨.atom, text⟩ :: after) =
      (.error (.atom error), rest) := by
  induction before generalizing items outer with
  | nil =>
    have hat : Atom.readAt items.isEmpty text = .error e := by
      rw [Atom.readAt, if_neg (by simpa using hhead rfl), hread]
    rw [List.nil_append, readItems_atom, hat]
    exact ⟨e, after, rfl⟩
  | cons t ts ih =>
    have hopen' := hopen.tail
    have hlast' : ∀ u ∈ ts.getLast?, u.kind ≠ .opening := fun u hu =>
      hlast u (by rw [List.getLast?_cons, Option.mem_def.mp hu]; rfl)
    rw [List.cons_append]
    unfold readItems
    split
    · next hk =>
      rw [balance_closing hk] at hopen'
      cases outer with
      | nil =>
        have hpos := hopen' [] List.nil_prefix
        exact absurd hpos (by decide)
      | cons above outer =>
        have hdepth : ((above :: outer).length + 1 : Int) + -1 = outer.length + 1 := by
          simp only [List.length_cons]; omega
        rw [hdepth] at hopen'
        exact ih hopen' (fun _ => List.cons_ne_nil _ _) hlast'
    · next hk =>
      rw [balance_opening hk] at hopen'
      refine ih hopen' (fun hts => ?_) hlast'
      subst hts
      exact absurd hk (hlast t rfl)
    · next hc ho =>
      rw [balance_other ho hc, Int.add_zero] at hopen'
      cases Atom.readAt items.isEmpty t.text with
      | ok v => exact ih hopen' (fun _ => List.cons_ne_nil _ _) hlast'
      | error error => exact ⟨error, _, rfl⟩

theorem readTokens_of_isRead {tokens : List Token} {text : String} {e : Atom.Error}
    (h : IsRead tokens text) (hread : Atom.read text = .error e) :
    ∃ error, readTokens tokens = .error (.atom error) := by
  rcases h with rfl | ⟨first, before, after, rfl, hk, hopen, hne, hlast⟩
  · exact ⟨e, by rw [readTokens_word, hread]; rfl⟩
  · obtain ⟨error, rest, hitems⟩ : ∃ error rest,
        readItems [] [] (before ++ ⟨.atom, text⟩ :: after) = (.error (.atom error), rest) :=
      readItems_of_not_readable hread hopen (fun h => absurd h hne) hlast
    exact ⟨error, readTokens_stuck hk hitems⟩

theorem parse_overlong {digits : List Char} (hdigits : ∀ d ∈ digits, isDigit d)
    (hlong : Atom.digitLimit < digits.length) :
    (parse (String.ofList digits)).result = .error (.atom (.tooManyDigits digits.length)) := by
  have htext : (String.ofList digits).toList = [] ++ digits := String.toList_ofList
  have hword : IsWord (String.ofList digits) := by
    unfold IsWord
    rw [String.toList_ofList]
    refine ⟨?_, fun d hd => isWordChar_of_isDigit (hdigits d hd)⟩
    rintro rfl
    exact absurd hlong (by decide)
  rw [result_parse, tokenize_of_isWord hword, readTokens_word,
    read_of_overlong (.inl rfl) htext hdigits hlong]
  rfl

/-- A word has a value unless it is refused, and the value of a word that is no boolean, 32-bit
integer or number of single-precision range is its own text. A text parses or fails by its
syntax unless a refused word is read in it. -/
theorem parse_ok_or_raises_iff (text source : String) :
    ((∃ v, Atom.read text = .ok v ∧ (v = .str text ∨ v.kind ≠ .string ∧ Spellable v)) ↔
      ¬ ∃ error, Refused text error) ∧
    (((∃ v, (parse source).result = .ok v) ∨
        ∃ fault position, Raises (parse source).result fault position) ↔
      ¬ ∃ word error, IsRead (tokenize source) word ∧ Refused word error) := by
  have hlex : ∀ t ∈ tokenize source, Lexed t := lexed_tokenize
  rw [result_parse]
  refine ⟨⟨?_, fun h => ?_⟩, ⟨?_, fun h => ?_⟩⟩
  · rintro ⟨v, hv, -⟩ ⟨error, hrefused⟩
    rw [read_eq_error_iff.mpr hrefused] at hv
    cases hv
  · cases hread : Atom.read text with
    | ok v => exact ⟨v, rfl, Atom.read_cases hread⟩
    | error error => exact absurd ⟨error, read_eq_error_iff.mp hread⟩ h
  · rintro hresult ⟨word, e, hread, hrefused⟩
    obtain ⟨error, herror⟩ := readTokens_of_isRead hread (read_eq_error_iff.mpr hrefused)
    rw [herror] at hresult
    rcases hresult with ⟨v, hv⟩ | ⟨fault, position, hraises⟩
    · cases hv
    · rw [raises_error] at hraises
      cases hraises.1
  · rcases readTokens_cases hlex with hv | hraises | ⟨error, word, -, hread, hword⟩
    · exact .inl hv
    · exact .inr hraises
    · exact absurd ⟨word, error, hread, read_eq_error_iff.mp hword⟩ h

/-- A dotless `i` in the name of infinity, and a digit too many, are no errors of syntax. -/
theorem parse_fails_without_syntax_fault :
    (parse "\u0131nf").result = .error (.atom (.notANumber "\u0131nf")) ∧
    (parse (String.ofList (List.replicate 4301 '7'))).result =
      .error (.atom (.tooManyDigits 4301)) ∧
    ¬ ∀ source, (∃ v, (parse source).result = .ok v) ∨
      ∃ fault position, Raises (parse source).result fault position := by
  have hdotless : (parse "\u0131nf").result = .error (.atom (.notANumber "\u0131nf")) := by rfl
  refine ⟨hdotless, ?_, fun h => ?_⟩
  · have hdigits : ∀ d ∈ List.replicate 4301 '7', isDigit d := fun d hd => by
      rw [List.eq_of_mem_replicate hd]
      decide
    have hlength : (List.replicate 4301 '7').length = 4301 := List.length_replicate
    have hparse := parse_overlong hdigits (by rw [hlength]; decide)
    rwa [hlength] at hparse
  · rcases h "\u0131nf" with ⟨v, hv⟩ | ⟨fault, position, hraises⟩
    · rw [hdotless] at hv
      cases hv
    · rw [hdotless, raises_error] at hraises
      cases hraises.1

end FuzzyRules
