import FuzzyRules.Proofs.LiteralText
import FuzzyRules.Value.DecEq

/-!
# The value of a word

A word has the most specific of the values that it spells (`Inferred`): a boolean, an integer of
32 bits, a real of single-precision range, and its own text where it spells none of these. The
reader of words finds this value (`read_iff_inferred`).
-/

namespace FuzzyRules

open Literal

/-- Integers of 32 bits. -/
def Int32Text (cs : List Char) (i : Int) : Prop :=
  IntegerText cs i ∧ -2 ^ 31 ≤ i ∧ i ≤ 2 ^ 31 - 1

/-- Infinity, NaN, and the numerals whose nearest double has a magnitude of single precision. -/
inductive RealText (cs : List Char) : Double → Prop where
  | word {x : Double} : WordText cs x → RealText cs x
  | numeral {negative : Bool} {q : ℚ} {m : Magnitude} :
      DecimalText cs negative q ∨ HexText cs negative q → m.IsNearest q →
      m.toRat ≤ (2 ^ 24 - 1) * 2 ^ 104 → RealText cs (.signed negative m)

/-- The most specific value that a text spells. -/
inductive Inferred (text : String) : Value → Prop where
  | bool (truth : Bool) : text = (if truth then "true" else "false") → Inferred text (.bool truth)
  | int {i : Int} : Int32Text text.toList i → Inferred text (.int i)
  | float {x : Double} : text ≠ "true" → text ≠ "false" → (∀ i, ¬Int32Text text.toList i) →
      RealText text.toList x → Inferred text (.float x)
  | str : text ≠ "true" → text ≠ "false" → (∀ i, ¬Int32Text text.toList i) →
      (∀ x, ¬RealText text.toList x) → Inferred text (.str text)

/-! ## Overlapping languages -/

/-- What starts like a number after its sign is none of the words for infinity and NaN. -/
theorem word?_append_eq_none {sign tail : List Char} {c : Char} (hsign : IsSign sign)
    (hc : isDigit c ∨ c = '.') : word? (sign ++ c :: tail) = none := by
  have hfold : foldCase c ≠ 'i' ∧ foldCase c ≠ 'n' := by
    rcases hc with hc | rfl
    · exact foldCase_ne hc
    · decide
  unfold word?
  simp [splitSign_numeral hsign hc, hfold]

theorem IntegerText.word?_eq_none {cs : List Char} {i : Int} (h : IntegerText cs i) :
    word? cs = none := by
  obtain @⟨sign, digits, ds, hsign, hdigits, hne⟩ := h
  obtain ⟨hall, rfl⟩ := (digits_iff digitClass_decimal).mp hdigits
  obtain ⟨c, tail, rfl⟩ := List.exists_cons_of_ne_nil (by simpa using hne)
  exact word?_append_eq_none hsign (.inl (hall c (by simp)))

theorem DecimalText.word?_eq_none {cs : List Char} {negative : Bool} {q : ℚ}
    (h : DecimalText cs negative q) : word? cs = none := by
  obtain @⟨sign, body, power, _, _, _, hsign, htext, -⟩ := h
  obtain ⟨c, tail, hbody, hc⟩ := htext.exists_append_eq_cons digitClass_decimal power
  rw [hbody]
  exact word?_append_eq_none hsign hc

theorem HexText.word?_eq_none {cs : List Char} {negative : Bool} {q : ℚ}
    (h : HexText cs negative q) : word? cs = none := by
  obtain ⟨hsign, -, -, -⟩ := h
  exact word?_append_eq_none hsign (.inl (by decide))

/-- A hexadecimal is a zero with an unknown exponent to the reader of decimals. -/
theorem HexText.decimal?_eq_none {cs : List Char} {negative : Bool} {q : ℚ}
    (h : HexText cs negative q) : decimal? cs = none := by
  obtain @⟨sign, body, power, mark, _, _, _, hsign, hmark, -, -⟩ := h
  have hletter : ∀ c, IsLetter 'x' c → (isDigit c = false ∧ c ≠ '.') ∧ c ≠ 'e' ∧ c ≠ 'E' := by
    rintro c (rfl | rfl) <;> decide
  obtain ⟨hrest, he, hE⟩ := hletter mark hmark
  have hpointed : pointed? isDigit ('0' :: mark :: (body ++ power)) =
      some (['0'], 0, mark :: (body ++ power)) := by
    have hzero : ∀ c ∈ ['0'], isDigit c := List.forall_mem_singleton.mpr (by decide)
    refine pointed?_whole hzero (List.cons_ne_nil _ _) fun c hc => ?_
    cases hc
    exact hrest
  unfold decimal?
  simp [splitSign_numeral hsign (.inl (by decide : isDigit '0')), hpointed, he, hE]

/-! ## Reals -/

theorem units_singleMax :
    Atom.singleMax.units = (2 ^ 24 - 1) * 2 ^ 104 * 2 ^ 1074 := by decide +kernel

theorem toRat_singleMax : Atom.singleMax.toRat = (2 ^ 24 - 1) * 2 ^ 104 := by
  rw [Magnitude.toRat, units_singleMax, Nat.cast_mul, Nat.cast_pow, Nat.cast_ofNat,
    mul_div_cancel_right₀ _ (by positivity)]
  norm_num

theorem within_singleMax_iff {negative : Bool} {m : Magnitude} :
    (Double.signed negative m).within Atom.singleMax ↔ m.toRat ≤ (2 ^ 24 - 1) * 2 ^ 104 := by
  rw [← toRat_singleMax, Magnitude.toRat_le_toRat]
  exact decide_eq_true_iff

theorem numeral?_eq_some_iff {cs : List Char} {x : Double} :
    (decimal? cs).or (hexadecimal? cs) = some x ↔
      ∃ negative q m, (DecimalText cs negative q ∨ HexText cs negative q) ∧
        Magnitude.IsNearest q m ∧ x = .signed negative m := by
  rw [Option.or_eq_some_iff, decimal?_eq_some_iff, hexadecimal?_eq_some_iff]
  constructor
  · rintro (⟨negative, q, m, htext, h⟩ | ⟨-, negative, q, m, htext, h⟩)
    · exact ⟨negative, q, m, .inl htext, h⟩
    · exact ⟨negative, q, m, .inr htext, h⟩
  · rintro ⟨negative, q, m, htext | htext, h⟩
    · exact .inl ⟨negative, q, m, htext, h⟩
    · exact .inr ⟨htext.decimal?_eq_none, negative, q, m, htext, h⟩

theorem readReal_eq_float {text : String} {negative : Bool} {q : ℚ} {m : Magnitude}
    (htext : DecimalText text.toList negative q ∨ HexText text.toList negative q)
    (hm : m.IsNearest q) (hmax : m.toRat ≤ (2 ^ 24 - 1) * 2 ^ 104) :
    Atom.readReal text = .float (.signed negative m) := by
  rw [Atom.readReal, numeral?_eq_some_iff.mpr ⟨negative, q, m, htext, hm, rfl⟩]
  exact if_pos (within_singleMax_iff.mpr hmax)

theorem readReal_eq_str {text : String} (h : ∀ x, ¬RealText text.toList x) :
    Atom.readReal text = .str text := by
  unfold Atom.readReal
  split
  · next x hx =>
    obtain ⟨negative, q, m, htext, hm, rfl⟩ := numeral?_eq_some_iff.mp hx
    refine if_neg fun hwithin => ?_
    exact h _ (.numeral htext hm (within_singleMax_iff.mp hwithin))
  · rfl

/-! ## Reading -/

theorem isInt32_iff {i : Int} : Atom.isInt32 i ↔ -2 ^ 31 ≤ i ∧ i ≤ 2 ^ 31 - 1 := by
  rw [Atom.isInt32, Bool.and_eq_true, decide_eq_true_eq, decide_eq_true_eq]
  exact Iff.rfl

section Reading

variable {text : String} (hforeign : ∀ c ∈ text.toList, isForeignI c = false)
  (hshort : ∀ sign digits ds, IsSign sign → Digits 10 digits ds → text.toList = sign ++ digits →
    digits.length ≤ 4300)

section

include hshort

theorem not_digitLimit_lt {negative : Bool} {digits : List Char}
    (h : integerDigits? text.toList = some (negative, digits)) :
    ¬Atom.digitLimit < digits.length := by
  obtain ⟨sign, hsign, -, htext, -, hall⟩ := exists_of_integerDigits? h
  have hlength := hshort sign digits _ hsign ((digits_iff digitClass_decimal).mpr ⟨hall, rfl⟩) htext
  exact Nat.not_lt.mpr hlength

theorem read_of_int32Text {i : Int} (h : Int32Text text.toList i) :
    Atom.read text = .ok (.int i) := by
  obtain ⟨htext, hrange⟩ := h
  have hinteger := integer?_eq_some_iff.mpr htext
  have htrue : text ≠ "true" := by rintro rfl; cases hinteger
  have hfalse : text ≠ "false" := by rintro rfl; cases hinteger
  obtain ⟨⟨negative, digits⟩, hdigits, rfl⟩ := Option.map_eq_some_iff.mp hinteger
  rw [Atom.read, if_neg htrue, if_neg hfalse, hdigits]
  simp only [if_neg (not_digitLimit_lt hshort hdigits), if_pos (isInt32_iff.mpr hrange)]

end

include hforeign in
theorem read_of_wordText {x : Double} (h : WordText text.toList x) :
    Atom.read text = .ok (.float x) := by
  have hword := (word?_eq_some_iff hforeign).mpr h
  have htrue : text ≠ "true" := by rintro rfl; cases hword
  have hfalse : text ≠ "false" := by rintro rfl; cases hword
  have hinteger : integerDigits? text.toList = none := by
    rw [Option.eq_none_iff_forall_ne_some]
    rintro ⟨negative, digits⟩ hdigits
    rw [(integerText_of_integerDigits? hdigits).word?_eq_none] at hword
    cases hword
  have hany : text.toList.any isForeignI = false := by simpa using hforeign
  rw [Atom.read, if_neg htrue, if_neg hfalse, hinteger, hword]
  simp [hany]

include hshort in
theorem read_of_word?_eq_none (htrue : text ≠ "true") (hfalse : text ≠ "false")
    (hint : ∀ i, ¬Int32Text text.toList i) (hword : word? text.toList = none) :
    Atom.read text = .ok (Atom.readReal text) := by
  rw [Atom.read, if_neg htrue, if_neg hfalse]
  split
  · next negative digits hdigits =>
    have hrange : ¬Atom.isInt32 (applySign negative (ofDigits 10 digits)) := fun h =>
      hint _ ⟨integerText_of_integerDigits? hdigits, isInt32_iff.mp h⟩
    simp only [if_neg (not_digitLimit_lt hshort hdigits), if_neg hrange]
  · rw [hword]

include hforeign hshort in
theorem Inferred.read_eq {v : Value} (h : Inferred text v) : Atom.read text = .ok v := by
  cases h with
  | bool truth htext => cases truth <;> (subst htext; rfl)
  | int hint => exact read_of_int32Text hshort hint
  | float htrue hfalse hint hreal =>
    cases hreal with
    | word hword => exact read_of_wordText hforeign hword
    | numeral htext hm hmax =>
      have hword : word? text.toList = none :=
        htext.elim DecimalText.word?_eq_none HexText.word?_eq_none
      rw [read_of_word?_eq_none hshort htrue hfalse hint hword, readReal_eq_float htext hm hmax]
  | str htrue hfalse hint hreal =>
    have hword : word? text.toList = none := by
      rw [Option.eq_none_iff_forall_ne_some]
      exact fun x hx => hreal x (.word ((word?_eq_some_iff hforeign).mp hx))
    rw [read_of_word?_eq_none hshort htrue hfalse hint hword, readReal_eq_str hreal]

theorem exists_inferred (text : String) : ∃ v, Inferred text v := by
  by_cases htrue : text = "true"
  · exact ⟨_, .bool true htrue⟩
  by_cases hfalse : text = "false"
  · exact ⟨_, .bool false hfalse⟩
  by_cases hint : ∃ i, Int32Text text.toList i
  · exact hint.elim fun i hi => ⟨_, .int hi⟩
  have hint := not_exists.mp hint
  by_cases hreal : ∃ x, RealText text.toList x
  · exact hreal.elim fun x hx => ⟨_, .float htrue hfalse hint hx⟩
  · exact ⟨_, .str htrue hfalse hint (not_exists.mp hreal)⟩

end Reading

/-- A word without a foreign `i` that is no integer of more than 4300 digits has a value: the most
specific one that it spells. -/
theorem read_iff_inferred (text : String)
    (hforeign : '\u0130' ∉ text.toList ∧ '\u0131' ∉ text.toList)
    (hshort : ∀ sign digits ds, IsSign sign → Digits 10 digits ds → text.toList = sign ++ digits →
      digits.length ≤ 4300) :
    (∃ v, Atom.read text = .ok v) ∧ ∀ v, Atom.read text = .ok v ↔ Inferred text v := by
  have hforeign' : ∀ c ∈ text.toList, isForeignI c = false := by
    intro c hc
    rw [isForeignI, Bool.or_eq_false_iff, decide_eq_false_iff_not, decide_eq_false_iff_not]
    refine ⟨?_, ?_⟩
    · rintro rfl; exact hforeign.1 hc
    · rintro rfl; exact hforeign.2 hc
  obtain ⟨v, hv⟩ := exists_inferred text
  have hread := hv.read_eq hforeign' hshort
  refine ⟨⟨v, hread⟩, fun w => ⟨fun hw => ?_, fun hw => hw.read_eq hforeign' hshort⟩⟩
  rw [hread] at hw
  cases hw
  exact hv

/-- Eight sixteenths, doubled, with a minus sign. -/
theorem read_iff_inferred_hexadecimal :
    ('\u0130' ∉ "-0X.8P+1".toList ∧ '\u0131' ∉ "-0X.8P+1".toList) ∧
    (∀ sign digits ds, IsSign sign → Digits 10 digits ds → "-0X.8P+1".toList = sign ++ digits →
      digits.length ≤ 4300) ∧
    Atom.read "-0X.8P+1" = .ok (.float (.signed true .one)) ∧
    Inferred "-0X.8P+1" (.float (.signed true .one)) := by
  have hforeign : '\u0130' ∉ "-0X.8P+1".toList ∧ '\u0131' ∉ "-0X.8P+1".toList := by decide
  have hshort : ∀ sign digits ds, IsSign sign → Digits 10 digits ds →
      "-0X.8P+1".toList = sign ++ digits → digits.length ≤ 4300 := by
    intro sign digits _ _ _ htext
    have hlength : sign.length + digits.length = 8 := by
      rw [← List.length_append, ← htext]
      rfl
    omega
  have hread : Atom.read "-0X.8P+1" = .ok (.float (.signed true .one)) := by decide +kernel
  exact ⟨hforeign, hshort, hread, ((read_iff_inferred _ hforeign hshort).2 _).mp hread⟩

end FuzzyRules
