import FuzzyRules.Proofs.Nearest
import FuzzyRules.Proofs.Refusal
import Mathlib.Data.Nat.Digits.Defs

/-!
# The texts of numbers

The languages of number literals, each with the number that a text denotes: integers
(`IntegerText`), decimals and hexadecimals with an exact rational value (`DecimalText`,
`HexText`), and the words for infinity and NaN (`WordText`). Each reader accepts exactly its
language, and the numerals are read as the magnitude nearest to their value
(`integer?_eq_some_iff`, `decimal?_eq_some_iff`, `hexadecimal?_eq_some_iff`,
`word?_eq_some_iff`).
-/

namespace FuzzyRules

open Literal

/-! ## The languages -/

/-- A character is a given one, or its capital. -/
def IsLetter (letter c : Char) : Prop := c = letter ∨ c = letter.toUpper

instance (letter c : Char) : Decidable (IsLetter letter c) := inferInstanceAs (Decidable (_ ∨ _))

/-- A character is the digit `d` of a base. -/
def DigitOf (base : Nat) (c : Char) (d : Nat) : Prop := d < base ∧ IsLetter d.digitChar c

instance (base : Nat) (c : Char) (d : Nat) : Decidable (DigitOf base c d) :=
  inferInstanceAs (Decidable (_ ∧ _))

/-- A row of digits, possibly empty, and what each of them stands for. -/
def Digits (base : Nat) (text : List Char) (ds : List Nat) : Prop :=
  List.Forall₂ (DigitOf base) text ds

/-- The number that the digits `ds` denote in a base, the first one of the highest place. -/
def numberOf (base : Nat) (ds : List Nat) : Nat := Nat.ofDigits base ds.reverse

/-- Integers, `[+-]? digits`. -/
inductive IntegerText : List Char → Int → Prop where
  | intro {sign digits : List Char} {ds : List Nat} : IsSign sign → Digits 10 digits ds → ds ≠ [] →
      IntegerText (sign ++ digits)
        (if sign = ['-'] then -(numberOf 10 ds : Int) else numberOf 10 ds)

/-- Numerals with an optional point, `digits [.] digits*` or `. digits`: the digits, and how many
of them follow the point. -/
inductive PointedText (base : Nat) : List Char → List Nat → Nat → Prop where
  | whole {text : List Char} {ds : List Nat} : Digits base text ds → ds ≠ [] →
      PointedText base text ds 0
  | point {whole fraction : List Char} {ws fs : List Nat} : Digits base whole ws →
      Digits base fraction fs → ws ++ fs ≠ [] →
      PointedText base (whole ++ '.' :: fraction) (ws ++ fs) fs.length

/-- Exponents: a letter in either case, then an integer. -/
inductive PowerText (letter : Char) : List Char → Int → Prop where
  | intro {mark : Char} {power : List Char} {e : Int} : IsLetter letter mark →
      IntegerText power e → PowerText letter (mark :: power) e

/-- Decimals, `[+-]? (digits [.] digits* | . digits) ([eE] [+-]? digits)?`: whether there is a
minus sign, and the magnitude. -/
inductive DecimalText : List Char → Bool → ℚ → Prop where
  | intro {sign body power : List Char} {ds : List Nat} {places : Nat} {e : Int} : IsSign sign →
      PointedText 10 body ds places → (power = [] ∧ e = 0 ∨ PowerText 'e' power e) →
      DecimalText (sign ++ (body ++ power)) (decide (sign = ['-']))
        (numberOf 10 ds / 10 ^ places * 10 ^ e)

/-- Hexadecimals, `[+-]? 0x (hex [.] hex* | . hex) p [+-]? digits` in either case. The exponent is
one of two, and it is not optional. -/
inductive HexText : List Char → Bool → ℚ → Prop where
  | intro {sign body power : List Char} {mark : Char} {ds : List Nat} {places : Nat} {e : Int} :
      IsSign sign → IsLetter 'x' mark → PointedText 16 body ds places → PowerText 'p' power e →
      HexText (sign ++ '0' :: mark :: (body ++ power)) (decide (sign = ['-']))
        (numberOf 16 ds / 16 ^ places * 2 ^ e)

/-- A text is a word, each letter in either case. -/
def Spells (word : String) (text : List Char) : Prop := List.Forall₂ IsLetter word.toList text

/-- The words for infinity, `[+-]? (inf | infinity)`, and NaN, `[+-]? nan`, in either case. -/
inductive WordText : List Char → Double → Prop where
  | infinity {sign letters : List Char} : IsSign sign →
      Spells "inf" letters ∨ Spells "infinity" letters →
      WordText (sign ++ letters) (.signed (decide (sign = ['-'])) .infinite)
  | nan {sign letters : List Char} : IsSign sign → Spells "nan" letters →
      WordText (sign ++ letters) (.nan none)

/-! ## Characters -/

theorem exists_ofNat {c : Char} (h : c.toNat < 128) : ∃ n < 128, c = Char.ofNat n :=
  ⟨c.toNat, h, (Char.ofNat_toNat c).symm⟩

/-- Only letters of ASCII have another case. -/
theorem isLetter_toLower (c : Char) : IsLetter c.toLower c := by
  by_cases hc : c.toNat < 128
  · obtain ⟨n, hn, rfl⟩ := exists_ofNat hc
    have hascii : ∀ n < 128, IsLetter (Char.ofNat n).toLower (Char.ofNat n) := by decide +kernel
    exact hascii n hn
  · have hcapital : ¬(c.val ≥ 'A'.val ∧ c.val ≤ 'Z'.val) := fun h =>
      hc (Nat.lt_of_le_of_lt (UInt32.le_iff_toNat_le.mp h.2) (by decide))
    have hsame : c.toLower = c := by
      unfold Char.toLower
      exact dif_neg hcapital
    exact .inl hsame.symm

theorem isLetter_iff {letter c : Char} (hlower : letter.toLower = letter)
    (hcapital : letter.toUpper.toLower = letter) : IsLetter letter c ↔ c.toLower = letter := by
  constructor
  · rintro (rfl | rfl)
    · exact hlower
    · exact hcapital
  · rintro rfl
    exact isLetter_toLower c

/-- A letter as the readers test for it. -/
theorem or_iff_isLetter {letter c : Char} (capital : Char) (h : letter.toUpper = capital) :
    (c = letter || c = capital) = true ↔ IsLetter letter c := by
  rw [Bool.or_eq_true, decide_eq_true_eq, decide_eq_true_eq, IsLetter, h]

/-! ## Digits -/

/-- The characters that a reader takes for digits of a base. -/
structure DigitClass (base : Nat) (p : Char → Bool) : Prop where
  digitOf_iff : ∀ c d, DigitOf base c d ↔ p c = true ∧ d = digitValue c
  not_point : p '.' = false

theorem digitClass_of_ascii {base : Nat} {p : Char → Bool} (hp : ∀ c, p c → c.toNat < 128)
    (hdigit : ∀ d < base, p d.digitChar ∧ d = digitValue d.digitChar)
    (hcapital : ∀ d < base, p d.digitChar.toUpper ∧ d = digitValue d.digitChar.toUpper)
    (hascii : ∀ n < 128, p (Char.ofNat n) → DigitOf base (Char.ofNat n) (digitValue (Char.ofNat n)))
    (hpoint : p '.' = false) : DigitClass base p where
  digitOf_iff c d := by
    constructor
    · rintro ⟨hd, rfl | rfl⟩
      · exact hdigit d hd
      · exact hcapital d hd
    · rintro ⟨hc, rfl⟩
      obtain ⟨n, hn, rfl⟩ := exists_ofNat (hp c hc)
      exact hascii n hn hc
  not_point := hpoint

theorem isHexDigit_iff {c : Char} : isHexDigit c ↔
    isDigit c ∨ 97 ≤ c.toNat ∧ c.toNat ≤ 102 ∨ 65 ≤ c.toNat ∧ c.toNat ≤ 70 := by
  simp only [isHexDigit, Bool.or_eq_true, Bool.and_eq_true, decide_eq_true_eq, Char.le_def,
    UInt32.le_iff_toNat_le, or_assoc]
  exact Iff.rfl

theorem digitClass_decimal : DigitClass 10 isDigit := by
  refine digitClass_of_ascii (fun c hc => ?_) (by decide) (by decide) (by decide +kernel) rfl
  have := isDigit_iff.mp hc
  omega

theorem digitClass_hexadecimal : DigitClass 16 isHexDigit := by
  refine digitClass_of_ascii (fun c hc => ?_) (by decide) (by decide) (by decide +kernel) rfl
  rw [isHexDigit_iff, isDigit_iff] at hc
  omega

theorem ofDigits_eq_numberOf (base : Nat) (text : List Char) :
    ofDigits base text = numberOf base (text.map digitValue) := by
  rw [numberOf, Nat.ofDigits_eq_foldr, List.foldr_reverse, List.foldl_map, ofDigits]
  congr 1
  funext n c
  rw [Nat.cast_id, Nat.add_comm, Nat.mul_comm]

section Classes

variable {base : Nat} {p : Char → Bool} (hclass : DigitClass base p)
include hclass

theorem digits_iff {text : List Char} {ds : List Nat} :
    Digits base text ds ↔ (∀ c ∈ text, p c) ∧ ds = text.map digitValue := by
  unfold Digits
  induction text generalizing ds with
  | nil => simp
  | cons c cs ih =>
    cases ds with
    | nil => simp
    | cons d ds =>
      rw [List.forall₂_cons, hclass.digitOf_iff, ih]
      simp only [List.forall_mem_cons, List.map_cons, List.cons.injEq]
      grind

/-! ## Numerals with a point -/

theorem pointedText_of_pointed? {cs digits rest : List Char} {places : Nat}
    (h : pointed? p cs = some (digits, places, rest)) :
    ∃ body, cs = body ++ rest ∧ PointedText base body (digits.map digitValue) places := by
  have hall : ∀ {cs : List Char}, ∀ c ∈ cs.takeWhile p, p c := fun c hc =>
    List.all_eq_true.mp List.all_takeWhile c hc
  have hcs : cs = cs.takeWhile p ++ cs.dropWhile p := List.takeWhile_append_dropWhile.symm
  unfold pointed? at h
  simp only at h
  split at h
  · next tail hdrop =>
    split at h
    · cases h
    · next hne =>
      cases h
      refine ⟨cs.takeWhile p ++ '.' :: tail.takeWhile p, ?_, ?_⟩
      · rw [List.append_assoc, List.cons_append, List.takeWhile_append_dropWhile, ← hdrop]
        exact hcs
      · rw [List.map_append, ← List.length_map (f := digitValue)]
        refine .point ((digits_iff hclass).mpr ⟨hall, rfl⟩) ((digits_iff hclass).mpr ⟨hall, rfl⟩) ?_
        rw [← List.map_append]
        simpa using hne
  · split at h
    · cases h
    · next hne =>
      cases h
      exact ⟨cs.takeWhile p, hcs, .whole ((digits_iff hclass).mpr ⟨hall, rfl⟩) (by simpa using hne)⟩

theorem pointed?_of_pointedText {body rest : List Char} {ds : List Nat} {places : Nat}
    (h : PointedText base body ds places) (hrest : ∀ c ∈ rest.head?, p c = false ∧ c ≠ '.') :
    ∃ digits, ds = digits.map digitValue ∧
      pointed? p (body ++ rest) = some (digits, places, rest) := by
  cases h with
  | whole hdigits hne =>
    obtain ⟨hp, rfl⟩ := (digits_iff hclass).mp hdigits
    exact ⟨body, rfl, pointed?_whole hp (by simpa using hne) hrest⟩
  | @point whole fraction _ _ hwhole hfraction hne =>
    obtain ⟨hp, rfl⟩ := (digits_iff hclass).mp hwhole
    obtain ⟨hp', rfl⟩ := (digits_iff hclass).mp hfraction
    refine ⟨whole ++ fraction, List.map_append.symm, ?_⟩
    rw [List.append_assoc, List.cons_append, List.length_map]
    rw [← List.map_append] at hne
    exact pointed?_point hp hclass.not_point (by simpa using hne) hp' fun c hc => (hrest c hc).1

theorem PointedText.exists_append_eq_cons {body : List Char} {ds : List Nat} {places : Nat}
    (h : PointedText base body ds places) (rest : List Char) :
    ∃ c cs, body ++ rest = c :: cs ∧ (p c ∨ c = '.') := by
  cases h with
  | whole hdigits hne =>
    obtain ⟨hp, rfl⟩ := (digits_iff hclass).mp hdigits
    obtain ⟨c, cs, rfl⟩ := List.exists_cons_of_ne_nil (by simpa using hne)
    exact ⟨c, cs ++ rest, rfl, .inl (hp c (by simp))⟩
  | @point whole fraction _ _ hwhole hfraction hne =>
    cases whole with
    | nil => exact ⟨'.', fraction ++ rest, rfl, .inr rfl⟩
    | cons c cs =>
      exact ⟨c, _, rfl, .inl (((digits_iff hclass).mp hwhole).1 c (by simp))⟩

end Classes

/-! ## Integers -/

theorem applySign_decide (sign : List Char) (n : Nat) :
    applySign (decide (sign = ['-'])) n = if sign = ['-'] then -(n : Int) else n := by
  simp only [applySign, decide_eq_true_eq]

theorem integerText_of_integerDigits? {cs digits : List Char} {negative : Bool}
    (h : integerDigits? cs = some (negative, digits)) :
    IntegerText cs (applySign negative (ofDigits 10 digits)) := by
  obtain ⟨sign, hsign, rfl, rfl, hne, hall⟩ := exists_of_integerDigits? h
  rw [applySign_decide, ofDigits_eq_numberOf]
  exact .intro hsign ((digits_iff digitClass_decimal).mpr ⟨hall, rfl⟩) (by simpa using hne)

theorem integer?_eq_some_iff {cs : List Char} {i : Int} :
    integer? cs = some i ↔ IntegerText cs i := by
  constructor
  · intro h
    obtain ⟨_, hdigits, rfl⟩ := Option.map_eq_some_iff.mp h
    exact integerText_of_integerDigits? hdigits
  · rintro ⟨hsign, hdigits, hne⟩
    obtain ⟨hall, rfl⟩ := (digits_iff digitClass_decimal).mp hdigits
    obtain ⟨c, tail, rfl⟩ := List.exists_cons_of_ne_nil (by simpa using hne)
    unfold integer? integerDigits?
    rw [splitSign_numeral hsign (.inl (hall c List.mem_cons_self))]
    simp only [List.all_eq_true.mpr hall, ← ofDigits_eq_numberOf, ← applySign_decide]
    rfl

/-! ## Decimals -/

theorem isNearest_decimal (digits : List Char) (places : Nat) (e : Int) :
    Magnitude.IsNearest (numberOf 10 (digits.map digitValue) / 10 ^ places * 10 ^ e)
      (.ofScaled 10 (ofDigits 10 digits) (e - places)) := by
  have hvalue : (numberOf 10 (digits.map digitValue) / 10 ^ places * 10 ^ e : ℚ) =
      numberOf 10 (digits.map digitValue) * ((10 : Nat) : ℚ) ^ (e - places) := by
    rw [Nat.cast_ofNat, zpow_sub₀ (by norm_num), zpow_natCast]
    ring
  rw [hvalue, ofDigits_eq_numberOf]
  exact Magnitude.isNearest_ofScaled (by omega) _ _

theorem decimalText_of_decimal? {cs : List Char} {x : Double} (h : decimal? cs = some x) :
    ∃ negative q m, DecimalText cs negative q ∧ Magnitude.IsNearest q m ∧
      x = .signed negative m := by
  obtain ⟨sign, hsign, hnegative, hcs⟩ := exists_isSign cs
  unfold decimal? at h
  simp only [hnegative] at h
  split at h
  · cases h
  · next digits places rest hpointed =>
    obtain ⟨body, hbody, htext⟩ := pointedText_of_pointed? digitClass_decimal hpointed
    rw [hcs, hbody]
    split at h
    · cases h
      exact ⟨_, _, _, .intro hsign htext (.inl ⟨rfl, rfl⟩), isNearest_decimal digits places 0, rfl⟩
    · next mark power =>
      split at h
      · next hmark =>
        obtain ⟨e, he, rfl⟩ := Option.map_eq_some_iff.mp h
        have hpower : PowerText 'e' (mark :: power) e :=
          .intro ((or_iff_isLetter 'E' rfl).mp hmark) (integer?_eq_some_iff.mp he)
        exact ⟨_, _, _, .intro hsign htext (.inr hpower), isNearest_decimal digits places e, rfl⟩
      · cases h

theorem PowerText.not_numeral {letter : Char} {p : Char → Bool} {power : List Char} {e : Int}
    (h : PowerText letter power e)
    (hp : ∀ c, IsLetter letter c → p c = false ∧ c ≠ '.') :
    ∀ c ∈ power.head?, p c = false ∧ c ≠ '.' := by
  intro c hc
  cases h with
  | intro hmark _ => cases hc; exact hp c hmark

theorem decimal?_of_decimalText {cs : List Char} {negative : Bool} {q : ℚ}
    (h : DecimalText cs negative q) :
    ∃ m, Magnitude.IsNearest q m ∧ decimal? cs = some (.signed negative m) := by
  obtain @⟨sign, body, power, _, places, e, hsign, htext, hpower⟩ := h
  have hrest : ∀ c ∈ power.head?, isDigit c = false ∧ c ≠ '.' := by
    rcases hpower with ⟨rfl, -⟩ | hpower
    · nofun
    · refine hpower.not_numeral ?_
      rintro c (rfl | rfl) <;> decide
  obtain ⟨digits, rfl, hpointed⟩ := pointed?_of_pointedText digitClass_decimal htext hrest
  obtain ⟨c, tail, hbody, hc⟩ := htext.exists_append_eq_cons digitClass_decimal power
  have hsplit : splitSign (sign ++ (body ++ power)) = (decide (sign = ['-']), body ++ power) := by
    rw [hbody]
    exact splitSign_numeral hsign hc
  refine ⟨_, isNearest_decimal digits places e, ?_⟩
  unfold decimal?
  simp only [hsplit, hpointed]
  rcases hpower with ⟨rfl, rfl⟩ | ⟨hmark, hinteger⟩
  · rfl
  · simp only [if_pos ((or_iff_isLetter 'E' rfl).mpr hmark), integer?_eq_some_iff.mpr hinteger]
    rfl

theorem decimal?_eq_some_iff {cs : List Char} {x : Double} :
    decimal? cs = some x ↔
      ∃ negative q m, DecimalText cs negative q ∧ Magnitude.IsNearest q m ∧
        x = .signed negative m := by
  refine ⟨decimalText_of_decimal?, ?_⟩
  rintro ⟨negative, q, m, htext, hnearest, rfl⟩
  obtain ⟨n, hn, hdecimal⟩ := decimal?_of_decimalText htext
  rw [hdecimal, hnearest.eq hn]

/-! ## Hexadecimals -/

theorem isNearest_hexadecimal (digits : List Char) (places : Nat) (e : Int) :
    Magnitude.IsNearest (numberOf 16 (digits.map digitValue) / 16 ^ places * 2 ^ e)
      (.ofScaled 2 (ofDigits 16 digits) (e - 4 * places)) := by
  have hvalue : (numberOf 16 (digits.map digitValue) / 16 ^ places * 2 ^ e : ℚ) =
      numberOf 16 (digits.map digitValue) * ((2 : Nat) : ℚ) ^ (e - 4 * places) := by
    have hplaces : ((2 : ℚ) ^ (4 * places : Int)) = 16 ^ places := by
      rw [zpow_mul, zpow_natCast]
      norm_num
    rw [Nat.cast_ofNat, zpow_sub₀ (by norm_num), hplaces]
    ring
  rw [hvalue, ofDigits_eq_numberOf]
  exact Magnitude.isNearest_ofScaled (le_refl 2) _ _

theorem hexText_of_hexadecimal? {cs : List Char} {x : Double} (h : hexadecimal? cs = some x) :
    ∃ negative q m, HexText cs negative q ∧ Magnitude.IsNearest q m ∧ x = .signed negative m := by
  obtain ⟨sign, hsign, hnegative, hcs⟩ := exists_isSign cs
  unfold hexadecimal? at h
  simp only [hnegative] at h
  split at h
  · next mark tail htail =>
    split at h
    · next hmark =>
      split at h
      · next digits places letter power hpointed =>
        split at h
        · next hletter =>
          obtain ⟨body, rfl, htext⟩ := pointedText_of_pointed? digitClass_hexadecimal hpointed
          obtain ⟨e, he, rfl⟩ := Option.map_eq_some_iff.mp h
          have hpower : PowerText 'p' (letter :: power) e :=
            .intro ((or_iff_isLetter 'P' rfl).mp hletter) (integer?_eq_some_iff.mp he)
          rw [hcs, htail]
          exact ⟨_, _, _, .intro hsign ((or_iff_isLetter 'X' rfl).mp hmark) htext hpower,
            isNearest_hexadecimal digits places e, rfl⟩
        · cases h
      · cases h
    · cases h
  · cases h

theorem hexadecimal?_of_hexText {cs : List Char} {negative : Bool} {q : ℚ}
    (h : HexText cs negative q) :
    ∃ m, Magnitude.IsNearest q m ∧ hexadecimal? cs = some (.signed negative m) := by
  obtain @⟨sign, body, power, mark, _, places, e, hsign, hmark, htext, hpower⟩ := h
  have hrest : ∀ c ∈ power.head?, isHexDigit c = false ∧ c ≠ '.' := by
    refine hpower.not_numeral ?_
    rintro c (rfl | rfl) <;> decide
  obtain ⟨digits, rfl, hpointed⟩ := pointed?_of_pointedText digitClass_hexadecimal htext hrest
  refine ⟨_, isNearest_hexadecimal digits places e, ?_⟩
  obtain ⟨hletter, hinteger⟩ := hpower
  unfold hexadecimal?
  simp only [splitSign_numeral hsign (.inl (by decide : isDigit '0')), hpointed,
    if_pos ((or_iff_isLetter 'X' rfl).mpr hmark), if_pos ((or_iff_isLetter 'P' rfl).mpr hletter),
    integer?_eq_some_iff.mpr hinteger]
  rfl

theorem hexadecimal?_eq_some_iff {cs : List Char} {x : Double} :
    hexadecimal? cs = some x ↔
      ∃ negative q m, HexText cs negative q ∧ Magnitude.IsNearest q m ∧ x = .signed negative m := by
  refine ⟨hexText_of_hexadecimal?, ?_⟩
  rintro ⟨negative, q, m, htext, hnearest, rfl⟩
  obtain ⟨n, hn, hhex⟩ := hexadecimal?_of_hexText htext
  rw [hhex, hnearest.eq hn]

/-! ## Words -/

theorem forall₂_isLetter_iff {word text : List Char} (hlower : word.map Char.toLower = word)
    (hcapital : word.map (fun letter => letter.toUpper.toLower) = word)
    (htext : ∀ c ∈ text, isForeignI c = false) :
    List.Forall₂ IsLetter word text ↔ text.map foldCase = word := by
  induction word generalizing text with
  | nil => simp
  | cons letter letters ih =>
    cases text with
    | nil => simp
    | cons c cs =>
      obtain ⟨hlower, hlowers⟩ := List.cons.inj hlower
      obtain ⟨hcapital, hcapitals⟩ := List.cons.inj hcapital
      have hfold : foldCase c = c.toLower := by simp [foldCase, htext c (by simp)]
      rw [List.forall₂_cons, isLetter_iff hlower hcapital,
        ih hlowers hcapitals fun d hd => htext d (List.mem_cons_of_mem c hd), List.map_cons,
        List.cons.injEq, hfold]

section Words

variable {letters : List Char} (h : ∀ c ∈ letters, isForeignI c = false)
include h

theorem spells_inf_iff : Spells "inf" letters ↔ letters.map foldCase = "inf".toList :=
  forall₂_isLetter_iff rfl rfl h

theorem spells_infinity_iff :
    Spells "infinity" letters ↔ letters.map foldCase = "infinity".toList :=
  forall₂_isLetter_iff rfl rfl h

theorem spells_nan_iff : Spells "nan" letters ↔ letters.map foldCase = "nan".toList :=
  forall₂_isLetter_iff rfl rfl h

end Words

theorem word?_eq_some_iff {cs : List Char} {x : Double} (h : ∀ c ∈ cs, isForeignI c = false) :
    word? cs = some x ↔ WordText cs x := by
  constructor
  · intro hword
    obtain ⟨sign, hsign, hnegative, hcs⟩ := exists_isSign cs
    have hletters : ∀ c ∈ (splitSign cs).2, isForeignI c = false := fun c hc =>
      h c (by rw [hcs]; exact List.mem_append_right _ hc)
    unfold word? at hword
    simp only [hnegative] at hword
    split at hword
    · next hname =>
      cases hword
      rw [Bool.or_eq_true, decide_eq_true_eq, decide_eq_true_eq] at hname
      have htext := WordText.infinity hsign
        (hname.imp (spells_inf_iff hletters).mpr (spells_infinity_iff hletters).mpr)
      rwa [← hcs] at htext
    · split at hword
      · next hname =>
        cases hword
        have htext := WordText.nan hsign ((spells_nan_iff hletters).mpr hname)
        rwa [← hcs] at htext
      · cases hword
  · rintro (@⟨sign, letters, hsign, hname⟩ | @⟨sign, letters, hsign, hname⟩)
    · have hletters : ∀ c ∈ letters, isForeignI c = false := fun c hc =>
        h c (List.mem_append_right _ hc)
      exact word?_infinity hsign
        (hname.imp (spells_inf_iff hletters).mp (spells_infinity_iff hletters).mp)
    · have hletters : ∀ c ∈ letters, isForeignI c = false := fun c hc =>
        h c (List.mem_append_right _ hc)
      have hname := (spells_nan_iff hletters).mp hname
      unfold word?
      simp only [splitSign_letters hsign hname (by decide), hname]
      rfl

end FuzzyRules
