import FuzzyRules.Literal
import FuzzyRules.Proofs.Lexing
import FuzzyRules.Proofs.Rounding

/-!
# Decimal texts

A `Numeral` is a decimal text without sign that no integer has, either with digits on both
sides of a point or with an exponent. It is read as the magnitude it spells
(`Numeral.decimal?_eq`), and the text of a finite magnitude is one that spells it
(`Double.exists_numeral_text`).
-/

namespace FuzzyRules

open Literal

namespace Literal

/-! ## Digits -/

theorem isDigit_iff {c : Char} : isDigit c ↔ 48 ≤ c.toNat ∧ c.toNat ≤ 57 := by
  simp only [isDigit, Bool.and_eq_true, decide_eq_true_eq, Char.le_def, UInt32.le_iff_toNat_le]
  exact Iff.rfl

theorem isDigit_of_mem_toDigits {n : Nat} {c : Char} (h : c ∈ Nat.toDigits 10 n) : isDigit c := by
  have hc := Nat.isDigit_of_mem_toDigits (by omega) (by omega) h
  simp only [Char.isDigit, Bool.and_eq_true, decide_eq_true_eq] at hc
  exact isDigit_iff.mpr hc

theorem isDigit_of_mem_replicate {n : Nat} {c : Char} (h : c ∈ List.replicate n '0') :
    isDigit c := by
  rw [List.eq_of_mem_replicate h]
  decide

theorem isWordChar_of_isDigit {c : Char} (h : isDigit c) : Token.isWordChar c := by
  have hc := isDigit_iff.mp h
  refine Token.isWordChar_eq_true.mpr ⟨?_, ?_, ?_⟩
  · simp only [Text.isBlank, Bool.or_eq_false_iff, Bool.and_eq_false_iff, decide_eq_false_iff_not,
      beq_eq_false_iff_ne]
    omega
  · rintro rfl; revert hc; decide
  · rintro rfl; revert hc; decide

/-- On decimal digits the value of a list is the one the core library gives it. -/
theorem foldl_digitValue {digits : List Char} (h : ∀ c ∈ digits, isDigit c) (n : Nat) :
    digits.foldl (fun n c => n * 10 + digitValue c) n = Nat.ofDigitChars 10 digits n := by
  induction digits generalizing n with
  | nil => rfl
  | cons c cs ih =>
    have hc : digitValue c = c.toNat - '0'.toNat := by
      rw [digitValue, if_pos (h c (by simp))]
    rw [List.foldl_cons, Nat.ofDigitChars_cons, ih (fun a ha => h a (by simp [ha])), hc,
      Nat.mul_comm]

theorem ofDigits_eq {digits : List Char} (h : ∀ c ∈ digits, isDigit c) :
    ofDigits 10 digits = Nat.ofDigitChars 10 digits 0 := foldl_digitValue h 0

theorem ofDigits_toDigits (n : Nat) : ofDigits 10 (Nat.toDigits 10 n) = n := by
  rw [ofDigits_eq fun c => isDigit_of_mem_toDigits, Nat.ofDigitChars_ten_toDigits]

/-- Zeros in front count for nothing. -/
theorem ofDigits_replicate_append (n : Nat) (digits : List Char) :
    ofDigits 10 (List.replicate n '0' ++ digits) = ofDigits 10 digits := by
  induction n with
  | zero => rfl
  | succ n ih => exact ih

/-- Each zero at the end is a factor ten. -/
theorem ofDigits_append_replicate (digits : List Char) (n : Nat) :
    ofDigits 10 (digits ++ List.replicate n '0') = ofDigits 10 digits * 10 ^ n := by
  induction n with
  | zero => simp
  | succ n ih =>
    rw [List.replicate_succ', ← List.append_assoc]
    unfold ofDigits at ih ⊢
    rw [List.foldl_append, ih, Nat.pow_succ, ← Nat.mul_assoc]
    rfl

/-- The digits of a positive number, less the zeros at its end. -/
theorem exists_toDigits_eq_append {n : Nat} (hn : n ≠ 0) {digits : List Char}
    (h : digits = ((Nat.toDigits 10 n).reverse.dropWhile (· == '0')).reverse) :
    digits ≠ [] ∧ ∃ zeros, Nat.toDigits 10 n = digits ++ List.replicate zeros '0' := by
  have hzeros : ∀ c ∈ (Nat.toDigits 10 n).reverse.takeWhile (· == '0'), c = '0' := by
    intro c hc
    have hall := List.all_takeWhile (l := (Nat.toDigits 10 n).reverse) (p := (· == '0'))
    simpa using List.all_eq_true.mp hall c hc
  obtain ⟨zeros, happend⟩ : ∃ zeros, Nat.toDigits 10 n = digits ++ List.replicate zeros '0' := by
    refine ⟨((Nat.toDigits 10 n).reverse.takeWhile (· == '0')).length, ?_⟩
    rw [h, ← List.reverse_replicate, ← List.eq_replicate_of_mem hzeros, ← List.reverse_append,
      List.takeWhile_append_dropWhile, List.reverse_reverse]
  refine ⟨fun hnil => hn ?_, zeros, happend⟩
  have hvalue := ofDigits_append_replicate digits zeros
  rw [← happend, ofDigits_toDigits, hnil] at hvalue
  rw [hvalue]
  exact Nat.zero_mul _

/-! ## Readers -/

section Pointed

variable {p : Char → Bool} {whole fraction rest : List Char} (hwhole : ∀ c ∈ whole, p c)
include hwhole

theorem takeWhile_append_rest (hrest : ∀ c ∈ rest.head?, p c = false) :
    (whole ++ rest).takeWhile p = whole ∧ (whole ++ rest).dropWhile p = rest := by
  rw [List.takeWhile_append_of_pos hwhole, List.dropWhile_append_of_pos hwhole]
  cases rest with
  | nil => simp
  | cons c cs => simp [hrest c rfl]

theorem pointed?_point (hp : p '.' = false) (hne : whole ++ fraction ≠ [])
    (hfraction : ∀ c ∈ fraction, p c) (hrest : ∀ c ∈ rest.head?, p c = false) :
    pointed? p (whole ++ '.' :: (fraction ++ rest)) =
      some (whole ++ fraction, fraction.length, rest) := by
  have hpoint : ∀ c ∈ ('.' :: (fraction ++ rest)).head?, p c = false := by
    intro c hc
    cases hc
    exact hp
  have hempty : (whole.isEmpty && fraction.isEmpty) = false := by
    cases whole with
    | nil => simpa using hne
    | cons c cs => rfl
  obtain ⟨htake, hdrop⟩ := takeWhile_append_rest hwhole hpoint
  obtain ⟨htake', hdrop'⟩ := takeWhile_append_rest hfraction hrest
  unfold pointed?
  simp only [htake, hdrop, htake', hdrop', hempty]
  rfl

theorem pointed?_whole (hne : whole ≠ [])
    (hrest : ∀ c ∈ rest.head?, p c = false ∧ c ≠ '.') :
    pointed? p (whole ++ rest) = some (whole, 0, rest) := by
  obtain ⟨htake, hdrop⟩ := takeWhile_append_rest hwhole fun c hc => (hrest c hc).1
  unfold pointed?
  simp only [htake, hdrop, List.isEmpty_eq_false_iff.mpr hne]
  split
  · next cs h => exact absurd rfl (hrest '.' rfl).2
  · rfl

end Pointed

/-- The sign in front of a power of ten, which is always written. -/
def powerSign (negative : Bool) : Char := if negative then '-' else '+'

theorem integer?_powerSign {negative : Bool} {digits : List Char} (hne : digits ≠ [])
    (hdigits : ∀ c ∈ digits, isDigit c) :
    integer? (powerSign negative :: digits) = some (applySign negative (ofDigits 10 digits)) := by
  have hsplit : splitSign (powerSign negative :: digits) = (negative, digits) := by
    cases negative <;> rfl
  unfold integer? integerDigits?
  rw [hsplit]
  simp only [List.isEmpty_eq_false_iff.mpr hne, List.all_eq_true.mpr hdigits]
  rfl

end Literal

/-! ## Numerals -/

/-- The digits after the point, with the point; nothing if there are none. -/
def pointText (fraction : List Char) : List Char :=
  if fraction.isEmpty then [] else '.' :: fraction

/-- A decimal text without sign that is no integer's, with the magnitude that it spells. -/
inductive Numeral : List Char → Magnitude → Prop where
  | positional {whole fraction : List Char} : whole ≠ [] →
      (∀ c ∈ whole, isDigit c) → (∀ c ∈ fraction, isDigit c) →
      Numeral (whole ++ '.' :: fraction)
        (.ofScaled 10 (ofDigits 10 (whole ++ fraction)) (-fraction.length))
  | scientific {first : Char} {fraction power : List Char} (negative : Bool) :
      isDigit first → (∀ c ∈ fraction, isDigit c) → power ≠ [] → (∀ c ∈ power, isDigit c) →
      Numeral (first :: (pointText fraction ++ 'e' :: powerSign negative :: power))
        (.ofScaled 10 (ofDigits 10 (first :: fraction))
          (applySign negative (ofDigits 10 power) - fraction.length))

namespace Numeral

variable {body : List Char} {m : Magnitude}

theorem exists_cons (h : Numeral body m) : ∃ c cs, body = c :: cs ∧ isDigit c := by
  cases h with
  | @positional whole fraction hne hwhole _ =>
    obtain ⟨c, cs, rfl⟩ := List.exists_cons_of_ne_nil hne
    exact ⟨c, cs ++ '.' :: fraction, rfl, hwhole c (by simp)⟩
  | scientific _ hfirst => exact ⟨_, _, rfl, hfirst⟩

theorem exists_not_isDigit (h : Numeral body m) : ∃ c ∈ body, isDigit c = false := by
  cases h with
  | positional => exact ⟨'.', by simp, by decide⟩
  | scientific => exact ⟨'e', by simp, by decide⟩

theorem isWordChar (h : Numeral body m) : ∀ c ∈ body, Token.isWordChar c := by
  cases h with
  | positional _ hwhole hfraction =>
    intro c hc
    rcases List.mem_append.mp hc with hc | hc
    · exact isWordChar_of_isDigit (hwhole c hc)
    · rcases List.mem_cons.mp hc with rfl | hc
      · decide
      · exact isWordChar_of_isDigit (hfraction c hc)
  | @scientific first fraction power negative hfirst hfraction _ hpower =>
    have hpoint : ∀ c ∈ pointText fraction, Token.isWordChar c := by
      unfold pointText
      split
      · simp
      · intro c hc
        rcases List.mem_cons.mp hc with rfl | hc
        · decide
        · exact isWordChar_of_isDigit (hfraction c hc)
    have hsign : Token.isWordChar (powerSign negative) := by cases negative <;> decide
    intro c hc
    simp only [List.mem_cons, List.mem_append] at hc
    rcases hc with rfl | hc | rfl | rfl | hc
    · exact isWordChar_of_isDigit hfirst
    · exact hpoint c hc
    · decide
    · exact hsign
    · exact isWordChar_of_isDigit (hpower c hc)

/-- A numeral is read as the magnitude that it spells. -/
theorem decimal?_eq {cs : List Char} {negative : Bool} (h : Numeral body m)
    (hsign : splitSign cs = (negative, body)) : decimal? cs = some (.signed negative m) := by
  unfold decimal?
  rw [hsign]
  cases h with
  | @positional whole fraction hne hwhole hfraction =>
    have hpointed : pointed? isDigit (whole ++ '.' :: fraction) =
        some (whole ++ fraction, fraction.length, []) := by
      have hnil := pointed?_point hwhole (by decide) (by simp [hne]) hfraction
        (show ∀ c ∈ [].head?, _ from nofun)
      rwa [List.append_nil] at hnil
    simp only [hpointed, Int.zero_sub]
  | @scientific first fraction power negative hfirst hfraction hne hpower =>
    have hwhole : ∀ c ∈ [first], isDigit c := by simpa using hfirst
    have hpointed : pointed? isDigit
        (first :: (pointText fraction ++ 'e' :: powerSign negative :: power)) =
        some (first :: fraction, fraction.length, 'e' :: powerSign negative :: power) := by
      unfold pointText
      split
      · next hnil =>
        rw [List.isEmpty_iff.mp hnil]
        exact pointed?_whole hwhole (by simp) fun c hc => by cases hc; decide
      · exact pointed?_point hwhole (by decide) (by simp) hfraction fun c hc => by cases hc; decide
    simp only [hpointed, integer?_powerSign hne hpower]
    rfl

end Numeral

/-! ## The text of a magnitude -/

/-- The sign that is written in front of a number. -/
def signText (negative : Bool) : List Char := if negative then ['-'] else []

namespace Decimal

theorem exists_toList_exponentText (layout : Layout) (e : Int) :
    ∃ power, power ≠ [] ∧ (∀ c ∈ power, isDigit c) ∧ ofDigits 10 power = e.natAbs ∧
      (layout.exponentText e).toList = 'e' :: powerSign (decide (e < 0)) :: power := by
  refine ⟨List.replicate (layout.exponentWidth - (Nat.toDigits 10 e.natAbs).length) '0' ++
    Nat.toDigits 10 e.natAbs, ?_, ?_, ?_, ?_⟩
  · simp [Nat.toDigits_ne_nil]
  · exact List.forall_mem_append.mpr
      ⟨fun _ => isDigit_of_mem_replicate, fun _ => isDigit_of_mem_toDigits⟩
  · rw [ofDigits_replicate_append, ofDigits_toDigits]
  · by_cases h : e < 0 <;> simp [Layout.exponentText, powerSign, h]

section Layouts

variable {digits : List Char} {lead : Int} (hdigits : ∀ c ∈ digits, isDigit c)
include hdigits

/-- Digits from the place `lead` on, all of them after the point. -/
theorem numeral_below_one (hlead : lead < 0) :
    Numeral ("0." ++ String.ofList (List.replicate (-lead - 1).toNat '0' ++ digits)).toList
      (.ofScaled 10 (ofDigits 10 digits) (lead + 1 - digits.length)) := by
  have hwhole : ∀ c ∈ ['0'], isDigit c := by simp; decide
  have hfraction : ∀ c ∈ List.replicate (-lead - 1).toNat '0' ++ digits, isDigit c :=
    List.forall_mem_append.mpr ⟨fun _ => isDigit_of_mem_replicate, hdigits⟩
  have hnumeral := Numeral.positional (by simp) hwhole hfraction
  have hvalue : ofDigits 10 (['0'] ++ (List.replicate (-lead - 1).toNat '0' ++ digits)) =
      ofDigits 10 digits := by
    rw [← List.append_assoc, ← List.replicate_one, List.replicate_append_replicate,
      ofDigits_replicate_append]
  have hexponent : -((List.replicate (-lead - 1).toNat '0' ++ digits).length : Int) =
      lead + 1 - digits.length := by
    rw [List.length_append, List.length_replicate]
    omega
  rw [hvalue, hexponent] at hnumeral
  simp only [String.toList_append, String.toList_ofList]
  exact hnumeral

/-- Digits from the place `lead` on, with the point after that of ones. -/
theorem numeral_from_one (hne : digits ≠ []) (hlead : 0 ≤ lead) {size : Nat}
    (hsize : size = lead.toNat + 1) :
    Numeral (String.ofList (digits.take size ++ List.replicate (size - digits.length) '0') ++ "." ++
        (if (digits.drop size).isEmpty then "0" else String.ofList (digits.drop size))).toList
      (.ofScaled 10 (ofDigits 10 digits) (lead + 1 - digits.length)) := by
  simp only [String.toList_append, String.toList_ofList]
  by_cases hlen : digits.length ≤ size
  · -- no digit is left for the fraction, so a zero stands there
    rw [List.drop_of_length_le hlen, List.take_of_length_le hlen]
    have hwhole : ∀ c ∈ digits ++ List.replicate (size - digits.length) '0', isDigit c :=
      List.forall_mem_append.mpr ⟨hdigits, fun _ => isDigit_of_mem_replicate⟩
    have hfraction : ∀ c ∈ ['0'], isDigit c := by simp; decide
    have hnumeral := Numeral.positional (by simp [hne]) hwhole hfraction
    have hvalue : ofDigits 10 (digits ++ List.replicate (size - digits.length) '0' ++ ['0']) =
        ofDigits 10 digits * 10 ^ (size - digits.length + 1) := by
      rw [← ofDigits_append_replicate, List.replicate_succ', List.append_assoc]
    have hexponent : (-(['0'].length : Int) + (size - digits.length + 1 : Nat)) =
        lead + 1 - digits.length := by
      rw [List.length_singleton]
      omega
    rw [hvalue, Magnitude.ofScaled_mul_pow, hexponent] at hnumeral
    simpa using hnumeral
  · have hzeros : size - digits.length = 0 := by omega
    have hempty : (digits.drop size).isEmpty = false := by
      rw [List.isEmpty_eq_false_iff, ne_eq, List.drop_eq_nil_iff]
      omega
    rw [hzeros, hempty]
    have hwhole : ∀ c ∈ digits.take size, isDigit c :=
      fun c hc => hdigits c (List.mem_of_mem_take hc)
    have hfraction : ∀ c ∈ digits.drop size, isDigit c :=
      fun c hc => hdigits c (List.mem_of_mem_drop hc)
    have hnumeral := Numeral.positional (by simp [hne, hsize]) hwhole hfraction
    have hexponent : -((digits.drop size).length : Int) = lead + 1 - digits.length := by
      rw [List.length_drop]
      omega
    rw [List.take_append_drop, hexponent] at hnumeral
    simpa using hnumeral

/-- Digits from the place `lead` on, with the point after the first. -/
theorem numeral_exponent (layout : Layout) (hne : digits ≠ []) :
    Numeral (String.ofList (digits.take 1) ++
        (if (digits.drop 1).isEmpty then "" else "." ++ String.ofList (digits.drop 1)) ++
        layout.exponentText lead).toList
      (.ofScaled 10 (ofDigits 10 digits) (lead + 1 - digits.length)) := by
  obtain ⟨first, fraction, rfl⟩ := List.exists_cons_of_ne_nil hne
  obtain ⟨power, hpne, hpower, hvalue, htext⟩ := exists_toList_exponentText layout lead
  have hfraction : ∀ c ∈ fraction, isDigit c := fun c hc => hdigits c (by simp [hc])
  have hnumeral := Numeral.scientific (decide (lead < 0)) (hdigits first (by simp)) hfraction
    hpne hpower
  have hlead : applySign (decide (lead < 0)) lead.natAbs = lead := by
    unfold applySign
    simp only [decide_eq_true_eq]
    split <;> omega
  have hexponent : lead - (fraction.length : Int) = lead + 1 - (first :: fraction).length := by
    rw [List.length_cons]
    omega
  have hpoint : (if fraction.isEmpty then "" else "." ++ String.ofList fraction).toList =
      pointText fraction := by
    unfold pointText
    split <;> simp
  rw [hvalue, hlead, hexponent] at hnumeral
  simp only [List.take_succ_cons, List.take_zero, List.drop_succ_cons, List.drop_zero,
    String.toList_append, String.toList_ofList, htext, hpoint]
  exact hnumeral

end Layouts

/-- The text of a positive decimal spells the magnitude it reads as. -/
theorem numeral_text (layout : Layout) {d : Decimal} (hd : d.coefficient ≠ 0) :
    Numeral (d.text layout).toList d.toMagnitude := by
  unfold text
  simp only
  generalize hdef : ((Nat.toDigits 10 d.coefficient).reverse.dropWhile (· == '0')).reverse = digits
  obtain ⟨hne, zeros, happend⟩ := exists_toDigits_eq_append hd hdef.symm
  generalize hlead : d.exponent + ((Nat.toDigits 10 d.coefficient).length - 1 : Nat) = lead
  have hdigits : ∀ c ∈ digits, isDigit c := by
    intro c hc
    refine isDigit_of_mem_toDigits (n := d.coefficient) ?_
    rw [happend]
    exact List.mem_append_left _ hc
  have hmagnitude : d.toMagnitude =
      .ofScaled 10 (ofDigits 10 digits) (lead + 1 - digits.length) := by
    have hlength : 0 < digits.length := List.length_pos_iff.mpr hne
    have hcoefficient : d.coefficient = ofDigits 10 digits * 10 ^ zeros := by
      rw [← ofDigits_append_replicate, ← happend, ofDigits_toDigits]
    have hexponent : d.exponent + zeros = lead + 1 - digits.length := by
      rw [← hlead, happend, List.length_append, List.length_replicate]
      omega
    rw [toMagnitude, hcoefficient, Magnitude.ofScaled_mul_pow, hexponent]
  rw [hmagnitude]
  split
  · split
    · next h => exact numeral_below_one hdigits h
    · next h => exact numeral_from_one hdigits hne (by omega) rfl
  · exact numeral_exponent hdigits layout hne

end Decimal

theorem numeral_zero : Numeral ['0', '.', '0'] .zero := by
  have hdigits : ∀ c ∈ ['0'], isDigit c := by simp; decide
  exact Numeral.positional (by simp) hdigits hdigits

theorem Decimal.coefficient_ne_zero {d : Decimal} (h : d.toMagnitude.rank ≠ 0) :
    d.coefficient ≠ 0 := by
  intro hzero
  rw [toMagnitude, Magnitude.ofScaled, if_pos hzero] at h
  exact h rfl

/-- The text of a finite number is a sign and a numeral that spells its magnitude. -/
theorem Double.exists_numeral_text {m : Magnitude} (hm : m.isInfinite = false) :
    ∃ body, Numeral body m ∧
      ∀ negative, (Double.signed negative m).text.toList = signText negative ++ body := by
  have hsign (negative : Bool) : (if negative then "-" else "").toList = signText negative := by
    cases negative <;> rfl
  unfold Double.text
  simp only [hm, String.toList_append, hsign]
  by_cases hzero : m.rank = 0
  · have hm : m = .zero := Magnitude.ext_rank hzero
    refine ⟨['0', '.', '0'], ?_, fun _ => by rw [if_pos hzero]; simp⟩
    rw [hm]
    exact numeral_zero
  · have hshortest := Decimal.toMagnitude_shortest m
    generalize Decimal.shortest m = d at hshortest ⊢
    subst hshortest
    have hnumeral := Decimal.numeral_text Double.layout (Decimal.coefficient_ne_zero hzero)
    exact ⟨_, hnumeral, fun _ => by rw [if_neg hzero]; simp⟩

end FuzzyRules
