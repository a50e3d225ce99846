import FuzzyRules.Proofs.Cursor
import FuzzyRules.Proofs.Lexing
import FuzzyRules.Session
import Mathlib.Order.Bounds.Basic

/-!
# Reading and the balance of parentheses

The balance of tokens is the number of opening ones less the number of closing ones. The
reader of a list needs no more than this counter to know where it stops: `readItems_outcome`
says that it stops at the closing token that takes the balance below the lists it was
started in, runs out of tokens if there is none, or stops earlier at a word that has no
value.
-/

namespace FuzzyRules

namespace Token

/-- The number of opening tokens less the number of closing tokens. -/
def balance (tokens : List Token) : Int :=
  (tokens.countP (·.kind = .opening) : Int) - tokens.countP (·.kind = .closing)

@[simp] theorem balance_nil : balance [] = 0 := rfl

theorem balance_append (ts us : List Token) : balance (ts ++ us) = balance ts + balance us := by
  simp only [balance, List.countP_append]; omega

theorem balance_cons (t : Token) (ts : List Token) : balance (t :: ts) = balance [t] + balance ts :=
  balance_append [t] ts

theorem balance_opening {t : Token} (h : t.kind = .opening) : balance [t] = 1 := by
  simp [balance, h]

theorem balance_closing {t : Token} (h : t.kind = .closing) : balance [t] = -1 := by
  simp [balance, h]

theorem balance_other {t : Token} (ho : t.kind ≠ .opening) (hc : t.kind ≠ .closing) :
    balance [t] = 0 := by
  simp [balance, ho, hc]

/-- Of `depth` open lists, some are still open after each token. -/
def StaysOpen (depth : Int) (tokens : List Token) : Prop :=
  ∀ before, before <+: tokens → 0 < depth + balance before

theorem staysOpen_nil {depth : Int} (h : 0 < depth) : StaysOpen depth [] := by
  intro before hb
  rw [List.prefix_nil.mp hb]
  simpa using h

theorem staysOpen_cons {depth : Int} {t : Token} {ts : List Token} (h : 0 < depth)
    (hts : StaysOpen (depth + balance [t]) ts) : StaysOpen depth (t :: ts) := by
  intro before hb
  rcases List.prefix_cons_iff.mp hb with rfl | ⟨more, rfl, hmore⟩
  · simpa using h
  · have := hts more hmore
    rw [balance_cons]
    omega

theorem StaysOpen.tail {depth : Int} {t : Token} {ts : List Token} (h : StaysOpen depth (t :: ts)) :
    StaysOpen (depth + balance [t]) ts := by
  intro before hb
  have hpos := h (t :: before) (List.prefix_cons_inj t |>.mpr hb)
  rw [balance_cons] at hpos
  omega

end Token

open Token

/-! ## Where the reader of a list stops -/

/-- What reading a list can come to, inside `depth` open lists and with no items so far if
`first`: the closing token that ends the outermost list, the end of the tokens, or a word
that has no value. -/
inductive Outcome (depth : Int) (first : Bool) (tokens : List Token) :
    Except ItemsError Value × List Token → Prop where
  | closed {v : Value} (used : List Token) {last : Token} {rest : List Token} :
      tokens = used ++ last :: rest → last.kind = .closing → StaysOpen depth used →
      depth + balance used = 1 → Outcome depth first tokens (.ok v, rest)
  | unmatched : StaysOpen depth tokens → Outcome depth first tokens (.error .unmatched, [])
  | stuck {error : Atom.Error} (before : List Token) {word : Token} {rest : List Token} :
      tokens = before ++ word :: rest → word.kind ≠ .opening → word.kind ≠ .closing →
      Atom.read word.text = .error error → StaysOpen depth before →
      (before = [] → first = false) → (∀ t ∈ before.getLast?, t.kind ≠ .opening) →
      Outcome depth first tokens (.error (.atom error), rest)

/-- One token more in front: the lists it leaves open, and whether it begins a list. -/
theorem Outcome.cons {depth : Int} {first : Bool} {t : Token} {ts : List Token}
    {result : Except ItemsError Value × List Token} (next : Bool) (hd : 0 < depth)
    (hnext : next = false → t.kind ≠ .opening)
    (h : Outcome (depth + balance [t]) next ts result) : Outcome depth first (t :: ts) result := by
  cases h with
  | closed used heq hlast hopen hbal =>
    refine .closed (t :: used) (by rw [heq]; rfl) hlast (staysOpen_cons hd hopen) ?_
    rw [balance_cons]
    omega
  | unmatched hopen => exact .unmatched (staysOpen_cons hd hopen)
  | stuck before heq ho hc hread hopen hfirst hlast =>
    refine .stuck (t :: before) (by rw [heq]; rfl) ho hc hread (staysOpen_cons hd hopen)
      nofun fun u hu => ?_
    cases before with
    | nil =>
      cases hu
      exact hnext (hfirst rfl)
    | cons b before => exact hlast u (by simpa using hu)

theorem readItems_outcome (items : List Value) (outer : List (List Value)) (tokens : List Token) :
    Outcome (outer.length + 1) items.isEmpty tokens (readItems items outer tokens) := by
  induction tokens generalizing items outer with
  | nil => exact .unmatched (staysOpen_nil (by omega))
  | cons t ts ih =>
    have hd : 0 < (outer.length + 1 : Int) := by omega
    unfold readItems
    split
    · next hk =>
      cases outer with
      | nil => exact .closed [] rfl hk (staysOpen_nil hd) (by simp)
      | cons above outer =>
        have hdepth : ((above :: outer).length + 1 : Int) + -1 = outer.length + 1 := by
          simp only [List.length_cons]; omega
        refine .cons false hd (by simp [hk]) ?_
        rw [balance_closing hk, hdepth]
        exact ih (.expr items.reverse :: above) outer
    · next hk =>
      refine .cons true hd (by simp) ?_
      rw [balance_opening hk]
      exact ih [] (items :: outer)
    · next hc ho =>
      cases hv : Atom.readAt items.isEmpty t.text with
      | ok v =>
        refine .cons false hd (fun _ => ho) ?_
        rw [balance_other ho hc, Int.add_zero]
        exact ih (v :: items) outer
      | error error =>
        rw [Atom.readAt] at hv
        split at hv
        · cases hv
        · next hfirst =>
          exact .stuck [] rfl ho hc hv (staysOpen_nil hd) (fun _ => by simpa using hfirst)
            (by simp)

/-! ## Forms that start with a parenthesis -/

/-- A word is read for its value if it is the only token, or if it stands in a list and not
at its head. -/
def IsInferred (tokens : List Token) (text : String) : Prop :=
  tokens = [⟨.atom, text⟩] ∨
    ∃ before after, tokens = before ++ ⟨.atom, text⟩ :: after ∧ 0 < balance before ∧
      ∀ t ∈ before.getLast?, t.kind ≠ .opening

theorem IsInferred.mem {tokens : List Token} {text : String} (h : IsInferred tokens text) :
    ⟨.atom, text⟩ ∈ tokens := by
  rcases h with rfl | ⟨before, after, rfl, -⟩ <;> simp

theorem readable_of_forall_mem {tokens : List Token}
    (h : ∀ t ∈ tokens, (Atom.read t.text).isOk = true) {text : String}
    (hinf : IsInferred tokens text) : ∃ v, Atom.read text = .ok v := by
  have hok := h _ hinf.mem
  cases hread : Atom.read text with
  | ok v => exact ⟨v, rfl⟩
  | error e => rw [hread] at hok; cases hok

/-- A word is reached and read for its value: it is the only token, or it stands in a list, not at
its head, and the first list is still open there. -/
def IsRead (tokens : List Token) (text : String) : Prop :=
  tokens = [⟨.atom, text⟩] ∨
    ∃ first before after, tokens = first :: (before ++ ⟨.atom, text⟩ :: after) ∧
      first.kind = .opening ∧ StaysOpen 1 before ∧ before ≠ [] ∧
      ∀ t ∈ before.getLast?, t.kind ≠ .opening

theorem IsRead.isInferred {tokens : List Token} {text : String} (h : IsRead tokens text) :
    IsInferred tokens text := by
  rcases h with rfl | ⟨first, before, after, rfl, hk, hopen, hne, hlast⟩
  · exact .inl rfl
  · refine .inr ⟨first :: before, after, rfl, ?_, fun t ht => ?_⟩
    · have hpos := hopen before (List.prefix_refl before)
      rw [balance_cons, balance_opening hk]
      omega
    · cases before with
      | nil => exact absurd rfl hne
      | cons b before => exact hlast t (by simpa using ht)

/-- The balance is zero after `k` tokens for the first time. -/
def Returns (tokens : List Token) (k : Nat) : Prop :=
  IsLeast {k | 1 ≤ k ∧ k ≤ tokens.length ∧ balance (tokens.take k) = 0} k

/-- What reading tokens as one list comes to, by the balance. -/
inductive ListResult (tokens : List Token) : Except ReadError Value → Prop where
  | whole (v : Value) : Returns tokens tokens.length → ListResult tokens (.ok v)
  | trailing (text : String) (k : Nat) : Returns tokens k → k < tokens.length →
      ListResult tokens (.error (.trailing text k))
  | unmatched : (∀ k, ¬ Returns tokens k) →
      ListResult tokens (.error (.unmatched tokens.length))

section Opening

variable {t : Token} {ts : List Token} (hk : t.kind = .opening)
include hk

theorem balance_take_ne_zero {used : List Token} (rest : List Token) {k : Nat}
    (hopen : StaysOpen 1 used)
    (h1 : 1 ≤ k) (hle : k ≤ used.length + 1) : balance ((t :: (used ++ rest)).take k) ≠ 0 := by
  obtain ⟨j, rfl⟩ : ∃ j, k = j + 1 := ⟨k - 1, by omega⟩
  have hpos := hopen (used.take j) (List.take_prefix j used)
  rw [List.take_succ_cons, List.take_append_of_le_length (by omega), balance_cons,
    balance_opening hk]
  omega

theorem returns_of_closed {used rest : List Token} {last : Token} (hlast : last.kind = .closing)
    (hopen : StaysOpen 1 used) (hbal : balance used = 0) :
    Returns (t :: (used ++ last :: rest)) (used.length + 2) := by
  have htake : (t :: (used ++ last :: rest)).take (used.length + 2) = t :: (used ++ [last]) := by
    simp [List.take_append, List.take_of_length_le]
  refine ⟨⟨by omega, by simp, ?_⟩, fun k ⟨h1, _, h0⟩ => ?_⟩
  · rw [htake, balance_cons, balance_append, balance_opening hk, balance_closing hlast]
    omega
  · by_contra hlt
    exact balance_take_ne_zero hk (last :: rest) hopen h1 (by omega) h0

theorem not_returns_of_staysOpen (hopen : StaysOpen 1 ts) (k : Nat) : ¬ Returns (t :: ts) k := by
  rintro ⟨⟨h1, hle, h0⟩, -⟩
  rw [List.length_cons] at hle
  exact balance_take_ne_zero hk [] hopen h1 hle (by simpa using h0)

/-- A list is read as far as the balance says, unless a word in it has no value. -/
theorem listResult_or_isRead (hlex : ∀ u ∈ ts, Lexed u) :
    ListResult (t :: ts) (readTokens (t :: ts)) ∨
      ∃ error text, readTokens (t :: ts) = .error (.atom error) ∧ IsRead (t :: ts) text ∧
        Atom.read text = .error error := by
  have houtcome := readItems_outcome [] [] ts
  rw [List.length_nil, Int.natCast_zero, Int.zero_add] at houtcome
  generalize hread : readItems [] [] ts = result at houtcome
  cases houtcome with
  | @closed v used last rest heq hlast hopen hbal =>
    have hreturns : Returns (t :: ts) (used.length + 2) := by
      rw [heq]
      exact returns_of_closed hk hlast hopen (by omega)
    have hlength : (t :: ts).length = used.length + 2 + rest.length := by
      rw [heq]; simp only [List.length_cons, List.length_append]; omega
    cases rest with
    | nil =>
      rw [readTokens_whole hk hread]
      exact .inl (.whole v (hlength ▸ hreturns))
    | cons u rest =>
      rw [readTokens_trailing hk (used ++ [last]) hread (by simpa using heq), List.length_append]
      refine .inl (.trailing u.text _ hreturns ?_)
      simp only [hlength, List.length_cons, List.length_nil]
      omega
  | unmatched hopen =>
    rw [readTokens_unmatched hk hread]
    exact .inl (.unmatched (not_returns_of_staysOpen hk hopen))
  | @stuck error before word rest heq ho hc hword hopen hfirst hlast =>
    refine .inr ⟨error, word.text, readTokens_stuck hk hread, ?_, hword⟩
    have hatom : word = ⟨.atom, word.text⟩ := by
      cases hlex word (by simp [heq]) with
      | opening => exact absurd rfl ho
      | closing => exact absurd rfl hc
      | atom _ => rfl
    refine .inr ⟨t, before, rest, by rw [heq, ← hatom], hk, hopen, fun hnil => ?_, hlast⟩
    cases hfirst hnil

theorem listResult_or_isInferred (hlex : ∀ u ∈ ts, Lexed u) :
    ListResult (t :: ts) (readTokens (t :: ts)) ∨
      ∃ error text, readTokens (t :: ts) = .error (.atom error) ∧ IsInferred (t :: ts) text ∧
        Atom.read text = .error error := by
  refine (listResult_or_isRead hk hlex).imp_right ?_
  rintro ⟨error, text, hread, h, hword⟩
  exact ⟨error, text, hread, h.isInferred, hword⟩

end Opening

/-! ## Errors by balance -/

/-- The classes of syntax errors. -/
inductive SyntaxFault where
  | unexpectedEnd
  | expectedOpening
  | tooManyTokens

/-- The class of an error, unless it is no syntax error. -/
def ReadError.fault? : ReadError → Option SyntaxFault
  | noToken _ | unmatched _ => some .unexpectedEnd
  | notOpening _ _ => some .expectedOpening
  | trailing _ _ => some .tooManyTokens
  | atom _ | outOfRange => none

/-- Reading fails with a syntax error of this class at this position. -/
def Raises (result : Except ReadError Value) (fault : SyntaxFault) (position : Int) : Prop :=
  ∃ error, result = .error error ∧ error.fault? = some fault ∧ error.position? = some position

@[simp] theorem not_raises_ok (v : Value) (fault : SyntaxFault) (position : Int) :
    ¬ Raises (.ok v) fault position := by
  rintro ⟨_, h, -⟩; cases h

@[simp] theorem raises_error (error : ReadError) (fault : SyntaxFault) (position : Int) :
    Raises (.error error) fault position ↔
      error.fault? = some fault ∧ error.position? = some position := by
  constructor
  · rintro ⟨_, h, hf, hp⟩; cases h; exact ⟨hf, hp⟩
  · rintro ⟨hf, hp⟩; exact ⟨error, rfl, hf, hp⟩

namespace ListResult

variable {tokens : List Token} {result : Except ReadError Value}

theorem ok_iff (h : ListResult tokens result) :
    (∃ v, result = .ok v) ↔ Returns tokens tokens.length := by
  cases h with
  | whole v hret => exact iff_of_true ⟨v, rfl⟩ hret
  | trailing text k hret hlt =>
    exact iff_of_false nofun fun h => absurd (hret.unique h) (by omega)
  | unmatched hnone => exact iff_of_false nofun (hnone _)

theorem tooManyTokens_iff (h : ListResult tokens result) (k : Nat) :
    Raises result .tooManyTokens k ↔ Returns tokens k ∧ k < tokens.length := by
  cases h with
  | whole v hret =>
    exact iff_of_false (not_raises_ok _ _ _) fun ⟨h, hlt⟩ => absurd (hret.unique h) (by omega)
  | trailing text j hret hlt =>
    simp only [raises_error, ReadError.fault?, ReadError.position?, Option.some.injEq, true_and]
    constructor
    · intro h
      obtain rfl : j = k := by omega
      exact ⟨hret, hlt⟩
    · rintro ⟨hk, -⟩
      rw [hret.unique hk]
  | unmatched hnone =>
    exact iff_of_false (by simp [ReadError.fault?]) fun ⟨h, _⟩ => hnone k h

theorem unexpectedEnd_iff (h : ListResult tokens result) (position : Int) :
    Raises result .unexpectedEnd position ↔
      position = tokens.length ∧ ¬ ∃ k, Returns tokens k := by
  cases h with
  | whole v hret => exact iff_of_false (not_raises_ok _ _ _) fun ⟨_, h⟩ => h ⟨_, hret⟩
  | trailing text k hret hlt =>
    exact iff_of_false (by simp [ReadError.fault?]) fun ⟨_, h⟩ => h ⟨k, hret⟩
  | unmatched hnone => simp [ReadError.fault?, ReadError.position?, hnone, eq_comm]

theorem not_expectedOpening (h : ListResult tokens result) (position : Int) :
    ¬ Raises result .expectedOpening position := by
  cases h <;> simp [ReadError.fault?]

theorem ok_or_raises (h : ListResult tokens result) :
    (∃ v, result = .ok v) ∨ ∃ fault position, Raises result fault position := by
  cases h with
  | whole v _ => exact .inl ⟨v, rfl⟩
  | trailing text k _ _ => exact .inr ⟨.tooManyTokens, k, _, rfl, rfl, rfl⟩
  | unmatched _ => exact .inr ⟨.unexpectedEnd, tokens.length, _, rfl, rfl, rfl⟩

end ListResult

/-- Reading gives a value, or fails with a syntax error, or at a word that is read and has no
value. -/
theorem readTokens_cases {tokens : List Token} (hlex : ∀ t ∈ tokens, Lexed t) :
    (∃ v, readTokens tokens = .ok v) ∨
      (∃ fault position, Raises (readTokens tokens) fault position) ∨
      ∃ error text, readTokens tokens = .error (.atom error) ∧ IsRead tokens text ∧
        Atom.read text = .error error := by
  cases tokens with
  | nil => exact .inr (.inl ⟨.unexpectedEnd, 0, _, readTokens_nil, rfl, rfl⟩)
  | cons t ts =>
    have hts : ∀ u ∈ ts, Lexed u := fun u hu => hlex u (by simp [hu])
    by_cases hk : t.kind = .opening
    · rcases listResult_or_isRead hk hts with hr | hr
      · exact hr.ok_or_raises.imp_right .inl
      · exact .inr (.inr hr)
    · by_cases hlone : ts = [] ∧ t.kind = .atom
      · obtain ⟨rfl, ha⟩ := hlone
        obtain ⟨kind, text⟩ := t
        cases ha
        rw [readTokens_word]
        cases hread : Atom.read text with
        | ok v => exact .inl ⟨v, rfl⟩
        | error e => exact .inr (.inr ⟨e, text, rfl, .inl rfl, hread⟩)
      · rw [readTokens_notOpening hk fun hts ha => hlone ⟨hts, ha⟩]
        exact .inr (.inl ⟨.expectedOpening, 0, _, rfl, rfl, rfl⟩)

/-- Reading fails for want of a value only at a word that is read. -/
theorem exists_isInferred {tokens : List Token} {error : Atom.Error}
    (hlex : ∀ t ∈ tokens, Lexed t) (h : readTokens tokens = .error (.atom error)) :
    ∃ text, IsInferred tokens text ∧ Atom.read text = .error error := by
  rcases readTokens_cases hlex with ⟨v, hv⟩ | ⟨fault, position, hraises⟩ | ⟨e, text, he, hr, hread⟩
  · rw [hv] at h
    cases h
  · rw [h, raises_error] at hraises
    cases hraises.1
  · rw [he] at h
    cases h
    exact ⟨text, hr.isInferred, hread⟩

theorem result_parse (source : String) :
    (parse source).result = readTokens (tokenize source) := by
  rw [parse, readProgram]
  split <;> simp_all

theorem parse_result_by_balance (source : String)
    (readable : ∀ text, IsInferred (tokenize source) text → ∃ v, Atom.read text = .ok v) :
    (Raises (parse source).result .unexpectedEnd 0 ↔ (tokenize source).length = 0) ∧
    (∀ text, tokenize source = [⟨.atom, text⟩] → ∃ v, (parse source).result = .ok v) ∧
    ∀ first rest, tokenize source = first :: rest → ¬ (rest = [] ∧ first.kind = .atom) →
      (Raises (parse source).result .expectedOpening 0 ↔ first.kind ≠ .opening) ∧
      (first.kind = .opening →
        ((∃ v, (parse source).result = .ok v) ↔
          Returns (tokenize source) (tokenize source).length) ∧
        (∀ k : Nat, Raises (parse source).result .tooManyTokens k ↔
          Returns (tokenize source) k ∧ k < (tokenize source).length) ∧
        (Raises (parse source).result .unexpectedEnd (tokenize source).length ↔
          ¬ ∃ k, Returns (tokenize source) k)) := by
  have hlex : ∀ t ∈ tokenize source, Lexed t := lexed_tokenize
  rw [result_parse]
  generalize tokenize source = tokens at readable hlex
  cases tokens with
  | nil =>
    rw [readTokens_nil]
    simp [ReadError.fault?, ReadError.position?]
  | cons t ts =>
    have hts : ∀ u ∈ ts, Lexed u := fun u hu => hlex u (by simp [hu])
    by_cases hk : t.kind = .opening
    · rcases listResult_or_isInferred hk hts with hr | ⟨e, text, -, hinf, hread⟩
      · refine ⟨?_, fun text h => (by cases h; cases hk), ?_⟩
        · rw [hr.unexpectedEnd_iff]
          simp only [List.length_cons]
          omega
        · rintro _ _ ⟨⟩ -
          refine ⟨iff_of_false (hr.not_expectedOpening 0) fun h => h hk, fun _ => ?_⟩
          refine ⟨hr.ok_iff, hr.tooManyTokens_iff, ?_⟩
          rw [hr.unexpectedEnd_iff]
          simp
      · obtain ⟨v, hv⟩ := readable text hinf
        rw [hv] at hread
        cases hread
    · by_cases hlone : ts = [] ∧ t.kind = .atom
      · obtain ⟨rfl, ha⟩ := hlone
        obtain ⟨kind, text⟩ := t
        cases ha
        obtain ⟨v, hv⟩ := readable text (.inl rfl)
        have hr : readTokens [⟨.atom, text⟩] = .ok v := by rw [readTokens_word, hv]; rfl
        rw [hr]
        refine ⟨by simp, fun _ _ => ⟨v, rfl⟩, ?_⟩
        rintro _ _ ⟨⟩ h
        exact absurd ⟨rfl, rfl⟩ h
      · rw [readTokens_notOpening hk fun h ha => hlone ⟨h, ha⟩]
        refine ⟨by simp [ReadError.fault?], fun text h => ?_, ?_⟩
        · cases h
          exact absurd ⟨rfl, rfl⟩ hlone
        · rintro _ _ ⟨⟩ -
          exact ⟨by simp [ReadError.fault?, ReadError.position?, hk], fun h => absurd h hk⟩

theorem parse_result_by_balance_two_forms :
    (∀ text, IsInferred (tokenize "(f (g 2)) (h)") text → ∃ v, Atom.read text = .ok v) ∧
      Raises (parse "(f (g 2)) (h)").result .tooManyTokens 7 ∧
      Returns (tokenize "(f (g 2)) (h)") 7 := by
  have readable {text : String} (h : IsInferred (tokenize "(f (g 2)) (h)") text) :
      ∃ v, Atom.read text = .ok v := readable_of_forall_mem (by decide) h
  have hraises : Raises (parse "(f (g 2)) (h)").result .tooManyTokens (7 : Nat) :=
    ⟨.trailing "(" 7, rfl, rfl, rfl⟩
  have hlist := (parse_result_by_balance _ fun _ => readable).2.2 _ _ rfl (by decide)
  exact ⟨fun _ => readable, hraises, (((hlist.2 rfl).2.1 7).mp hraises).1⟩

end FuzzyRules
