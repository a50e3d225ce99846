import FuzzyRules.Proofs.Cursor

/-!
# Forms at an offset

The reader of a list consumes tokens from the front, and what follows them has no part in the
result (`exists_readItems_append`). So a list is a property of its own tokens (`ListTokens`), and a
form is read at a position exactly if the tokens of a list stand there, or if the sequence is a lone
word (`readForm_eq_ok_iff`). Lists in a row are then read one after the other (`readForms_lists`).
-/

namespace FuzzyRules

/-! ## Tokens consumed -/

section Kinds

variable {t : Token} (items above : List Value) (outer : List (List Value)) (rest : List Token)

theorem readItems_opening (hk : t.kind = .opening) :
    readItems items outer (t :: rest) = readItems [] (items :: outer) rest := by
  rw [readItems.eq_def]
  simp only [hk]

theorem readItems_closing_outermost (hk : t.kind = .closing) :
    readItems items [] (t :: rest) = (.ok (.expr items.reverse), rest) := by
  rw [readItems.eq_def]
  simp only [hk]

theorem readItems_closing (hk : t.kind = .closing) :
    readItems items (above :: outer) (t :: rest) =
      readItems (.expr items.reverse :: above) outer rest := by
  rw [readItems.eq_def]
  simp only [hk]

theorem readItems_other (ho : t.kind ≠ .opening) (hc : t.kind ≠ .closing) :
    readItems items outer (t :: rest) =
      match Atom.readAt items.isEmpty t.text with
      | .ok v => readItems (v :: items) outer rest
      | .error error => (.error (.atom error), rest) := by
  obtain ⟨kind, text⟩ := t
  cases kind with
  | opening => exact absurd rfl ho
  | closing => exact absurd rfl hc
  | blank | atom => rfl

end Kinds

/-- What follows the tokens consumed does not matter. By induction on the tokens, for all items and
all open lists. -/
theorem exists_readItems_append {items : List Value} {outer : List (List Value)}
    {tokens rest : List Token} {v : Value} (h : readItems items outer tokens = (.ok v, rest)) :
    ∃ used, tokens = used ++ rest ∧
      ∀ after, readItems items outer (used ++ after) = (.ok v, after) := by
  induction tokens generalizing items outer with
  | nil => cases h
  | cons t ts ih =>
    -- a token after which the reader goes on
    have hstep {items' : List Value} {outer' : List (List Value)}
        (ht : ∀ ts, readItems items outer (t :: ts) = readItems items' outer' ts) :
        ∃ used, t :: ts = used ++ rest ∧
          ∀ after, readItems items outer (used ++ after) = (.ok v, after) := by
      rw [ht] at h
      obtain ⟨used, rfl, hused⟩ := ih h
      exact ⟨t :: used, rfl, fun after => (ht _).trans (hused after)⟩
    by_cases ho : t.kind = .opening
    · exact hstep fun ts => readItems_opening items outer ts ho
    by_cases hc : t.kind = .closing
    · cases outer with
      | nil =>
        rw [readItems_closing_outermost _ _ hc] at h
        cases h
        exact ⟨[t], rfl, fun after => readItems_closing_outermost items after hc⟩
      | cons above outer => exact hstep fun ts => readItems_closing items above outer ts hc
    · cases hread : Atom.readAt items.isEmpty t.text with
      | ok w => exact hstep fun ts => by rw [readItems_other _ _ _ ho hc, hread]
      | error error =>
        rw [readItems_other _ _ _ ho hc, hread] at h
        cases h

/-- The tokens of one list with its value: an opening token, and the items up to the closing token
that ends the list, whatever follows. -/
def ListTokens (ts : List Token) (v : Value) : Prop :=
  ∃ t body, ts = t :: body ∧ t.kind = .opening ∧
    ∀ after, readItems [] [] (body ++ after) = (.ok v, after)

/-! ## Reading at a position -/

namespace Cursor

theorem peek_natCast (tokens : List Token) (i : Nat) :
    peek ⟨tokens.toArray, i⟩ = .ok tokens[i]? := by
  unfold peek
  simp only [tokenAt?_natCast, List.size_toArray, Int.ofNat_lt]
  split
  · next hlt => rw [List.getElem?_eq_getElem hlt]
  · next hge => rw [List.getElem?_eq_none (by omega)]

theorem readForm_opening {tokens : List Token} {i : Nat} {t : Token} (ht : tokens[i]? = some t)
    (hk : t.kind = .opening) :
    readForm ⟨tokens.toArray, i⟩ = readList ⟨tokens.toArray, i⟩ := by
  rw [readForm, peek_natCast, ht]
  simp [hk]

/-- A list is read by its items; the reader does not look at the token in front of them. -/
theorem readList_eq_ok_iff {tokens rest : List Token} {i : Nat} {t : Token} {v : Value}
    {stop : Cursor} (hi : tokens.drop i = t :: rest) :
    readList ⟨tokens.toArray, i⟩ = (.ok v, stop) ↔
      ∃ left, readItems [] [] rest = (.ok v, left) ∧
        stop = ⟨tokens.toArray, i + (rest.length + 1 - left.length : Nat)⟩ := by
  rw [readList, ahead?_natCast, hi]
  simp only [List.tail_cons, List.length_cons, move]
  rcases readItems [] [] rest with ⟨error | w, left⟩
  · cases error <;> simp
  · simp only [Prod.mk.injEq, Except.ok.injEq]
    grind

/-- The tokens of a list are read wherever they stand. -/
theorem readForm_listTokens {ts : List Token} {v : Value} (h : ListTokens ts v)
    (before after : List Token) :
    readForm ⟨(before ++ ts ++ after).toArray, before.length⟩ =
      (.ok v, ⟨(before ++ ts ++ after).toArray, (before.length + ts.length : Nat)⟩) := by
  obtain ⟨t, body, rfl, hk, hbody⟩ := h
  have hdrop : (before ++ t :: body ++ after).drop before.length = t :: (body ++ after) := by simp
  have ht : (before ++ t :: body ++ after)[before.length]? = some t := by simp
  rw [readForm_opening ht hk, readList_eq_ok_iff hdrop]
  refine ⟨after, hbody after, ?_⟩
  simp only [mk.injEq, true_and, List.length_append, List.length_cons]
  omega

end Cursor

/-- A form of `size` tokens with its value stands at an index: a list, or the word of a sequence of
one word. -/
inductive FormAt : List Token → Nat → Value → Nat → Prop where
  | word {text : String} {v : Value} : Atom.read text = .ok v → FormAt [⟨.atom, text⟩] 0 v 1
  | list {ts : List Token} {v : Value} (before after : List Token) : ListTokens ts v →
      FormAt (before ++ ts ++ after) before.length v ts.length

namespace Cursor

section Found

variable {tokens : List Token} {i : Nat} {t : Token} {v : Value} {stop : Cursor}
  (ht : tokens[i]? = some t) (h : readForm ⟨tokens.toArray, i⟩ = (.ok v, stop))
include ht h

theorem exists_formAt_of_opening (hk : t.kind = .opening) :
    ∃ size, FormAt tokens i v size ∧ stop = ⟨tokens.toArray, (i + size : Nat)⟩ := by
  obtain ⟨hlt, hget⟩ := List.getElem?_eq_some_iff.mp ht
  have hdrop : tokens.drop i = t :: tokens.drop (i + 1) := by
    rw [List.drop_eq_getElem_cons hlt, hget]
  rw [readForm_opening ht hk, readList_eq_ok_iff hdrop] at h
  obtain ⟨left, hread, rfl⟩ := h
  obtain ⟨used, hused, hlist⟩ := exists_readItems_append hread
  have hform := FormAt.list (tokens.take i) left ⟨t, used, rfl, hk, hlist⟩
  rw [List.append_assoc, List.cons_append, ← hused, ← hdrop, List.take_append_drop,
    List.length_take_of_le (Nat.le_of_lt hlt)] at hform
  refine ⟨_, hform, ?_⟩
  rw [hused]
  simp only [mk.injEq, true_and, List.length_append, List.length_cons]
  omega

/-- Without an opening token there is a form only if its token is a word and the only one. -/
theorem exists_formAt_of_word (hk : t.kind ≠ .opening) :
    ∃ size, FormAt tokens i v size ∧ stop = ⟨tokens.toArray, (i + size : Nat)⟩ := by
  rw [readForm, peek_natCast, ht] at h
  simp only [List.size_toArray, hk, if_false] at h
  split at h
  · next hlone =>
    obtain ⟨hatom, hsize⟩ := hlone
    obtain ⟨⟨kind, text⟩, rfl⟩ := List.length_eq_one_iff.mp hsize
    obtain ⟨hlt, rfl⟩ := List.getElem?_eq_some_iff.mp ht
    obtain rfl : i = 0 := by simpa using hlt
    obtain rfl : kind = .atom := hatom
    cases hread : Atom.read text with
    | error error =>
      rw [List.getElem_cons_zero, hread] at h
      cases h
    | ok w =>
      rw [List.getElem_cons_zero, hread] at h
      cases h
      exact ⟨1, .word hread, rfl⟩
  · cases h

end Found

/-- Reading finds the form at the position, and stops after it. -/
theorem readForm_eq_ok_iff {tokens : List Token} {i : Nat} {v : Value} {stop : Cursor} :
    readForm ⟨tokens.toArray, i⟩ = (.ok v, stop) ↔
      ∃ size, FormAt tokens i v size ∧ stop = ⟨tokens.toArray, (i + size : Nat)⟩ := by
  constructor
  · intro h
    cases ht : tokens[i]? with
    | none =>
      rw [readForm, peek_natCast, ht] at h
      cases h
    | some t =>
      by_cases hk : t.kind = .opening
      · exact exists_formAt_of_opening ht h hk
      · exact exists_formAt_of_word ht h hk
  · rintro ⟨size, @⟨text, _, hread⟩ | ⟨before, after, hlist⟩, rfl⟩
    · have hlone : readForm ⟨[⟨.atom, text⟩].toArray, (0 : Nat)⟩ =
          ((Atom.read text).mapError .atom, ⟨[⟨.atom, text⟩].toArray, 1⟩) := by
        rw [readForm, peek_natCast]
        rfl
      rw [hlone, hread]
      rfl
    · exact readForm_listTokens hlist before after

/-- Read forms one after the other, each from where the last one ended. -/
def readForms (c : Cursor) : Nat → List (Except ReadError Value) × Cursor
  | 0 => ([], c)
  | count + 1 =>
    let (result, next) := c.readForm
    let (results, last) := next.readForms count
    (result :: results, last)

theorem readForms_succ {c next : Cursor} {result : Except ReadError Value} (count : Nat)
    (h : c.readForm = (result, next)) :
    c.readForms (count + 1) =
      (result :: (next.readForms count).1, (next.readForms count).2) := by
  rw [readForms, h]

/-- Lists in a row are read in order. By induction on the lists, behind any tokens. -/
theorem readForms_lists {lists : List (List Token × Value)} (h : ∀ l ∈ lists, ListTokens l.1 l.2)
    (before after : List Token) :
    readForms ⟨(before ++ lists.flatMap Prod.fst ++ after).toArray, before.length⟩ lists.length =
      (lists.map fun l => .ok l.2,
        ⟨(before ++ lists.flatMap Prod.fst ++ after).toArray,
          (before.length + (lists.flatMap Prod.fst).length : Nat)⟩) := by
  induction lists generalizing before with
  | nil => rfl
  | cons l lists ih =>
    obtain ⟨ts, v⟩ := l
    have hlist := readForm_listTokens (h (ts, v) List.mem_cons_self) before
      (lists.flatMap Prod.fst ++ after)
    have hrest := ih (fun l hl => h l (List.mem_cons_of_mem _ hl)) (before ++ ts)
    have htokens : before ++ (ts ++ lists.flatMap Prod.fst) ++ after =
        before ++ ts ++ (lists.flatMap Prod.fst ++ after) := by simp only [List.append_assoc]
    rw [List.append_assoc (before ++ ts), List.length_append] at hrest
    rw [List.flatMap_cons, List.length_cons, htokens, readForms_succ _ hlist, hrest,
      List.length_append, Nat.add_assoc, List.map_cons]

end Cursor

/-! ## Forms of their own -/

section Forms

variable {tokens ts : List Token} {i : Nat} {v : Value} {stop : Int}

theorem readFormAt_eq_ok_iff :
    readFormAt tokens i = .ok (v, stop) ↔ ∃ size, FormAt tokens i v size ∧ stop = i + size := by
  have hlast : readFormAt tokens i = .ok (v, stop) ↔
      ∃ last, Cursor.readForm ⟨tokens.toArray, i⟩ = (.ok v, last) ∧ last.position = stop := by
    rw [readFormAt]
    rcases Cursor.readForm ⟨tokens.toArray, i⟩ with ⟨error | w, last⟩ <;>
      simp [Except.map, and_assoc]
  rw [hlast]
  simp only [Cursor.readForm_eq_ok_iff]
  constructor
  · rintro ⟨_, ⟨size, hsize, rfl⟩, rfl⟩
    exact ⟨size, hsize, Int.natCast_add ..⟩
  · rintro ⟨size, hsize, rfl⟩
    exact ⟨_, ⟨size, hsize, rfl⟩, Int.natCast_add ..⟩

theorem readFormAt_zero_eq_ok_iff :
    readFormAt tokens 0 = .ok (v, stop) ↔ ∃ size, FormAt tokens 0 v size ∧ stop = (size : Int) := by
  have h := @readFormAt_eq_ok_iff tokens 0 v stop
  simpa only [Int.natCast_zero, Int.zero_add] using h

/-- A form has at least one token, and lies within the sequence. -/
theorem FormAt.bounds {size : Nat} (h : FormAt tokens i v size) :
    0 < size ∧ i + size ≤ tokens.length := by
  cases h with
  | word => exact ⟨Nat.one_pos, Nat.le_refl 1⟩
  | list before after hlist =>
    obtain ⟨t, body, rfl, -, -⟩ := hlist
    simp only [List.length_append, List.length_cons]
    omega

/-- The tokens of a form are that form when they stand alone. -/
theorem FormAt.alone {size : Nat} (h : FormAt tokens i v size) :
    FormAt ((tokens.drop i).take size) 0 v size := by
  cases h with
  | word hread => exact .word hread
  | @list ts _ before after hlist =>
    have halone := FormAt.list [] [] hlist
    rw [List.append_assoc, List.drop_left, List.take_left]
    rwa [List.nil_append, List.append_nil] at halone

/-- A form that begins with an opening token and takes up the whole sequence is a list. -/
theorem FormAt.listTokens {size : Nat} (h : FormAt ts i v size) (hi : i = 0)
    (hsize : size = ts.length) (hopen : ts.head?.map Token.kind = some .opening) :
    ListTokens ts v := by
  cases h with
  | word => cases hopen
  | list before after hlist =>
    rw [List.length_append, List.length_append] at hsize
    obtain rfl := List.eq_nil_of_length_eq_zero hi
    obtain rfl := List.eq_nil_of_length_eq_zero (show after.length = 0 by omega)
    rwa [List.nil_append, List.append_nil]

theorem listTokens_of_readFormAt (hopen : ts.head?.map Token.kind = some .opening)
    (h : readFormAt ts 0 = .ok (v, (ts.length : Int))) : ListTokens ts v := by
  obtain ⟨size, hform, hsize⟩ := readFormAt_zero_eq_ok_iff.mp h
  exact hform.listTokens rfl (by omega) hopen

theorem listTokens_of_readTokens (hopen : ts.head?.map Token.kind = some .opening)
    (h : readTokens ts = .ok v) : ListTokens ts v := by
  rw [readTokens] at h
  split at h
  · cases h
  · next w stop hread =>
    obtain ⟨size, hform, rfl⟩ := readFormAt_zero_eq_ok_iff.mp hread
    have hbounds := hform.bounds
    split at h
    · cases h
    · next hend =>
      cases h
      rw [List.getElem?_eq_none_iff] at hend
      exact hform.listTokens rfl (by omega) hopen

end Forms

/-- Reading a form depends on the tokens of that form only. A list that is read alone is read alike
between any other tokens; what is read anywhere lies within the sequence and is read alike alone;
and programs that are lists, in a row, are read in order by one cursor up to the end. -/
theorem readFormAt_local :
    (∀ (before ts after : List Token) (v : Value), ts.head?.map Token.kind = some .opening →
      readFormAt ts 0 = .ok (v, (ts.length : Int)) →
      readFormAt (before ++ ts ++ after) before.length =
        .ok (v, (before.length + ts.length : Int))) ∧
    (∀ (tokens : List Token) (start stop : Int) (v : Value), 0 ≤ start →
      readFormAt tokens start = .ok (v, stop) →
      start < stop ∧ stop ≤ tokens.length ∧
        readFormAt ((tokens.drop start.toNat).take (stop - start).toNat) 0 =
          .ok (v, stop - start)) ∧
    ∀ programs : List (List Token × Value),
      (∀ p ∈ programs, p.1.head?.map Token.kind = some .opening ∧ readTokens p.1 = .ok p.2) →
      Cursor.readForms ⟨(programs.flatMap Prod.fst).toArray, 0⟩ programs.length =
        (programs.map fun p => .ok p.2,
          ⟨(programs.flatMap Prod.fst).toArray, (programs.flatMap Prod.fst).length⟩) := by
  refine ⟨?_, ?_, ?_⟩
  · intro before ts after v hopen h
    have hlist := listTokens_of_readFormAt hopen h
    exact readFormAt_eq_ok_iff.mpr ⟨_, .list before after hlist, rfl⟩
  · intro tokens start stop v hstart h
    obtain ⟨i, rfl⟩ := Int.eq_ofNat_of_zero_le hstart
    obtain ⟨size, hform, rfl⟩ := readFormAt_eq_ok_iff.mp h
    have hbounds := hform.bounds
    have hsize : ((i : Int) + size - i).toNat = size := by omega
    refine ⟨by omega, by omega, ?_⟩
    rw [hsize, Int.toNat_natCast]
    exact readFormAt_zero_eq_ok_iff.mpr ⟨size, hform.alone, by omega⟩
  · intro programs h
    have hlists : ∀ p ∈ programs, ListTokens p.1 p.2 := fun p hp =>
      listTokens_of_readTokens (h p hp).1 (h p hp).2
    have hread := Cursor.readForms_lists hlists [] []
    rwa [List.nil_append, List.append_nil, List.length_nil, Nat.zero_add] at hread

/-- A list inside a list, with a blank token as its head: among other tokens, and twice in a row. -/
theorem readFormAt_local_nested :
    let ts : List Token :=
      [.openParen, ⟨.blank, "f"⟩, .openParen, ⟨.atom, "g"⟩, ⟨.atom, "-1"⟩, .closeParen, .closeParen]
    let v : Value := .expr [.str "f", .expr [.str "g", .int (-1)]]
    let sequence := [⟨.atom, "x"⟩, .closeParen] ++ ts ++ [.openParen]
    ts.head?.map Token.kind = some .opening ∧ readFormAt ts 0 = .ok (v, 7) ∧
      readTokens ts = .ok v ∧
      readFormAt sequence 2 = .ok (v, 9) ∧ readFormAt ((sequence.drop 2).take 7) 0 = .ok (v, 7) ∧
      Cursor.readForms ⟨(ts ++ ts).toArray, 0⟩ 2 =
        ([.ok v, .ok v], ⟨(ts ++ ts).toArray, 14⟩) := by
  intro ts v sequence
  obtain ⟨hbetween, halone, hrow⟩ := readFormAt_local
  have hlist : ListTokens ts v := ⟨_, _, rfl, rfl, fun _ => rfl⟩
  have hform : readFormAt ts 0 = .ok (v, 7) :=
    readFormAt_zero_eq_ok_iff.mpr ⟨7, .list [] [] hlist, rfl⟩
  have htokens : readTokens ts = .ok v := readTokens_whole rfl rfl
  have hsequence : readFormAt sequence 2 = .ok (v, 9) :=
    hbetween [⟨.atom, "x"⟩, .closeParen] ts [.openParen] v rfl hform
  have hprograms : ∀ p ∈ [(ts, v), (ts, v)],
      p.1.head?.map Token.kind = some .opening ∧ readTokens p.1 = .ok p.2 := by
    intro p hp
    obtain rfl : p = (ts, v) := by simpa using hp
    exact ⟨rfl, htokens⟩
  exact ⟨rfl, hform, htokens, hsequence, (halone sequence 2 9 v (by decide) hsequence).2.2,
    hrow [(ts, v), (ts, v)] hprograms⟩

end FuzzyRules
