import ExprCalculus.Document.Layout
import ExprCalculus.Proofs.Expr.Grammar

/-!
# The grammar of task documents

The grammar says which characters belong to a part of a document and what may follow them, so each of its judgements
names the text that is left. Values, pairs and their readers are treated here.

A run of values ends where no comma leads to another one. The reader decides this by looking ahead, the grammar by what
may follow a pair: blanks and another word, or nothing.
-/

namespace ExprCalculus.Document

open Reader (Blanks StopsAt dropWhile_append_stop takeWhile_append_stop stopsAt_dropWhile skipBlanks_append)

/-! ### Parts of a line -/

/-- Spaces and tabs, perhaps none. -/
def InlineBlanks (text : List Char) : Prop := ∀ c ∈ text, Text.isInlineBlank c = true

/-- Blanks of any kind, at least one. -/
def Gap (text : List Char) : Prop := text ≠ [] ∧ Blanks text

/-- ASCII letters, digits and underscores, with no digit in front. -/
def IsWord (text : List Char) : Prop :=
  ∃ c rest, text = c :: rest ∧ isWordStart c = true ∧ ∀ d ∈ rest, isWordChar d = true

/-- What may be one value: characters of which none ends a value. -/
def IsValue (token : List Char) : Prop := token ≠ [] ∧ ∀ c ∈ token, endsValue c = false

/-- A value can only end before a comma, a semicolon, a space, a tab, a line end, or at the end of the text. -/
def EndsValue (rest : List Char) : Prop := StopsAt (fun c => !endsValue c) rest

/-- The line ends here. -/
def EndsLine (rest : List Char) : Prop := ∀ c, rest.head? = some c → c = '\r' ∨ c = '\n'

/-- A token is an integer if it can be one, else a number, else a truth value, else a string. -/
inductive Typed (token : List Char) : Value → Prop
  | integer {n : Int} (h : Value.readWord? token = some n) : Typed token (.integer n)
  | float {x : Float} (hinteger : Value.readWord? token = none) (h : Decimal.readSetting? token = some x) :
      Typed token (.float x)
  | boolean {b : Bool} (hinteger : Value.readWord? token = none) (hfloat : Decimal.readSetting? token = none)
      (h : token = (if b then "true" else "false").toList) : Typed token (.boolean b)
  | string (hinteger : Value.readWord? token = none) (hfloat : Decimal.readSetting? token = none)
      (hboolean : token ≠ "true".toList ∧ token ≠ "false".toList) : Typed token (.string (String.ofList token))

/-- Values with commas between them, and the text after the last one. -/
inductive ValuesAt : List Char → List Value → List Char → Prop
  | last {token rest : List Char} {v : Value} (htoken : IsValue token) (hv : Typed token v)
      (hrest : EndsValue rest) : ValuesAt (token ++ rest) [v] rest
  | cons {token s t text rest : List Char} {v : Value} {values : List Value} (htoken : IsValue token)
      (hv : Typed token v) (hs : InlineBlanks s) (ht : InlineBlanks t) (hmore : ValuesAt text values rest) :
      ValuesAt (token ++ (s ++ ',' :: (t ++ text))) (v :: values) rest

/-- A key with its values, and the text after them. Without values the line ends. -/
inductive PairAt : List Char → String × List Value → List Char → Prop
  | bare {key s t rest : List Char} (hkey : IsWord key) (hs : InlineBlanks s) (ht : InlineBlanks t)
      (hrest : EndsLine rest) : PairAt (key ++ (s ++ ':' :: (t ++ rest))) (String.ofList key, []) rest
  | valued {key s t text rest : List Char} {values : List Value} (hkey : IsWord key) (hs : InlineBlanks s)
      (ht : InlineBlanks t) (hvalues : ValuesAt text values rest) :
      PairAt (key ++ (s ++ ':' :: (t ++ text))) (String.ofList key, values) rest

/-- Parts of a text with gaps between them, and the text after the last one. -/
inductive RunAt {β : Type} (Part : List Char → β → List Char → Prop) : List Char → List β → List Char → Prop
  | last {text rest : List Char} {b : β} (hpart : Part text b rest) : RunAt Part text [b] rest
  | cons {text gap more rest : List Char} {b : β} {bs : List β} (hpart : Part text b (gap ++ more)) (hgap : Gap gap)
      (hmore : RunAt Part more bs rest) : RunAt Part text (b :: bs) rest

/-- A title with its pairs, and the text after them. -/
inductive SectionAt : List Char → String × List (String × List Value) → List Char → Prop
  | intro {title gap text rest : List Char} {pairs : List (String × List Value)} (htitle : IsWord title)
      (hgap : Gap gap) (hpairs : RunAt PairAt text pairs rest) :
      SectionAt (title ++ (gap ++ text)) (String.ofList title, pairs) rest

/-- The whole text is sections. -/
def DocumentAt (text : List Char) (sections : List (String × List (String × List Value))) : Prop :=
  RunAt SectionAt text sections []

/-! ### Characters -/

theorem isBlank_of_isInlineBlank {c : Char} (h : Text.isInlineBlank c = true) : Text.isBlank c = true := by
  simp only [Text.isInlineBlank, Bool.or_eq_true, beq_iff_eq] at h
  rcases h with rfl | rfl <;> decide

theorem endsValue_of_isInlineBlank {c : Char} (h : Text.isInlineBlank c = true) : endsValue c = true := by
  simp only [Text.isInlineBlank, Bool.or_eq_true, beq_iff_eq] at h
  rcases h with rfl | rfl <;> decide

theorem isWordChar_of_isWordStart {c : Char} (h : isWordStart c = true) : isWordChar c = true := by
  simp only [isWordStart, isWordChar, Char.isAlphanum, Bool.or_eq_true] at h ⊢
  exact h.imp_left .inl

theorem not_isWordStart_of_not_isWordChar {c : Char} (h : isWordChar c = false) : isWordStart c = false := by
  refine Bool.eq_false_iff.2 fun hstart => ?_
  rw [isWordChar_of_isWordStart hstart] at h
  cases h

theorem toNat_of_isWordChar {c : Char} (h : isWordChar c = true) :
    (48 ≤ c.toNat ∧ c.toNat ≤ 57) ∨ (65 ≤ c.toNat ∧ c.toNat ≤ 90) ∨ c.toNat = 95 ∨
      (97 ≤ c.toNat ∧ c.toNat ≤ 122) := by
  delta isWordChar Char.isAlphanum Char.isAlpha Char.isUpper Char.isLower Char.isDigit at h
  simp only [Bool.or_eq_true, Bool.and_eq_true, decide_eq_true_eq, beq_iff_eq, ge_iff_le, UInt32.le_iff_toNat_le] at h
  have hval : c.val.toNat = c.toNat := rfl
  rcases h with ((⟨hle, hge⟩ | ⟨hle, hge⟩) | ⟨hle, hge⟩) | rfl
  · exact .inr (.inl ⟨hle, hge⟩)
  · exact .inr (.inr (.inr ⟨hle, hge⟩))
  · exact .inl ⟨hle, hge⟩
  · exact .inr (.inr (.inl rfl))

theorem not_isWordChar_of_isBlank {c : Char} (h : Text.isBlank c = true) : isWordChar c = false := by
  refine Bool.eq_false_iff.2 fun hword => ?_
  have hrange := toNat_of_isWordChar hword
  obtain ⟨r, hr, hlow, hhigh⟩ := Text.inRanges_iff.1 h
  simp only [Text.blankRanges, List.mem_cons, List.not_mem_nil, or_false] at hr
  rcases hr with rfl | rfl | rfl | rfl | rfl | rfl | rfl | rfl | rfl | rfl <;> simp only at hlow hhigh <;> omega

theorem not_isWordChar_of_endsValue {c : Char} (h : endsValue c = true) : isWordChar c = false := by
  simp only [endsValue, Bool.or_eq_true, beq_iff_eq] at h
  rcases h with ((((rfl | rfl) | rfl) | rfl) | rfl) | rfl <;> decide

theorem IsWord.head {w : List Char} (h : IsWord w) (rest : List Char) :
    ∃ c tail, w ++ rest = c :: tail ∧ isWordStart c = true := by
  obtain ⟨c, tail, rfl, hc, _⟩ := h
  exact ⟨c, tail ++ rest, rfl, hc⟩

theorem IsValue.head {token : List Char} (h : IsValue token) (rest : List Char) :
    ∃ c tail, token ++ rest = c :: tail ∧ endsValue c = false := by
  obtain ⟨hne, hchars⟩ := h
  cases token with
  | nil => exact absurd rfl hne
  | cons c tail => exact ⟨c, tail ++ rest, rfl, hchars c List.mem_cons_self⟩

theorem ValuesAt.head {text rest : List Char} {values : List Value} (h : ValuesAt text values rest) :
    ∃ c tail, text = c :: tail ∧ endsValue c = false := by
  cases h with
  | last htoken hv hrest => exact htoken.head _
  | cons htoken hv hs ht hmore => exact htoken.head _

/-! ### Inline blanks -/

theorem skipInlineBlanks_append {s rest : List Char} (hs : InlineBlanks s) (hrest : StopsAt Text.isInlineBlank rest) :
    Text.skipInlineBlanks (s ++ rest) = rest := dropWhile_append_stop hs hrest

theorem skipInlineBlanks_of_stopsAt {text : List Char} (h : StopsAt Text.isInlineBlank text) :
    Text.skipInlineBlanks text = text := by
  have hnone : InlineBlanks [] := by
    intro c hc
    cases hc
  exact skipInlineBlanks_append hnone h

theorem exists_skipInlineBlanks (text : List Char) :
    ∃ s, InlineBlanks s ∧ text = s ++ Text.skipInlineBlanks text :=
  ⟨text.takeWhile Text.isInlineBlank, List.all_eq_true.1 List.all_takeWhile, List.takeWhile_append_dropWhile.symm⟩

theorem stopsAt_cons {p : Char → Bool} {c : Char} {rest : List Char} (h : p c = false) : StopsAt p (c :: rest) := by
  intro d hd
  obtain rfl := Option.some.inj hd
  exact h

theorem ValuesAt.stopsAt_isInlineBlank {text rest : List Char} {values : List Value} (h : ValuesAt text values rest) :
    StopsAt Text.isInlineBlank text := by
  obtain ⟨c, tail, rfl, hc⟩ := h.head
  refine stopsAt_cons (Bool.eq_false_iff.2 fun hblank => ?_)
  rw [endsValue_of_isInlineBlank hblank] at hc
  cases hc

theorem EndsLine.stopsAt_isInlineBlank {rest : List Char} (h : EndsLine rest) : StopsAt Text.isInlineBlank rest := by
  intro c hc
  rcases h c hc with rfl | rfl <;> decide

/-! ### Words, marks and values -/

theorem readWord_eq_ok_iff {text rest : List Char} {word : String} :
    readWord text = .ok (word, rest) ↔
      ∃ w, text = w ++ rest ∧ word = String.ofList w ∧ IsWord w ∧ StopsAt isWordChar rest := by
  constructor
  · intro h
    cases text with
    | nil => cases h
    | cons c tail =>
      simp only [readWord] at h
      split at h
      · rename_i hc
        obtain ⟨rfl, rfl⟩ := Prod.mk.inj (Except.ok.inj h)
        refine ⟨c :: tail.takeWhile isWordChar, ?_, rfl, ⟨c, _, rfl, hc, ?_⟩, stopsAt_dropWhile _ _⟩
        · rw [List.cons_append, List.takeWhile_append_dropWhile]
        · exact List.all_eq_true.1 List.all_takeWhile
      · cases h
  · rintro ⟨w, rfl, rfl, ⟨c, tail, rfl, hc, htail⟩, hrest⟩
    simp only [List.cons_append, readWord, hc, if_true, takeWhile_append_stop htail hrest,
      dropWhile_append_stop htail hrest]

theorem readMark_eq_ok_iff {mark : Char} (hmark : Text.isInlineBlank mark = false) {text rest : List Char} :
    readMark mark text = .ok ((), rest) ↔
      ∃ s t, text = s ++ mark :: (t ++ rest) ∧ InlineBlanks s ∧ InlineBlanks t ∧
        StopsAt Text.isInlineBlank rest := by
  constructor
  · intro h
    obtain ⟨s, hs, htext⟩ := exists_skipInlineBlanks text
    unfold readMark at h
    split at h
    · rename_i c tail hskip
      split at h
      · rename_i hc
        obtain ⟨_, rfl⟩ := Prod.mk.inj (Except.ok.inj h)
        obtain ⟨t, ht, htail⟩ := exists_skipInlineBlanks tail
        refine ⟨s, t, ?_, hs, ht, stopsAt_dropWhile _ _⟩
        rw [← htail, ← beq_iff_eq.1 hc, ← hskip]
        exact htext
      · cases h
    · cases h
  · rintro ⟨s, t, rfl, hs, ht, hrest⟩
    simp only [readMark, skipInlineBlanks_append hs (stopsAt_cons hmark), beq_self_eq_true, if_true,
      skipInlineBlanks_append ht hrest]

theorem readBoolean?_eq_some_iff {token : List Char} {b : Bool} :
    Value.readBoolean? token = some b ↔ token = (if b then "true" else "false").toList := by
  unfold Value.readBoolean?
  split
  · rename_i htrue
    obtain rfl := beq_iff_eq.1 htrue
    cases b <;> decide
  · rename_i htrue
    split
    · rename_i hfalse
      obtain rfl := beq_iff_eq.1 hfalse
      cases b <;> decide
    · rename_i hfalse
      cases b with
      | true => exact ⟨nofun, fun h => absurd (beq_iff_eq.2 h) htrue⟩
      | false => exact ⟨nofun, fun h => absurd (beq_iff_eq.2 h) hfalse⟩

theorem typed_iff {token : List Char} {v : Value} : Typed token v ↔ Value.ofToken token = v := by
  constructor
  · intro h
    cases h with
    | integer h => simp only [Value.ofToken, h]
    | float hinteger h => simp only [Value.ofToken, hinteger, h]
    | boolean hinteger hfloat h => simp only [Value.ofToken, hinteger, hfloat, readBoolean?_eq_some_iff.2 h]
    | string hinteger hfloat hno =>
      cases hread : Value.readBoolean? token with
      | none => simp only [Value.ofToken, hinteger, hfloat, hread]
      | some b =>
        have htoken := readBoolean?_eq_some_iff.1 hread
        cases b with
        | true => exact absurd htoken hno.1
        | false => exact absurd htoken hno.2
  · rintro rfl
    unfold Value.ofToken
    cases hinteger : Value.readWord? token with
    | some n => exact .integer hinteger
    | none =>
      cases hfloat : Decimal.readSetting? token with
      | some x => exact .float hinteger hfloat
      | none =>
        cases hread : Value.readBoolean? token with
        | some b => exact .boolean hinteger hfloat (readBoolean?_eq_some_iff.1 hread)
        | none =>
          refine .string hinteger hfloat ⟨?_, ?_⟩
          · intro htrue
            cases hread.symm.trans (readBoolean?_eq_some_iff (b := true) |>.2 htrue)
          · intro hfalse
            cases hread.symm.trans (readBoolean?_eq_some_iff (b := false) |>.2 hfalse)

theorem readValue_eq_ok_iff {text rest : List Char} {v : Value} :
    readValue text = .ok (v, rest) ↔
      ∃ token, text = token ++ rest ∧ IsValue token ∧ Typed token v ∧ EndsValue rest := by
  simp only [typed_iff]
  constructor
  · intro h
    simp only [readValue] at h
    split at h
    · cases h
    · rename_i hne
      obtain ⟨rfl, rfl⟩ := Prod.mk.inj (Except.ok.inj h)
      refine ⟨_, List.takeWhile_append_dropWhile.symm, ⟨?_, ?_⟩, rfl, stopsAt_dropWhile _ _⟩
      · exact fun hnil => hne (List.isEmpty_iff.2 hnil)
      · intro c hc
        simpa using List.all_eq_true.1 List.all_takeWhile c hc
  · rintro ⟨token, rfl, ⟨hne, hchars⟩, rfl, hrest⟩
    have hall : ∀ c ∈ token, (!endsValue c) = true := by
      intro c hc
      rw [hchars c hc]
      rfl
    have hsome : token.isEmpty = false := by
      cases token with
      | nil => exact absurd rfl hne
      | cons c tail => rfl
    simp only [readValue, takeWhile_append_stop hall hrest, dropWhile_append_stop hall hrest, hsome,
      Bool.false_eq_true, if_false]

theorem readNextValue_eq_ok_iff {text rest : List Char} {v : Value} :
    readNextValue text = .ok (v, rest) ↔
      ∃ s t more, text = s ++ ',' :: (t ++ more) ∧ InlineBlanks s ∧ InlineBlanks t ∧ readValue more = .ok (v, rest) := by
  unfold readNextValue
  rw [bind_eq_ok_iff]
  constructor
  · rintro ⟨⟨_, more⟩, hmark, hvalue⟩
    obtain ⟨s, t, rfl, hs, ht, _⟩ := (readMark_eq_ok_iff rfl).1 hmark
    exact ⟨s, t, more, rfl, hs, ht, hvalue⟩
  · rintro ⟨s, t, more, rfl, hs, ht, hvalue⟩
    have hmore : StopsAt Text.isInlineBlank more := by
      obtain ⟨token, rfl, htoken, hv, hrest⟩ := readValue_eq_ok_iff.1 hvalue
      exact (ValuesAt.last htoken hv hrest).stopsAt_isInlineBlank
    exact ⟨((), more), (readMark_eq_ok_iff rfl).2 ⟨s, t, rfl, hs, ht, hmore⟩, hvalue⟩

/-! ### Repetition -/

section Repetition

variable {α : Type} {read : List Char → Except Stop (Reading α)} {text rest : List Char} {a : α} {as : List α}

theorem repeatedly_eq_nil (h : repeatedly read text = ([], rest)) : rest = text := by
  rw [repeatedly] at h
  split at h
  · exact (Prod.mk.inj h).2.symm
  · split at h
    · cases (Prod.mk.inj h).1
    · exact (Prod.mk.inj h).2.symm

theorem repeatedly_eq_cons (h : repeatedly read text = (a :: as, rest)) :
    ∃ next, read text = .ok (a, next) ∧ repeatedly read next = (as, rest) := by
  rw [repeatedly] at h
  split at h
  · cases (Prod.mk.inj h).1
  · rename_i a' next hread
    split at h
    · obtain ⟨hcons, hrest⟩ := Prod.mk.inj h
      obtain ⟨rfl, has⟩ := List.cons.inj hcons
      exact ⟨next, hread, Prod.ext has hrest⟩
    · cases (Prod.mk.inj h).1

end Repetition

/-! ### Values between commas -/

/-- A text that goes on with a word, or does not go on. -/
def Resumes (next : List Char) : Prop := StopsAt (fun c => !isWordStart c) next

theorem valuesAt_of_repeatedly {text after rest : List Char} {v : Value} {values : List Value}
    (hvalue : readValue text = .ok (v, after)) (hmore : repeatedly readNextValue after = (values, rest)) :
    ValuesAt text (v :: values) rest := by
  induction values generalizing text after v with
  | nil =>
    obtain rfl := repeatedly_eq_nil hmore
    obtain ⟨token, rfl, htoken, hv, hrest⟩ := readValue_eq_ok_iff.1 hvalue
    exact .last htoken hv hrest
  | cons v' values ih =>
    obtain ⟨next, hnext, hmore'⟩ := repeatedly_eq_cons hmore
    obtain ⟨s, t, more, rfl, hs, ht, hvalue'⟩ := readNextValue_eq_ok_iff.1 hnext
    obtain ⟨token, rfl, htoken, hv, _⟩ := readValue_eq_ok_iff.1 hvalue
    exact .cons htoken hv hs ht (ih hvalue' hmore')

theorem repeatedly_of_valuesAt {text rest : List Char} {values : List Value} {stop : Stop}
    (h : ValuesAt text values rest) (hstop : readNextValue rest = .error stop) :
    ∃ v more after, values = v :: more ∧ readValue text = .ok (v, after) ∧
      repeatedly readNextValue after = (more, rest) := by
  induction h with
  | @last token rest v htoken hv hrest =>
    exact ⟨v, [], rest, rfl, readValue_eq_ok_iff.2 ⟨token, rfl, htoken, hv, hrest⟩, repeatedly_of_error hstop⟩
  | @cons token s t text rest v values htoken hv hs ht hmore ih =>
    obtain ⟨v', more, after, rfl, hvalue, hrepeat⟩ := ih hstop
    have hends : EndsValue (s ++ ',' :: (t ++ text)) := by
      cases s with
      | nil => exact stopsAt_cons rfl
      | cons c s => exact stopsAt_cons (by rw [endsValue_of_isInlineBlank (hs c List.mem_cons_self)]; rfl)
    have hnext : readNextValue (s ++ ',' :: (t ++ text)) = .ok (v', after) :=
      readNextValue_eq_ok_iff.2 ⟨s, t, text, rfl, hs, ht, hvalue⟩
    have hshorter : after.length < (s ++ ',' :: (t ++ text)).length := by
      obtain ⟨token', rfl, _⟩ := readValue_eq_ok_iff.1 hvalue
      simp only [List.length_append, List.length_cons]
      omega
    refine ⟨v, v' :: more, s ++ ',' :: (t ++ text), rfl, ?_, ?_⟩
    · exact readValue_eq_ok_iff.2 ⟨token, rfl, htoken, hv, hends⟩
    · rw [repeatedly_of_ok hnext hshorter, hrepeat]

theorem readValues_of_valuesAt {text rest : List Char} {values : List Value} {stop : Stop}
    (h : ValuesAt text values rest) (hstop : readNextValue rest = .error stop) : readValues text = (values, rest) := by
  obtain ⟨v, more, after, rfl, hvalue, hrepeat⟩ := repeatedly_of_valuesAt h hstop
  simp only [readValues, skipInlineBlanks_of_stopsAt h.stopsAt_isInlineBlank, hvalue, hrepeat]

theorem readValues_of_endsLine {text : List Char} (h : EndsLine text) : readValues text = ([], text) := by
  have hvalue : readValue text = .error ⟨text, .value⟩ := by
    cases text with
    | nil => rfl
    | cons c rest => rcases h c rfl with rfl | rfl <;> rfl
  simp only [readValues, skipInlineBlanks_of_stopsAt h.stopsAt_isInlineBlank, hvalue]

theorem readValues_cases {text : List Char} (hstart : StopsAt Text.isInlineBlank text) :
    (readValues text = ([], text) ∧ EndsValue text) ∨
      ValuesAt text (readValues text).1 (readValues text).2 := by
  cases hvalue : readValue text with
  | error stop =>
    refine .inl ⟨by simp only [readValues, skipInlineBlanks_of_stopsAt hstart, hvalue], ?_⟩
    intro c hc
    cases hends : endsValue c with
    | true => simp only [hends, Bool.not_true]
    | false =>
      cases text with
      | nil => cases hc
      | cons d rest =>
        obtain rfl := Option.some.inj hc
        simp [readValue, hends] at hvalue
  | ok result =>
    obtain ⟨v, after⟩ := result
    have hvalues : readValues text =
        (v :: (repeatedly readNextValue after).1, (repeatedly readNextValue after).2) := by
      simp only [readValues, skipInlineBlanks_of_stopsAt hstart, hvalue]
    rw [hvalues]
    exact .inr (valuesAt_of_repeatedly hvalue rfl)

/-- Before a word, or at the end, no comma leads to another value. -/
theorem readNextValue_of_resumes {rest : List Char} (h : Resumes (Text.skipBlanks rest)) :
    ∃ stop, readNextValue rest = .error stop := by
  cases hread : readNextValue rest with
  | error stop => exact ⟨stop, rfl⟩
  | ok result =>
    obtain ⟨v, after⟩ := result
    obtain ⟨s, t, more, rfl, hs, _, _⟩ := readNextValue_eq_ok_iff.1 hread
    have hblanks : Blanks s := fun c hc => isBlank_of_isInlineBlank (hs c hc)
    rw [skipBlanks_append hblanks (stopsAt_cons rfl)] at h
    cases h ',' rfl

/-! ### Pairs -/

theorem stopsAt_isWordChar_before_mark {s rest : List Char} (hs : InlineBlanks s) :
    StopsAt isWordChar (s ++ ':' :: rest) := by
  cases s with
  | nil => exact stopsAt_cons rfl
  | cons c s => exact stopsAt_cons (not_isWordChar_of_isBlank (isBlank_of_isInlineBlank (hs c List.mem_cons_self)))

theorem readPair_eq_ok_iff {text next : List Char} {p : String × List Value} :
    readPair text = .ok (p, next) ↔
      ∃ key s t more, text = key ++ (s ++ ':' :: (t ++ more)) ∧ IsWord key ∧ InlineBlanks s ∧ InlineBlanks t ∧
        StopsAt Text.isInlineBlank more ∧ p = (String.ofList key, (readValues more).1) ∧
          next = Text.trim (readValues more).2 := by
  unfold readPair readKey
  simp only [bind_eq_ok_iff]
  constructor
  · rintro ⟨⟨word, after⟩, hword, ⟨_, more⟩, hmark, hpair⟩
    obtain ⟨key, rfl, rfl, hkey, _⟩ := readWord_eq_ok_iff.1 hword
    obtain ⟨s, t, rfl, hs, ht, hmore⟩ := (readMark_eq_ok_iff rfl).1 hmark
    obtain ⟨rfl, rfl⟩ := Prod.mk.inj (Except.ok.inj hpair)
    exact ⟨key, s, t, more, rfl, hkey, hs, ht, hmore, rfl, rfl⟩
  · rintro ⟨key, s, t, more, rfl, hkey, hs, ht, hmore, rfl, rfl⟩
    refine ⟨(String.ofList key, s ++ ':' :: (t ++ more)), ?_, ((), more), ?_, rfl⟩
    · exact readWord_eq_ok_iff.2 ⟨key, rfl, rfl, hkey, stopsAt_isWordChar_before_mark hs⟩
    · exact (readMark_eq_ok_iff rfl).2 ⟨s, t, rfl, hs, ht, hmore⟩

end ExprCalculus.Document
