import ExprCalculus.Proofs.Decimal.FloatText
import ExprCalculus.Proofs.Document.Grammar

/-!
# Tokens that are the text of their value

A typed value is written out in one way only, so a token is lost where a numeral is spelled in another way: `01`, `+1`,
`1.50`, `1e3` or `nan`. `Plain` says which tokens are kept, and `text_ofToken_eq_iff` that it is just those.
-/

namespace ExprCalculus

namespace Decimal

/-! ### Digits without a zero in front -/

section Digits

variable {digits : List Char}

theorem isDigit_iff_toNat {c : Char} : isDigit c = true ↔ 48 ≤ c.toNat ∧ c.toNat ≤ 57 := by
  simp only [isDigit, Bool.and_eq_true, decide_eq_true_eq]
  exact Iff.rfl

theorem digitChar_of_isDigit {c : Char} (h : isDigit c = true) : Nat.digitChar (c.toNat - 48) = c := by
  obtain ⟨hlow, hhigh⟩ := isDigit_iff_toNat.1 h
  refine Char.toNat_inj.1 ?_
  rw [Nat.toNat_digitChar_of_lt_ten (by omega)]
  omega

/-- Digits that are read behind others stand behind them again when the number is written. -/
theorem toDigits_foldl (hdigits : ∀ c ∈ digits, isDigit c = true) {n : Nat} (hn : 0 < n) :
    Nat.toDigits 10 (digits.foldl (fun n c => 10 * n + (c.toNat - '0'.toNat)) n) = Nat.toDigits 10 n ++ digits := by
  induction digits generalizing n with
  | nil => rw [List.foldl_nil, List.append_nil]
  | cons c digits ih =>
    have hc : isDigit c = true := hdigits c List.mem_cons_self
    have hrange := isDigit_iff_toNat.1 hc
    have hone : c.toNat - 48 < 10 := by omega
    -- Only a number that is not zero is written in front of the next digit; this is where zeros in front are lost.
    have hwritten : Nat.toDigits 10 (10 * n + (c.toNat - 48)) = Nat.toDigits 10 n ++ [c] := by
      rw [← Nat.toDigits_append_toDigits (by decide) hn hone, Nat.toDigits_of_lt_base hone, digitChar_of_isDigit hc]
    change Nat.toDigits 10 (digits.foldl _ (10 * n + (c.toNat - 48))) = _
    rw [ih (fun d hd => hdigits d (List.mem_cons_of_mem c hd)) (by omega), hwritten, List.append_assoc]
    rfl

theorem toDigits_ofDigits {c : Char} {rest : List Char} (hdigits : ∀ d ∈ c :: rest, isDigit d = true) (hc : c ≠ '0') :
    0 < ofDigits (c :: rest) ∧ Nat.toDigits 10 (ofDigits (c :: rest)) = c :: rest := by
  have hdigit : isDigit c = true := hdigits c List.mem_cons_self
  have hrange := isDigit_iff_toNat.1 hdigit
  have hpos : 0 < c.toNat - 48 := by
    have hne : c.toNat ≠ 48 := fun heq => hc (Char.toNat_inj.1 heq)
    omega
  have hwritten : Nat.toDigits 10 (ofDigits (c :: rest)) = c :: rest := by
    change Nat.toDigits 10 (rest.foldl _ (10 * 0 + (c.toNat - 48))) = _
    rw [Nat.mul_zero, Nat.zero_add, toDigits_foldl (fun d hd => hdigits d (List.mem_cons_of_mem c hd)) hpos,
      Nat.toDigits_of_lt_base (by omega), digitChar_of_isDigit hdigit]
    rfl
  refine ⟨Nat.pos_of_ne_zero fun hzero => ?_, hwritten⟩
  rw [hzero] at hwritten
  exact hc (List.cons.inj hwritten).1.symm

theorem head_toDigits {n : Nat} (hn : 0 < n) : ∃ c rest, Nat.toDigits 10 n = c :: rest ∧ c ≠ '0' := by
  induction n using Nat.strongRecOn with
  | ind n ih =>
    by_cases hone : n < 10
    · refine ⟨_, [], Nat.toDigits_of_lt_base hone, ?_⟩
      intro hzero
      have hvalue := Nat.toNat_digitChar_of_lt_ten hone
      rw [hzero] at hvalue
      change 48 = 48 + n at hvalue
      omega
    · obtain ⟨c, rest, heq, hc⟩ := ih (n / 10) (by omega) (by omega)
      refine ⟨c, rest ++ [(n % 10).digitChar], ?_, hc⟩
      rw [Nat.toDigits_of_base_le (by decide) (by omega), heq]
      rfl

/-- Digits are the ones that their number is written with if no zero stands in front, or nothing but one zero. -/
theorem toDigits_ofDigits_iff (hne : digits ≠ []) (hdigits : ∀ c ∈ digits, isDigit c = true) :
    Nat.toDigits 10 (ofDigits digits) = digits ↔ digits = ['0'] ∨ ∃ c rest, digits = c :: rest ∧ c ≠ '0' := by
  constructor
  · intro h
    by_cases hzero : ofDigits digits = 0
    · rw [hzero] at h
      exact .inl h.symm
    · obtain ⟨c, rest, heq, hc⟩ := head_toDigits (Nat.pos_of_ne_zero hzero)
      exact .inr ⟨c, rest, h.symm.trans heq, hc⟩
  · intro h
    rcases h with rfl | ⟨c, rest, rfl, hc⟩
    · rfl
    · exact (toDigits_ofDigits hdigits hc).2

end Digits

/-! ### Whole numbers -/

/-- How a whole number can be written. -/
inductive Spelled : List Char → Int → Prop
  | bare {digits : List Char} (hne : digits ≠ []) (hdigits : ∀ c ∈ digits, isDigit c = true) :
      Spelled digits (ofDigits digits)
  | plus {digits : List Char} (hne : digits ≠ []) (hdigits : ∀ c ∈ digits, isDigit c = true) :
      Spelled ('+' :: digits) (ofDigits digits)
  | minus {digits : List Char} (hne : digits ≠ []) (hdigits : ∀ c ∈ digits, isDigit c = true) :
      Spelled ('-' :: digits) (-(ofDigits digits))

/-- A whole number as it is written out: no plus sign, no zero in front of other digits, no minus sign before zero. -/
inductive PlainInteger : List Char → Prop
  | zero : PlainInteger ['0']
  | positive {c : Char} {rest : List Char} (hc : c ≠ '0') (hdigits : ∀ d ∈ c :: rest, isDigit d = true) :
      PlainInteger (c :: rest)
  | negative {c : Char} {rest : List Char} (hc : c ≠ '0') (hdigits : ∀ d ∈ c :: rest, isDigit d = true) :
      PlainInteger ('-' :: c :: rest)

theorem spelled_of_readInteger? {token : List Char} {n : Int} (h : readInteger? token = some n) : Spelled token n := by
  have hdigits : ∀ {digits : List Char} {k : Int},
      (if digits.isEmpty || !digits.all isDigit then none else some k) = some n →
        digits ≠ [] ∧ (∀ c ∈ digits, isDigit c = true) ∧ k = n := by
    intro digits k hread
    split at hread
    · cases hread
    · rename_i hno
      simp only [Bool.or_eq_true, Bool.not_eq_true', not_or, Bool.not_eq_false, List.all_eq_true,
        List.isEmpty_iff] at hno
      exact ⟨hno.1, hno.2, Option.some.inj hread⟩
  unfold readInteger? splitSign at h
  split at h
  · rename_i heq
    split at heq <;> obtain ⟨rfl, rfl⟩ := Prod.mk.inj heq <;> obtain ⟨hne, hall, rfl⟩ := hdigits h
    · exact .minus hne hall
    · exact .plus hne hall
    · exact .bare hne hall

theorem toString_ofDigits (digits : List Char) :
    (toString (ofDigits digits : Int)).toList = Nat.toDigits 10 (ofDigits digits) := by
  rw [Int.toString_eq_repr, Int.repr_eq_if, if_pos (Int.natCast_nonneg _), Int.toNat_natCast,
    Nat.repr_eq_ofList_toDigits, String.toList_ofList]

theorem toString_neg_ofDigits {digits : List Char} (h : 0 < ofDigits digits) :
    (toString (-(ofDigits digits) : Int)).toList = '-' :: Nat.toDigits 10 (ofDigits digits) := by
  have hneg : ¬(0 : Int) ≤ -(ofDigits digits) := by omega
  rw [Int.toString_eq_repr, Int.repr_eq_if, if_neg hneg, Int.neg_neg, Int.toNat_natCast, Nat.repr_eq_ofList_toDigits,
    String.toList_append, String.toList_ofList]
  exact String.toList_ofList ▸ rfl

/-- Of all ways to write a number, one is how it is written out. -/
theorem toString_eq_iff_plainInteger {token : List Char} {n : Int} (h : Spelled token n) :
    (toString n).toList = token ↔ PlainInteger token := by
  cases h with
  | bare hne hdigits =>
    rw [toString_ofDigits, toDigits_ofDigits_iff hne hdigits]
    constructor
    · intro h
      rcases h with rfl | ⟨c, rest, rfl, hc⟩
      · exact .zero
      · exact .positive hc hdigits
    · intro h
      cases h with
      | zero => exact .inl rfl
      | positive hc _ => exact .inr ⟨_, _, rfl, hc⟩
      | negative => cases hdigits '-' List.mem_cons_self
  | @plus digits hne hdigits =>
    refine iff_of_false ?_ ?_
    · intro h
      have hmem : '+' ∈ Nat.toDigits 10 (ofDigits digits) := by
        rw [← toString_ofDigits, h]
        exact List.mem_cons_self
      cases isDigit_of_mem_toDigits hmem
    · intro h
      cases h with
      | positive _ hall => cases hall '+' List.mem_cons_self
  | @minus digits hne hdigits =>
    by_cases hzero : ofDigits digits = 0
    · refine iff_of_false ?_ ?_
      · rw [hzero]
        intro h
        cases h
      · intro h
        cases h with
        | positive _ hall => cases hall '-' List.mem_cons_self
        | negative hc _ => exact absurd hzero (Nat.ne_of_gt (toDigits_ofDigits hdigits hc).1)
    · rw [toString_neg_ofDigits (Nat.pos_of_ne_zero hzero), List.cons_inj_right, toDigits_ofDigits_iff hne hdigits]
      constructor
      · intro h
        rcases h with rfl | ⟨c, rest, rfl, hc⟩
        · exact absurd rfl hzero
        · exact .negative hc hdigits
      · intro h
        cases h with
        | positive _ hall => cases hall '-' List.mem_cons_self
        | negative hc _ => exact .inr ⟨_, _, rfl, hc⟩

/-! ### Numbers with names -/

/-- The text of any number is read as that number, with the sign in front of a name too. -/
theorem readSetting?_floatText (x : Float) : readSetting? (floatText x).toList = some x := by
  by_cases hfin : x.isFinite = true
  · obtain ⟨q, hspells, hconvert⟩ := spells_magnitudeText hfin
    obtain ⟨d, hd, hread⟩ := readDecimal?_spells hspells (hasMinus x)
    rw [floatText_of_isFinite hfin, readSetting?, hread, hconvert d hd]
    rfl
  · rcases not_isFinite_cases hfin with rfl | rfl | rfl <;> rfl

end Decimal

namespace Document

open Value (readWord? ofToken)

/-! ### Kept tokens -/

/-- The token is how its value is written out, or it is no numeral. -/
inductive Plain (token : List Char) : Prop
  | integer {n : Int} (h : readWord? token = some n) (hplain : Decimal.PlainInteger token)
  | float {x : Float} (hinteger : readWord? token = none) (h : token = (Decimal.floatText x).toList)
  | word (hinteger : readWord? token = none) (hfloat : Decimal.readSetting? token = none)

theorem text_ofToken_eq_iff {token : List Char} : (ofToken token).text = String.ofList token ↔ Plain token := by
  have htyped : Typed token (ofToken token) := typed_iff.2 rfl
  rw [← String.toList_inj, String.toList_ofList]
  generalize ofToken token = v at htyped ⊢
  cases htyped with
  | integer h =>
    obtain ⟨hread, _⟩ := Option.filter_eq_some_iff.1 h
    have hiff := Decimal.toString_eq_iff_plainInteger (Decimal.spelled_of_readInteger? hread)
    refine hiff.trans ⟨.integer h, ?_⟩
    intro hplain
    cases hplain with
    | integer _ hplain => exact hplain
    | float hinteger => cases h.symm.trans hinteger
    | word hinteger => cases h.symm.trans hinteger
  | float hinteger h =>
    constructor
    · intro htext
      exact .float hinteger htext.symm
    · intro hplain
      cases hplain with
      | integer h' => cases hinteger.symm.trans h'
      | float _ htext =>
        subst htext
        rw [Decimal.readSetting?_floatText] at h
        rw [← Option.some.inj h]
        rfl
      | word _ hfloat => cases h.symm.trans hfloat
  | boolean hinteger hfloat h =>
    refine iff_of_true ?_ (.word hinteger hfloat)
    rename_i b
    rw [h]
    cases b <;> rfl
  | string hinteger hfloat _ => exact iff_of_true String.toList_ofList (.word hinteger hfloat)

/-! ### Kept words -/

theorem not_isDigit_of_isWordStart {c : Char} (h : isWordStart c = true) : Decimal.isDigit c = false := by
  refine Bool.eq_false_iff.2 fun hdigit => ?_
  have hrange := Decimal.isDigit_iff_toNat.1 hdigit
  delta isWordStart Char.isAlpha Char.isUpper Char.isLower at h
  simp only [Bool.or_eq_true, Bool.and_eq_true, decide_eq_true_eq, beq_iff_eq, ge_iff_le, UInt32.le_iff_toNat_le] at h
  have hval : c.val.toNat = c.toNat := rfl
  rcases h with (⟨hle, _⟩ | ⟨hle, _⟩) | rfl
  · change 65 ≤ c.val.toNat at hle
    omega
  · change 97 ≤ c.val.toNat at hle
    omega
  · exact absurd hrange.2 (by decide)

/-- A word does not begin like a numeral of digits. -/
theorem IsWord.head_ne {token : List Char} (h : IsWord token) :
    ∃ c rest, token = c :: rest ∧ Decimal.isDigit c = false ∧ c ≠ '-' ∧ c ≠ '+' ∧ c ≠ '.' := by
  obtain ⟨c, rest, rfl, hc, _⟩ := h
  refine ⟨c, rest, rfl, not_isDigit_of_isWordStart hc, ?_, ?_, ?_⟩
  all_goals
    rintro rfl
    cases hc

theorem readWord?_of_isWord {token : List Char} (h : IsWord token) : readWord? token = none := by
  obtain ⟨c, rest, rfl, hdigit, hminus, hplus, _⟩ := h.head_ne
  have hread : Decimal.readInteger? (c :: rest) = none := by
    cases hread : Decimal.readInteger? (c :: rest) with
    | none => rfl
    | some n =>
      cases Decimal.spelled_of_readInteger? hread with
      | bare _ hdigits =>
        rw [hdigits c List.mem_cons_self] at hdigit
        cases hdigit
      | plus => exact absurd rfl hplus
      | minus => exact absurd rfl hminus
  rw [readWord?, hread]
  rfl

theorem readSetting?_of_isWord {token : List Char} (h : IsWord token) :
    Decimal.readSetting? token = Decimal.readName? token := by
  obtain ⟨c, rest, rfl, hdigit, hminus, hplus, hpoint⟩ := h.head_ne
  have hsign : Decimal.splitSign (c :: rest) = (false, c :: rest) := by
    unfold Decimal.splitSign
    split
    · rename_i heq
      exact absurd (List.cons.inj heq).1 hminus
    · rename_i heq
      exact absurd (List.cons.inj heq).1 hplus
    · rfl
  have hfraction : Decimal.splitFraction (c :: rest) = ([], c :: rest) := by
    unfold Decimal.splitFraction
    split
    · rename_i heq
      exact absurd (List.cons.inj heq).1 hpoint
    · rfl
  have hdecimal : Decimal.readDecimal? (c :: rest) = none := by
    simp [Decimal.readDecimal?, hsign, Decimal.readUnsigned?, hdigit, hfraction]
  rw [Decimal.readSetting?, hdecimal, hsign]
  change (Decimal.readName? (c :: rest)).map (Decimal.withSign false) = _
  cases Decimal.readName? (c :: rest) <;> rfl

/-- The name is not one that numbers have, but for its case. -/
def KeptName (name : String) : Prop :=
  (Text.sameCaseless name "nan" = true → name = "NaN") ∧
    (Text.sameCaseless name "inf" = true ∨ Text.sameCaseless name "infinity" = true → name = "inf")

/-- A word is kept unless it is the name of NaN or infinity in another spelling. -/
theorem text_ofToken_eq_iff_keptName {token : List Char} (h : IsWord token) :
    (ofToken token).text = String.ofList token ↔ KeptName (String.ofList token) := by
  have hinteger := readWord?_of_isWord h
  have hread : Decimal.readSetting? token =
      if Text.sameCaseless (String.ofList token) "nan" then some (Float.ofBits 0x7ff8000000000000)
      else if Text.sameCaseless (String.ofList token) "inf" || Text.sameCaseless (String.ofList token) "infinity"
        then some Decimal.infinity else none := readSetting?_of_isWord h
  have htext : ∀ {x : Float}, Decimal.readSetting? token = some x → (ofToken token).text = Decimal.floatText x := by
    intro x hx
    rw [typed_iff.1 (.float hinteger hx)]
    rfl
  by_cases hnan : Text.sameCaseless (String.ofList token) "nan" = true
  · rw [if_pos hnan] at hread
    rw [htext hread]
    generalize String.ofList token = name at hnan ⊢
    constructor
    · intro heq
      obtain rfl : "NaN" = name := heq
      exact ⟨fun _ => rfl, by decide⟩
    · intro hkept
      exact (hkept.1 hnan).symm
  · rw [if_neg hnan] at hread
    split at hread
    · rename_i hinf
      rw [htext hread]
      generalize String.ofList token = name at hinf ⊢
      constructor
      · intro heq
        obtain rfl : "inf" = name := heq
        exact ⟨by decide, fun _ => rfl⟩
      · intro hkept
        exact (hkept.2 (Bool.or_eq_true_iff.1 hinf)).symm
    · rename_i hinf
      refine iff_of_true (text_ofToken_eq_iff.2 (.word hinteger hread)) ⟨fun h => absurd h hnan, ?_⟩
      intro h
      exact absurd (Bool.or_eq_true_iff.2 h) hinf

end Document
end ExprCalculus
