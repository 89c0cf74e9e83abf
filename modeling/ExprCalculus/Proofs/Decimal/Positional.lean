import ExprCalculus.Decimal.Numeral
import ExprCalculus.Proofs.Number.Scientific

/-!
# Reading positional notation back

What `Decimal.positional` writes is a numeral without sign and exponent, and it stands for the decimal that
was written.
-/

namespace ExprCalculus.Decimal

theorem isDigit_of_mem_toDigits {n : Nat} {c : Char} (h : c ∈ Nat.toDigits 10 n) : isDigit c = true := by
  have hdigit := Nat.isDigit_of_mem_toDigits (by decide) (by decide) h
  exact hdigit

theorem ofDigits_toDigits (n : Nat) : ofDigits (Nat.toDigits 10 n) = n := Nat.ofDigitChars_ten_toDigits

theorem ofDigits_append_zeros (digits : List Char) (k : Nat) :
    ofDigits (digits ++ List.replicate k '0') = ofDigits digits * 10 ^ k := by
  have happend := Nat.ofDigitChars_append (b := 10) (l := digits) (m := List.replicate k '0') 0
  rw [Nat.ofDigitChars_replicate_zero, Nat.mul_comm] at happend
  exact happend

theorem ofDigits_zeros_append (digits : List Char) (k : Nat) :
    ofDigits (List.replicate k '0' ++ digits) = ofDigits digits := by
  have happend := Nat.ofDigitChars_append (b := 10) (l := List.replicate k '0') (m := digits) 0
  rw [Nat.ofDigitChars_replicate_zero, Nat.mul_zero] at happend
  exact happend

/-! ### Digits with and without a point -/

section Reading

variable {whole fraction : List Char}

theorem readUnsigned?_digits (hne : whole ≠ []) (hdigits : ∀ c ∈ whole, isDigit c = true) :
    readUnsigned? whole = some ⟨ofDigits whole, 0⟩ := by
  have htake : whole.takeWhile isDigit = whole := List.takeWhile_eq_self_iff.2 hdigits
  have hdrop : whole.dropWhile isDigit = [] := List.dropWhile_eq_nil_iff.2 hdigits
  have hempty : whole.isEmpty = false := by simpa using hne
  simp [readUnsigned?, htake, hdrop, splitFraction, hempty, readExponent?]

theorem readUnsigned?_point (hne : whole ≠ []) (hwhole : ∀ c ∈ whole, isDigit c = true)
    (hfraction : ∀ c ∈ fraction, isDigit c = true) :
    readUnsigned? (whole ++ '.' :: fraction) =
      some ⟨ofDigits (whole ++ fraction), -(fraction.length : Int)⟩ := by
  have hpoint : isDigit '.' = false := rfl
  have htake : (whole ++ '.' :: fraction).takeWhile isDigit = whole := by
    rw [List.takeWhile_append_of_pos hwhole, List.takeWhile_cons_of_neg (by simp [hpoint]), List.append_nil]
  have hdrop : (whole ++ '.' :: fraction).dropWhile isDigit = '.' :: fraction := by
    rw [List.dropWhile_append_of_pos hwhole, List.dropWhile_cons_of_neg (by simp [hpoint])]
  have htake' : fraction.takeWhile isDigit = fraction := List.takeWhile_eq_self_iff.2 hfraction
  have hdrop' : fraction.dropWhile isDigit = [] := List.dropWhile_eq_nil_iff.2 hfraction
  have hempty : whole.isEmpty = false := by simpa using hne
  simp [readUnsigned?, htake, hdrop, splitFraction, htake', hdrop', hempty, readExponent?]

end Reading

/-! ### Positional notation -/

/-- The text has a digit in front and is a numeral that stands for the number. -/
structure Spells (text : List Char) (q : ℚ) : Prop where
  head : ∃ c rest, text = c :: rest ∧ isDigit c = true
  plain : ∀ c ∈ text, isDigit c = true ∨ c = '.'
  read : ∃ d, readUnsigned? text = some d ∧ d.rational = q

theorem spells_digits {whole : List Char} (hne : whole ≠ []) (hdigits : ∀ c ∈ whole, isDigit c = true) :
    Spells whole (ofDigits whole) := by
  refine ⟨?_, fun c hc => .inl (hdigits c hc), _, readUnsigned?_digits hne hdigits, ?_⟩
  · cases whole with
    | nil => exact absurd rfl hne
    | cons c rest => exact ⟨c, rest, rfl, hdigits c List.mem_cons_self⟩
  · simp [rational]

theorem spells_point {whole fraction : List Char} (hne : whole ≠ []) (hwhole : ∀ c ∈ whole, isDigit c = true)
    (hfraction : ∀ c ∈ fraction, isDigit c = true) :
    Spells (whole ++ '.' :: fraction)
      (rational ⟨ofDigits (whole ++ fraction), -(fraction.length : Int)⟩) := by
  refine ⟨?_, ?_, _, readUnsigned?_point hne hwhole hfraction, rfl⟩
  · cases whole with
    | nil => exact absurd rfl hne
    | cons c rest => exact ⟨c, _, rfl, hwhole c List.mem_cons_self⟩
  · intro c hc
    rcases List.mem_append.1 hc with hc | hc
    · exact .inl (hwhole c hc)
    · rcases List.mem_cons.1 hc with rfl | hc
      · exact .inr rfl
      · exact .inl (hfraction c hc)

theorem isDigit_of_mem_zeros_append {digits : List Char} (hdigits : ∀ c ∈ digits, isDigit c = true)
    (k : Nat) : ∀ c ∈ List.replicate k '0' ++ digits, isDigit c = true := by
  intro c hc
  rcases List.mem_append.1 hc with hc | hc
  · rw [List.eq_of_mem_replicate hc]
    rfl
  · exact hdigits c hc

/-- A point splits a text of digits that is long enough in two, neither of which changes the value. -/
theorem spells_split {digits : List Char} (hdigits : ∀ c ∈ digits, isDigit c = true) {places : Nat}
    (hlength : places < digits.length) :
    Spells (digits.take (digits.length - places) ++ '.' :: digits.drop (digits.length - places))
      (rational ⟨ofDigits digits, -(places : Int)⟩) := by
  have hwhole : digits.take (digits.length - places) ≠ [] := by
    intro hnil
    have hlen := congrArg List.length hnil
    rw [List.length_take, List.length_nil] at hlen
    omega
  have hfraction : (digits.drop (digits.length - places)).length = places := by
    rw [List.length_drop]
    omega
  have hdropped : ∀ c ∈ digits.drop (digits.length - places), isDigit c = true :=
    fun c hc => hdigits c (List.mem_of_mem_drop hc)
  have hspells := spells_point hwhole (fun c hc => hdigits c (List.mem_of_mem_take hc)) hdropped
  rw [List.take_append_drop, hfraction] at hspells
  exact hspells

theorem spells_withPoint {digits : List Char} (hdigits : ∀ c ∈ digits, isDigit c = true) (places : Nat) :
    Spells (withPoint places digits) (rational ⟨ofDigits digits, -(places : Int)⟩) := by
  have hlength : places < (List.replicate (places + 1 - digits.length) '0' ++ digits).length := by
    rw [List.length_append, List.length_replicate]
    omega
  have hspells := spells_split (isDigit_of_mem_zeros_append hdigits (places + 1 - digits.length)) hlength
  rw [ofDigits_zeros_append] at hspells
  exact hspells

theorem spells_positional (d : Decimal) : Spells d.positional d.rational := by
  obtain ⟨c, k⟩ := d
  have hdigits : ∀ x ∈ Nat.toDigits 10 c, isDigit x = true := fun x hx => isDigit_of_mem_toDigits hx
  by_cases hk : 0 ≤ k
  · have htext : positional ⟨c, k⟩ = Nat.toDigits 10 c ++ List.replicate k.toNat '0' := if_pos hk
    have hvalue : (ofDigits (Nat.toDigits 10 c ++ List.replicate k.toNat '0') : ℚ) = rational ⟨c, k⟩ := by
      rw [ofDigits_append_zeros, ofDigits_toDigits]
      show ((c * 10 ^ k.toNat : Nat) : ℚ) = c * (10 : ℚ) ^ k
      push_cast
      rw [← zpow_natCast, Int.toNat_of_nonneg hk]
    rw [htext, ← hvalue]
    refine spells_digits ?_ ?_
    · exact List.append_ne_nil_of_left_ne_nil Nat.toDigits_ne_nil _
    · intro x hx
      rcases List.mem_append.1 hx with hx | hx
      · exact hdigits x hx
      · rw [List.eq_of_mem_replicate hx]
        rfl
  · have htext : positional ⟨c, k⟩ = withPoint k.natAbs (Nat.toDigits 10 c) := if_neg hk
    have hspells := spells_withPoint hdigits k.natAbs
    rw [ofDigits_toDigits, show -(k.natAbs : Int) = k by omega] at hspells
    rw [htext]
    exact hspells

end ExprCalculus.Decimal
