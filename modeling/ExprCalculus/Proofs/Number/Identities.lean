import ExprCalculus.Proofs.Number.Rounding

/-!
# Identities of binary64 arithmetic

Zero and one leave finite numbers as they are under the four operations, and the operations respect numeric
equality wherever their result is finite. Numbers are compared unpacked: `SameNumber` is what the test
`==` decides.
-/

namespace ExprCalculus

open Float.Model UnpackedFloat

/-! ### Numeric equality -/

/-- Numeric equality: the same number, or two zeros of any signs. -/
def SameNumber (u v : UnpackedFloat) : Prop :=
  (u ≠ .notANumber ∧ u = v) ∨ ∃ s t, u = .zero s ∧ v = .zero t

theorem sameNumber_of_isFinite {u : UnpackedFloat} (h : u.isFinite = true) : SameNumber u u := by
  refine .inl ⟨?_, rfl⟩
  intro heq
  subst heq
  exact absurd h (by decide)

theorem sameNumber_zero (s t : Sign) : SameNumber (.zero s) (.zero t) := .inr ⟨s, t, rfl, rfl⟩

namespace SameNumber

variable {u v w : UnpackedFloat}

theorem symm (h : SameNumber u v) : SameNumber v u := by
  rcases h with ⟨hu, rfl⟩ | ⟨s, t, hu, hv⟩
  · exact .inl ⟨hu, rfl⟩
  · exact .inr ⟨t, s, hv, hu⟩

theorem trans (h : SameNumber u v) (h' : SameNumber v w) : SameNumber u w := by
  rcases h with ⟨_, rfl⟩ | ⟨s, t, rfl, rfl⟩
  · exact h'
  · rcases h' with ⟨_, rfl⟩ | ⟨_, t', _, rfl⟩
    · exact sameNumber_zero s t
    · exact sameNumber_zero s t'

theorem isFinite (h : SameNumber u v) (hu : u.isFinite = true) : v.isFinite = true := by
  rcases h with ⟨_, rfl⟩ | ⟨s, t, rfl, rfl⟩
  · exact hu
  · rfl

end SameNumber

theorem beq_eq_true_iff {u v : UnpackedFloat} : u.beq v = true ↔ SameNumber u v := by
  rw [beq_iff_ne_notANumber_and_eq]
  refine ⟨?_, ?_⟩
  · intro h
    obtain ⟨hu, _, hsame⟩ := h
    rcases hsame with heq | ⟨hpos, hneg⟩ | ⟨hneg, hpos⟩
    · exact .inl ⟨hu, heq⟩
    · exact .inr ⟨_, _, hpos, hneg⟩
    · exact .inr ⟨_, _, hneg, hpos⟩
  · intro h
    rcases h with ⟨hu, rfl⟩ | ⟨s, t, rfl, rfl⟩
    · exact ⟨hu, hu, .inl rfl⟩
    · cases s <;> cases t <;> simp

/-! ### Equal operands -/

/-- The operation gives equal results on equal operands, as long as the result is finite. -/
def RespectsSameNumber (f : UnpackedFloat → UnpackedFloat → UnpackedFloat) : Prop :=
  ∀ u u' v v', SameNumber u u' → SameNumber v v' → (f u v).isFinite = true →
    SameNumber (f u v) (f u' v')

/-- What there is to show of an operation is that it does not tell zeros apart by their sign. -/
theorem respectsSameNumber_of_zero {f : UnpackedFloat → UnpackedFloat → UnpackedFloat}
    (hleft : ∀ s s' v, (f (.zero s) v).isFinite = true → SameNumber (f (.zero s) v) (f (.zero s') v))
    (hright : ∀ u s s', (f u (.zero s)).isFinite = true →
      SameNumber (f u (.zero s)) (f u (.zero s'))) : RespectsSameNumber f := by
  intro u u' v v' hu hv hfin
  have hfirst : SameNumber (f u v) (f u' v) := by
    rcases hu with ⟨_, rfl⟩ | ⟨s, s', rfl, rfl⟩
    · exact sameNumber_of_isFinite hfin
    · exact hleft s s' v hfin
  have hfin' : (f u' v).isFinite = true := hfirst.isFinite hfin
  have hsecond : SameNumber (f u' v) (f u' v') := by
    rcases hv with ⟨_, rfl⟩ | ⟨t, t', rfl, rfl⟩
    · exact sameNumber_of_isFinite hfin'
    · exact hright u' t t' hfin'
  exact hfirst.trans hsecond

theorem respectsSameNumber_add : RespectsSameNumber (UnpackedFloat.add Format.binary64) := by
  refine respectsSameNumber_of_zero ?_ ?_
  · intro s s' v hfin
    cases v with
    | zero t => cases s <;> cases s' <;> cases t <;> exact sameNumber_zero _ _
    | _ => exact sameNumber_of_isFinite hfin
  · intro u t t' hfin
    cases u with
    | zero s => cases s <;> cases t <;> cases t' <;> exact sameNumber_zero _ _
    | _ => exact sameNumber_of_isFinite hfin

theorem respectsSameNumber_sub : RespectsSameNumber (UnpackedFloat.sub Format.binary64) := by
  refine respectsSameNumber_of_zero ?_ ?_
  · intro s s' v hfin
    cases v with
    | zero t => cases s <;> cases s' <;> cases t <;> exact sameNumber_zero _ _
    | _ => exact sameNumber_of_isFinite hfin
  · intro u t t' hfin
    cases u with
    | zero s => cases s <;> cases t <;> cases t' <;> exact sameNumber_zero _ _
    | _ => exact sameNumber_of_isFinite hfin

theorem respectsSameNumber_mul : RespectsSameNumber (UnpackedFloat.mul Format.binary64) := by
  refine respectsSameNumber_of_zero ?_ ?_
  · intro s s' v hfin
    cases v with
    | zero t => exact sameNumber_zero _ _
    | finite t m e hm => exact sameNumber_zero _ _
    | _ => exact absurd hfin Bool.false_ne_true
  · intro u t t' hfin
    cases u with
    | zero s => exact sameNumber_zero _ _
    | finite s m e hm => exact sameNumber_zero _ _
    | _ => exact absurd hfin Bool.false_ne_true

theorem respectsSameNumber_div : RespectsSameNumber (UnpackedFloat.div Format.binary64) := by
  refine respectsSameNumber_of_zero ?_ ?_
  · intro s s' v hfin
    cases v with
    | infinity t => exact sameNumber_zero _ _
    | finite t m e hm => exact sameNumber_zero _ _
    | _ => exact absurd hfin Bool.false_ne_true
  · intro u t t' hfin
    cases u <;> exact absurd hfin Bool.false_ne_true

/-! ### Zero and one as operands -/

section Operands

variable {u : UnpackedFloat}

theorem add_zero_same (hu : u.isFinite = true) :
    SameNumber (UnpackedFloat.add Format.binary64 u (.zero .positive)) u := by
  cases u with
  | zero s => cases s <;> exact sameNumber_zero _ _
  | _ => exact sameNumber_of_isFinite hu

theorem zero_add_same (hu : u.isFinite = true) :
    SameNumber (UnpackedFloat.add Format.binary64 (.zero .positive) u) u := by
  cases u with
  | zero s => cases s <;> exact sameNumber_zero _ _
  | _ => exact sameNumber_of_isFinite hu

theorem sub_zero_same (hu : u.isFinite = true) :
    SameNumber (UnpackedFloat.sub Format.binary64 u (.zero .positive)) u := by
  cases u with
  | zero s => cases s <;> exact sameNumber_zero _ _
  | _ => exact sameNumber_of_isFinite hu

theorem mul_zero_same (hu : u.isFinite = true) :
    SameNumber (UnpackedFloat.mul Format.binary64 u (.zero .positive)) (.zero .positive) := by
  cases u with
  | zero s => exact sameNumber_zero _ _
  | finite s m e hm => exact sameNumber_zero _ _
  | _ => exact absurd hu Bool.false_ne_true

theorem zero_mul_same (hu : u.isFinite = true) :
    SameNumber (UnpackedFloat.mul Format.binary64 (.zero .positive) u) (.zero .positive) := by
  cases u with
  | zero s => exact sameNumber_zero _ _
  | finite s m e hm => exact sameNumber_zero _ _
  | _ => exact absurd hu Bool.false_ne_true

theorem zero_div_same (hu : u.isFinite = true) (hne : ¬SameNumber u (.zero .positive)) :
    SameNumber (UnpackedFloat.div Format.binary64 (.zero .positive) u) (.zero .positive) := by
  cases u with
  | zero s => exact absurd (sameNumber_zero s .positive) hne
  | finite s m e hm => exact sameNumber_zero _ _
  | _ => exact absurd hu Bool.false_ne_true

theorem mul_one_same (hrep : Representable u) (hu : u.isFinite = true) :
    SameNumber (UnpackedFloat.mul Format.binary64 u unpackedOne) u := by
  cases u with
  | zero s => exact sameNumber_zero _ _
  | finite s m e hm =>
    have hsign : s * Sign.positive = s := by cases s <;> rfl
    have hmul : UnpackedFloat.mul Format.binary64 (.finite s m e hm) unpackedOne =
        .finite s m e hm := by
      simp only [UnpackedFloat.mul, unpackedOne, hsign]
      exact roundWithAccuracy_canonical hrep s 52
    rw [hmul]
    exact sameNumber_of_isFinite hu
  | _ => exact absurd hu Bool.false_ne_true

theorem one_mul_same (hrep : Representable u) (hu : u.isFinite = true) :
    SameNumber (UnpackedFloat.mul Format.binary64 unpackedOne u) u := by
  cases u with
  | zero s => exact sameNumber_zero _ _
  | finite s m e hm =>
    have hsign : Sign.positive * s = s := by cases s <;> rfl
    have hmul : UnpackedFloat.mul Format.binary64 unpackedOne (.finite s m e hm) =
        .finite s m e hm := by
      simp only [UnpackedFloat.mul, unpackedOne, hsign, Nat.mul_comm (2 ^ 52), Int.add_comm (-52)]
      exact roundWithAccuracy_canonical hrep s 52
    rw [hmul]
    exact sameNumber_of_isFinite hu
  | _ => exact absurd hu Bool.false_ne_true

/-- The quotient by one is the dividend with zeros appended to its mantissa. -/
theorem divCore_one {m : Nat} {e : Int} (h : Canonical m e) :
    ∃ k : Nat, divCore Format.binary64 m e (2 ^ 52) (-52) = (m * 2 ^ k, e - k, .exact) := by
  have hlog := h.log2_eq
  have hlt := h.log2_lt
  have hleast := h.least
  have hone : totalExponent (2 ^ 52) (-52) = 1 := by
    rw [totalExponent, Nat.log2_two_pow]
    rfl
  have htarget : Format.binary64.targetExponent (totalExponent m e - 1) =
      max (m.log2 + e - 53) (-1074) := by
    rw [targetExponent_binary64, totalExponent]
    congr 1
    omega
  obtain ⟨k, hk⟩ : ∃ k : Nat, min (e - -52) (max (m.log2 + e - 53) (-1074)) = e - k :=
    ⟨(e - max (m.log2 + e - 53) (-1074)).toNat, by omega⟩
  have hshift : (e - -52 - (e - k)).toNat = k + 52 := by omega
  have hmul : m * 2 ^ (k + 52) = m * 2 ^ k * 2 ^ 52 := by rw [Nat.pow_add, Nat.mul_assoc]
  have hdiv : m * 2 ^ (k + 52) / 2 ^ 52 = m * 2 ^ k := by
    rw [hmul, Nat.mul_div_cancel _ (Nat.two_pow_pos 52)]
  have hmod : m * 2 ^ (k + 52) % 2 ^ 52 = 0 := by rw [hmul, Nat.mul_mod_left]
  refine ⟨k, ?_⟩
  simp only [divCore, hone, htarget, hk, hshift, Nat.shiftLeft_eq, hdiv, hmod, accuracyOfFraction,
    if_true]

theorem div_one_same (hrep : Representable u) (hu : u.isFinite = true) :
    SameNumber (UnpackedFloat.div Format.binary64 u unpackedOne) u := by
  cases u with
  | zero s => exact sameNumber_zero _ _
  | finite s m e hm =>
    obtain ⟨k, hk⟩ := divCore_one hrep
    have hsign : s / Sign.positive = s := by cases s <;> rfl
    have hdiv : UnpackedFloat.div Format.binary64 (.finite s m e hm) unpackedOne =
        .finite s m e hm := by
      simp only [UnpackedFloat.div, unpackedOne, hk, hsign]
      exact roundWithAccuracy_canonical hrep s k
    rw [hdiv]
    exact sameNumber_of_isFinite hu
  | _ => exact absurd hu Bool.false_ne_true

end Operands

/-! ### Floats and their unpacked form -/

theorem float_beq_iff {x y : Float} :
    (x == y) = true ↔ SameNumber x.toModel.unpack y.toModel.unpack := beq_eq_true_iff

theorem float_isFinite_zero : (0 : Float).isFinite = true := rfl

theorem float_isFinite_one : (1 : Float).isFinite = true := rfl

theorem float_beq_self {x : Float} (h : x.isFinite = true) : (x == x) = true :=
  float_beq_iff.2 (sameNumber_of_isFinite h)

theorem representable_float (x : Float) : Representable x.toModel.unpack := representable_unpack _

theorem representable_of_sameNumber {u v : UnpackedFloat} (h : SameNumber u v)
    (hv : Representable v) : Representable u := by
  rcases h with ⟨_, rfl⟩ | ⟨s, t, rfl, rfl⟩
  · exact hv
  · trivial

theorem isFinite_of_pack {u : UnpackedFloat} (h : (Float.Model.pack u).unpack.isFinite = true) :
    u.isFinite = true := by
  cases u with
  | notANumber => exact h
  | infinity s => cases s <;> exact h
  | _ => rfl

/-- A result that is the same number as a float packs to an equal float. -/
theorem beq_of_sameNumber {u : UnpackedFloat} {x : Float} (h : SameNumber u x.toModel.unpack) :
    (Float.ofModel (Float.Model.pack u) == x) = true := by
  have hrep : Representable u := representable_of_sameNumber h (representable_float x)
  refine float_beq_iff.2 ?_
  show SameNumber (Float.Model.pack u).unpack x.toModel.unpack
  rw [unpack_pack hrep]
  exact h

/-- Packing keeps what an operation does with equal operands. -/
theorem beq_pack_of_respects {f : UnpackedFloat → UnpackedFloat → UnpackedFloat}
    (hf : RespectsSameNumber f) {x x' y y' : Float} (hx : (x == x') = true) (hy : (y == y') = true)
    (hfin : (Float.ofModel (Float.Model.pack (f x.toModel.unpack y.toModel.unpack))).isFinite = true) :
    (Float.ofModel (Float.Model.pack (f x.toModel.unpack y.toModel.unpack)) ==
      Float.ofModel (Float.Model.pack (f x'.toModel.unpack y'.toModel.unpack))) = true := by
  have hsame := hf _ _ _ _ (float_beq_iff.1 hx) (float_beq_iff.1 hy) (isFinite_of_pack hfin)
  rcases hsame with ⟨_, heq⟩ | ⟨s, t, hs, ht⟩
  · rw [← heq]
    exact float_beq_self hfin
  · rw [hs, ht]
    exact beq_of_sameNumber (.inr ⟨s, t, rfl, unpack_pack trivial⟩)

/-! ### The identities -/

section Identities

variable {x : Float}

theorem float_add_zero (h : x.isFinite = true) : (x + 0 == x) = true :=
  beq_of_sameNumber (add_zero_same h)

theorem float_zero_add (h : x.isFinite = true) : (0 + x == x) = true :=
  beq_of_sameNumber (zero_add_same h)

theorem float_sub_zero (h : x.isFinite = true) : (x - 0 == x) = true :=
  beq_of_sameNumber (sub_zero_same h)

theorem float_mul_zero (h : x.isFinite = true) : (x * 0 == 0) = true :=
  beq_of_sameNumber (mul_zero_same h)

theorem float_zero_mul (h : x.isFinite = true) : (0 * x == 0) = true :=
  beq_of_sameNumber (zero_mul_same h)

theorem float_mul_one (h : x.isFinite = true) : (x * 1 == x) = true :=
  beq_of_sameNumber (mul_one_same (representable_float x) h)

theorem float_one_mul (h : x.isFinite = true) : (1 * x == x) = true :=
  beq_of_sameNumber (one_mul_same (representable_float x) h)

theorem float_div_one (h : x.isFinite = true) : (x / 1 == x) = true :=
  beq_of_sameNumber (div_one_same (representable_float x) h)

theorem float_zero_div (h : x.isFinite = true) (hne : (x == 0) = false) : (0 / x == 0) = true := by
  have hne' : ¬SameNumber x.toModel.unpack (.zero .positive) := by
    intro hsame
    have heq : (x == 0) = true := float_beq_iff.2 hsame
    rw [heq] at hne
    exact Bool.noConfusion hne
  exact beq_of_sameNumber (zero_div_same h hne')

theorem float_zero_div_zero : (0 / 0 : Float).isFinite = false := rfl

end Identities

end ExprCalculus
