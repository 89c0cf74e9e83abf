import ExprCalculus.Proofs.Number.Identities

/-!
# Numeric equality on all binary64 numbers

`SameValue` extends numeric equality to NaN, which here equals itself. The four operations respect it
everywhere but at a zero divisor, and the identities that keep an operand hold without restriction. The
identities that put a zero in place of an operand hold as long as the other operand is finite, or no NaN
below a fraction line.
-/

namespace ExprCalculus

open Float.Model UnpackedFloat

/-- The same number, infinity or NaN, or two zeros of any signs. -/
def SameUnpacked (u v : UnpackedFloat) : Prop := u = v ∨ ∃ s t, u = .zero s ∧ v = .zero t

/-- Numerically equal, or both NaN. -/
def SameValue (x y : Float) : Prop := (x == y) = true ∨ x.isNaN = true ∧ y.isNaN = true

theorem float_isNaN_iff {x : Float} : x.isNaN = true ↔ x.toModel.unpack = .notANumber := isNaN_iff

theorem sameUnpacked_iff {u v : UnpackedFloat} :
    SameUnpacked u v ↔ SameNumber u v ∨ u = .notANumber ∧ v = .notANumber := by
  constructor
  · rintro (rfl | hzero)
    · by_cases hu : u = .notANumber
      · exact .inr ⟨hu, hu⟩
      · exact .inl (.inl ⟨hu, rfl⟩)
    · exact .inl (.inr hzero)
  · rintro ((⟨_, heq⟩ | hzero) | ⟨rfl, rfl⟩)
    · exact .inl heq
    · exact .inr hzero
    · exact .inl rfl

theorem sameValue_iff {x y : Float} : SameValue x y ↔ SameUnpacked x.toModel.unpack y.toModel.unpack := by
  rw [sameUnpacked_iff, SameValue, float_beq_iff, float_isNaN_iff, float_isNaN_iff]

theorem float_eq_of_unpack {x y : Float} (h : x.toModel.unpack = y.toModel.unpack) : x = y := by
  have hbits : x.toModel.toBits.toBitVec = y.toModel.toBits.toBitVec :=
    (unpack_inj_of_valid x.toModel.valid y.toModel.valid).1 h
  exact Float.toBits_inj.1 (UInt64.toBitVec_inj.1 hbits)

theorem isZero_iff {x : Float} : (x == 0) = true ↔ ∃ s, x.toModel.unpack = .zero s := by
  rw [float_beq_iff]
  constructor
  · rintro (⟨_, h⟩ | ⟨s, _, h, _⟩)
    · exact ⟨.positive, h⟩
    · exact ⟨s, h⟩
  · rintro ⟨s, h⟩
    exact .inr ⟨s, .positive, h, rfl⟩

/-- Numbers that are equal in this sense are identical or both zero. -/
theorem sameValue_iff_eq {x y : Float} : SameValue x y ↔ x = y ∨ (x == 0) = true ∧ (y == 0) = true := by
  rw [sameValue_iff, isZero_iff, isZero_iff]
  constructor
  · rintro (h | ⟨s, t, hs, ht⟩)
    · exact .inl (float_eq_of_unpack h)
    · exact .inr ⟨⟨s, hs⟩, t, ht⟩
  · rintro (rfl | ⟨⟨s, hs⟩, t, ht⟩)
    · exact .inl rfl
    · exact .inr ⟨s, t, hs, ht⟩

theorem sameValue_of_beq {x y : Float} (h : (x == y) = true) : SameValue x y := .inl h

theorem sameValue_refl (x : Float) : SameValue x x := sameValue_iff.2 (.inl rfl)

theorem SameValue.symm {x y : Float} (h : SameValue x y) : SameValue y x :=
  sameValue_iff_eq.2 ((sameValue_iff_eq.1 h).imp Eq.symm And.symm)

theorem SameValue.trans {x y z : Float} (h : SameValue x y) (h' : SameValue y z) : SameValue x z := by
  rcases sameValue_iff_eq.1 h with rfl | ⟨hx, hy⟩
  · exact h'
  · rcases sameValue_iff_eq.1 h' with rfl | ⟨_, hz⟩
    · exact h
    · exact sameValue_iff_eq.2 (.inr ⟨hx, hz⟩)

/-! ### Equal operands -/

theorem sameUnpacked_zero (s t : Sign) : SameUnpacked (.zero s) (.zero t) := .inr ⟨s, t, rfl, rfl⟩

/-- A result packs to a float of the same value. -/
theorem sameValue_pack {u v : UnpackedFloat} (h : SameUnpacked u v) :
    SameValue (Float.ofModel (Float.Model.pack u)) (Float.ofModel (Float.Model.pack v)) := by
  rcases h with rfl | ⟨s, t, rfl, rfl⟩
  · exact sameValue_refl _
  · exact sameValue_iff.2 (.inr ⟨s, t, unpack_pack trivial, unpack_pack trivial⟩)

theorem sameValue_pack_left {u : UnpackedFloat} {x : Float} (h : SameUnpacked u x.toModel.unpack) :
    SameValue (Float.ofModel (Float.Model.pack u)) x := by
  have hrep : Representable u := by
    rcases h with rfl | ⟨s, _, rfl, _⟩
    · exact representable_float x
    · trivial
  refine sameValue_iff.2 ?_
  show SameUnpacked (Float.Model.pack u).unpack x.toModel.unpack
  rw [unpack_pack hrep]
  exact h

/-- The operation does not tell the signs of a zero on the left apart. -/
def IgnoresLeftSign (f : UnpackedFloat → UnpackedFloat → UnpackedFloat) : Prop :=
  ∀ s s' v, SameUnpacked (f (.zero s) v) (f (.zero s') v)

/-- The operation does not tell the signs of a zero on the right apart. -/
def IgnoresRightSign (f : UnpackedFloat → UnpackedFloat → UnpackedFloat) : Prop :=
  ∀ u s s', SameUnpacked (f u (.zero s)) (f u (.zero s'))

theorem SameUnpacked.left {f : UnpackedFloat → UnpackedFloat → UnpackedFloat} (hf : IgnoresLeftSign f)
    {u u' : UnpackedFloat} (hu : SameUnpacked u u') (v : UnpackedFloat) :
    SameUnpacked (f u v) (f u' v) := by
  rcases hu with rfl | ⟨s, s', rfl, rfl⟩
  · exact .inl rfl
  · exact hf s s' v

theorem SameUnpacked.right {f : UnpackedFloat → UnpackedFloat → UnpackedFloat} (hf : IgnoresRightSign f)
    (u : UnpackedFloat) {v v' : UnpackedFloat} (hv : SameUnpacked v v') :
    SameUnpacked (f u v) (f u v') := by
  rcases hv with rfl | ⟨s, s', rfl, rfl⟩
  · exact .inl rfl
  · exact hf u s s'

theorem ignoresLeftSign_add : IgnoresLeftSign (UnpackedFloat.add Format.binary64) := by
  intro s s' v
  cases v with
  | zero t => cases s <;> cases s' <;> cases t <;> exact sameUnpacked_zero _ _
  | _ => exact .inl rfl

theorem ignoresRightSign_add : IgnoresRightSign (UnpackedFloat.add Format.binary64) := by
  intro u t t'
  cases u with
  | zero s => cases s <;> cases t <;> cases t' <;> exact sameUnpacked_zero _ _
  | _ => exact .inl rfl

theorem ignoresLeftSign_sub : IgnoresLeftSign (UnpackedFloat.sub Format.binary64) := by
  intro s s' v
  cases v with
  | zero t => cases s <;> cases s' <;> cases t <;> exact sameUnpacked_zero _ _
  | _ => exact .inl rfl

theorem ignoresRightSign_sub : IgnoresRightSign (UnpackedFloat.sub Format.binary64) := by
  intro u t t'
  cases u with
  | zero s => cases s <;> cases t <;> cases t' <;> exact sameUnpacked_zero _ _
  | _ => exact .inl rfl

theorem ignoresLeftSign_mul : IgnoresLeftSign (UnpackedFloat.mul Format.binary64) := by
  intro s s' v
  cases v with
  | zero t => exact sameUnpacked_zero _ _
  | finite t m e hm => exact sameUnpacked_zero _ _
  | _ => exact .inl rfl

theorem ignoresRightSign_mul : IgnoresRightSign (UnpackedFloat.mul Format.binary64) := by
  intro u t t'
  cases u with
  | zero s => exact sameUnpacked_zero _ _
  | finite s m e hm => exact sameUnpacked_zero _ _
  | _ => exact .inl rfl

theorem ignoresLeftSign_div : IgnoresLeftSign (UnpackedFloat.div Format.binary64) := by
  intro s s' v
  cases v with
  | infinity t => exact sameUnpacked_zero _ _
  | finite t m e hm => exact sameUnpacked_zero _ _
  | _ => exact .inl rfl

section Congruence

variable {x x' y y' : Float}

theorem SameValue.add (hx : SameValue x x') (hy : SameValue y y') : SameValue (x + y) (x' + y') := by
  have hleft : SameValue (x + y) (x' + y) :=
    sameValue_pack ((sameValue_iff.1 hx).left ignoresLeftSign_add _)
  exact hleft.trans (sameValue_pack (.right ignoresRightSign_add _ (sameValue_iff.1 hy)))

theorem SameValue.sub (hx : SameValue x x') (hy : SameValue y y') : SameValue (x - y) (x' - y') := by
  have hleft : SameValue (x - y) (x' - y) :=
    sameValue_pack ((sameValue_iff.1 hx).left ignoresLeftSign_sub _)
  exact hleft.trans (sameValue_pack (.right ignoresRightSign_sub _ (sameValue_iff.1 hy)))

theorem SameValue.mul (hx : SameValue x x') (hy : SameValue y y') : SameValue (x * y) (x' * y') := by
  have hleft : SameValue (x * y) (x' * y) :=
    sameValue_pack ((sameValue_iff.1 hx).left ignoresLeftSign_mul _)
  exact hleft.trans (sameValue_pack (.right ignoresRightSign_mul _ (sameValue_iff.1 hy)))

/-- Quotients by zero tell the signs of the zero apart, all others do not. -/
theorem SameValue.div (hx : SameValue x x') (hy : SameValue y y') (hne : (y == 0) = false) :
    SameValue (x / y) (x' / y') := by
  rcases sameValue_iff_eq.1 hy with rfl | ⟨hzero, _⟩
  · exact sameValue_pack ((sameValue_iff.1 hx).left ignoresLeftSign_div _)
  · rw [hne] at hzero
    cases hzero

end Congruence

/-! ### Identities -/

section Identities

variable (x : Float)

theorem sameValue_add_zero : SameValue (x + 0) x := by
  have hunpacked : ∀ u, SameUnpacked (UnpackedFloat.add Format.binary64 u (.zero .positive)) u := by
    intro u
    cases u with
    | zero s => cases s <;> exact sameUnpacked_zero _ _
    | _ => exact .inl rfl
  exact sameValue_pack_left (hunpacked _)

theorem sameValue_zero_add : SameValue (0 + x) x := by
  have hunpacked : ∀ u, SameUnpacked (UnpackedFloat.add Format.binary64 (.zero .positive) u) u := by
    intro u
    cases u with
    | zero s => cases s <;> exact sameUnpacked_zero _ _
    | _ => exact .inl rfl
  exact sameValue_pack_left (hunpacked _)

theorem sameValue_sub_zero : SameValue (x - 0) x := by
  have hunpacked : ∀ u, SameUnpacked (UnpackedFloat.sub Format.binary64 u (.zero .positive)) u := by
    intro u
    cases u with
    | zero s => cases s <;> exact sameUnpacked_zero _ _
    | _ => exact .inl rfl
  exact sameValue_pack_left (hunpacked _)

theorem sameValue_mul_one : SameValue (x * 1) x := by
  have hunpacked : ∀ u, Representable u →
      SameUnpacked (UnpackedFloat.mul Format.binary64 u unpackedOne) u := by
    intro u hrep
    cases u with
    | infinity s => cases s <;> exact .inl rfl
    | notANumber => exact .inl rfl
    | _ => exact sameUnpacked_iff.2 (.inl (mul_one_same hrep rfl))
  exact sameValue_pack_left (hunpacked _ (representable_float x))

theorem sameValue_one_mul : SameValue (1 * x) x := by
  have hunpacked : ∀ u, Representable u →
      SameUnpacked (UnpackedFloat.mul Format.binary64 unpackedOne u) u := by
    intro u hrep
    cases u with
    | infinity s => cases s <;> exact .inl rfl
    | notANumber => exact .inl rfl
    | _ => exact sameUnpacked_iff.2 (.inl (one_mul_same hrep rfl))
  exact sameValue_pack_left (hunpacked _ (representable_float x))

theorem sameValue_div_one : SameValue (x / 1) x := by
  have hunpacked : ∀ u, Representable u →
      SameUnpacked (UnpackedFloat.div Format.binary64 u unpackedOne) u := by
    intro u hrep
    cases u with
    | infinity s => cases s <;> exact .inl rfl
    | notANumber => exact .inl rfl
    | _ => exact sameUnpacked_iff.2 (.inl (div_one_same hrep rfl))
  exact sameValue_pack_left (hunpacked _ (representable_float x))

/-- Zero divided by anything but zero and NaN is zero. -/
theorem sameValue_zero_div {x : Float} (hne : (x == 0) = false) (hnan : x.isNaN = false) :
    SameValue (0 / x) 0 := by
  have hunpacked : SameUnpacked (UnpackedFloat.div Format.binary64 (.zero .positive) x.toModel.unpack)
      (.zero .positive) := by
    cases hu : x.toModel.unpack with
    | zero s =>
      rw [isZero_iff.2 ⟨s, hu⟩] at hne
      cases hne
    | notANumber =>
      rw [float_isNaN_iff.2 hu] at hnan
      cases hnan
    | _ => exact sameUnpacked_zero _ _
  exact sameValue_pack_left hunpacked

end Identities

end ExprCalculus
