import ExprCalculus.Proofs.Derivative.ExactValue

/-!
# Derivatives and dual numbers

A derivative, evaluated exactly in a field, is the `ε`-part of the source evaluated over the dual numbers,
where the variable carries `1` and every other name `0` as its `ε`-part. Sine and cosine may be any two
functions.
-/

namespace ExprCalculus

open TrivSqZeroExt DualNumber

def boundRational? (bindings : Bindings Float) (name : String) : Option ℚ :=
  (bindings.get? name).bind rational?

/-- Names with their exact values. -/
def plainEnvironment (K : Type*) [Field K] (bindings : Bindings Float) (name : String) : Option K :=
  (boundRational? bindings name).map fun q : ℚ => (q : K)

/-- Names with their exact values, and with `ε` added to that of `x`. -/
def dualEnvironment (K : Type*) [Field K] (bindings : Bindings Float) (x name : String) : Option K[ε] :=
  (boundRational? bindings name).map fun q : ℚ => inl (q : K) + if name = x then ε else 0

namespace Expr

open Operator ExactArithmetic

/-! ### What is asked of the source -/

/-- The number at the root, if there is one, is finite. -/
def HasFiniteNumber (e : Expr Float) : Prop :=
  ∀ c l r, e = node (.number c) l r → c.isFinite = true

/-- The exponent at the root, if it is a literal, is an integer that can be lowered exactly. -/
def HasIntegerExponent (ops : OperatorSet) (e : Expr Float) : Prop :=
  ∀ a l c, e = node a l (number c) → ops.operator? a = some .power →
    ∃ n : ℤ, rational? c = some (n : ℚ) ∧ n.natAbs < 2 ^ 53

section Regular

variable {A : Type*} [CommRing A]

/-- The root divides by something other than zero, if it divides. -/
def HasNonzeroDivisor (M : ExactArithmetic A) (ops : OperatorSet) (env : String → Option A)
    (e : Expr Float) : Prop :=
  ∀ a l r, e = node a l r → ops.operator? a = some .division → r.exactValue M ops env ≠ some 0

/-- The root raises to an exponent that is not positive only what is not zero. -/
def HasNonzeroBase (M : ExactArithmetic A) (ops : OperatorSet) (env : String → Option A)
    (e : Expr Float) : Prop :=
  ∀ a l c n, e = node a l (number c) → ops.operator? a = some .power → integer? c = some n → n ≤ 0 →
    l.exactValue M ops env ≠ some 0

end Regular

/-- A node at which the rules of differentiation are those of the dual numbers. -/
structure Regular {K : Type*} [Field K] (S C : K → K) (ops : OperatorSet) (bindings : Bindings Float)
    (e : Expr Float) : Prop where
  number : e.HasFiniteNumber
  exponent : e.HasIntegerExponent ops
  divisor : e.HasNonzeroDivisor (plain S C) ops (plainEnvironment K bindings)
  base : e.HasNonzeroBase (plain S C) ops (plainEnvironment K bindings)

variable {K : Type*} [Field K] {S C : K → K} {ops : OperatorSet} {bindings : Bindings Float}
  {x : String}

/-- The exact values of a tree and of its derivative are the two parts of one dual number. -/
def Tangent (S C : K → K) (ops : OperatorSet) (bindings : Bindings Float) (x : String)
    (e d : Expr Float) (z : K[ε]) : Prop :=
  e.exactValue (dual S C) ops (dualEnvironment K bindings x) = some z ∧
    e.exactValue (plain S C) ops (plainEnvironment K bindings) = some z.fst ∧
      d.exactValue (plain S C) ops (plainEnvironment K bindings) = some z.snd

/-! ### One rule at a time -/

theorem tangent_number {c : Float} {l r : Expr Float} (hc : c.isFinite = true) :
    ∃ z, Tangent S C ops bindings x (node (.number c) l r) (number Arithmetic.zero) z := by
  obtain ⟨q, hq⟩ := rational?_of_isFinite hc
  refine ⟨inl (q : K), exactValue_atom hq, ?_, ?_⟩
  · rw [exactValue_atom hq, fst_inl]
    rfl
  · rw [snd_inl, exactValue_number rational?_zero]
    simp [plain]

theorem tangent_variable {name : String} {v : Float} {l r : Expr Float} (hfree : ops.find? name = none)
    (hb : bindings.get? name = some v) (hv : v.isFinite = true) :
    ∃ z, Tangent S C ops bindings x (node (.symbol name) l r)
      (number (if name = x then Arithmetic.one else Arithmetic.zero)) z := by
  obtain ⟨q, hq⟩ := rational?_of_isFinite hv
  have hbq : boundRational? bindings name = some q := by rw [boundRational?, hb, Option.bind_some, hq]
  refine ⟨inl (q : K) + if name = x then ε else 0, ?_, ?_, ?_⟩
  · rw [exactValue_name hfree, dualEnvironment, hbq]
    rfl
  · rw [exactValue_name hfree, plainEnvironment, hbq]
    split <;> simp
  · split
    · rw [exactValue_number rational?_one]
      simp [plain]
    · rw [exactValue_number rational?_zero]
      simp [plain]

section Rules

variable {u v du dv : Expr Float} {z w : K[ε]} (hu : Tangent S C ops bindings x u du z)
include hu

theorem tangent_sum (hadd : ops.contains addition = true) (hv : Tangent S C ops bindings x v dv w) :
    Tangent S C ops bindings x (addition.tree u v) (addition.tree du dv) (z + w) := by
  obtain ⟨hz, hu, hdu⟩ := hu
  obtain ⟨hw, hv, hdv⟩ := hv
  exact ⟨exactValue_addition hadd hz hw, exactValue_addition hadd hu hv,
    exactValue_addition hadd hdu hdv⟩

theorem tangent_difference (hsub : ops.contains subtraction = true)
    (hv : Tangent S C ops bindings x v dv w) :
    Tangent S C ops bindings x (subtraction.tree u v) (subtraction.tree du dv) (z - w) := by
  obtain ⟨hz, hu, hdu⟩ := hu
  obtain ⟨hw, hv, hdv⟩ := hv
  exact ⟨exactValue_subtraction hsub hz hw, exactValue_subtraction hsub hu hv,
    exactValue_subtraction hsub hdu hdv⟩

theorem tangent_product (hmul : ops.contains multiplication = true) (hadd : ops.contains addition = true)
    (hv : Tangent S C ops bindings x v dv w) :
    Tangent S C ops bindings x (multiplication.tree u v)
      (addition.tree (multiplication.tree du v) (multiplication.tree u dv)) (z * w) := by
  obtain ⟨hz, hu, hdu⟩ := hu
  obtain ⟨hw, hv, hdv⟩ := hv
  refine ⟨exactValue_multiplication hmul hz hw, exactValue_multiplication hmul hu hv, ?_⟩
  have hvalue := exactValue_addition hadd (exactValue_multiplication hmul hdu hv)
    (exactValue_multiplication hmul hu hdv)
  rw [hvalue, DualNumber.snd_mul, add_comm]

theorem tangent_quotient (hdiv : ops.contains division = true)
    (hmul : ops.contains multiplication = true) (hsub : ops.contains subtraction = true)
    (hv : Tangent S C ops bindings x v dv w) (hne : w.fst ≠ 0) :
    ∃ q, Tangent S C ops bindings x (division.tree u v)
      (division.tree (subtraction.tree (multiplication.tree du v) (multiplication.tree u dv))
        (multiplication.tree v v)) q := by
  obtain ⟨hz, hu, hdu⟩ := hu
  obtain ⟨hw, hv, hdv⟩ := hv
  obtain ⟨q, hq, hfst, hsnd⟩ := quotient?_dual (z := z) hne
  refine ⟨q, ?_, ?_, ?_⟩
  · rw [exactValue_division hdiv hz hw, hq]
  · rw [exactValue_division hdiv hu hv, quotient?_field hne, hfst]
  · have hnumerator := exactValue_subtraction hsub (exactValue_multiplication hmul hdu hv)
      (exactValue_multiplication hmul hu hdv)
    rw [exactValue_division hdiv hnumerator (exactValue_multiplication hmul hv hv),
      quotient?_field (mul_ne_zero hne hne), hsnd]

theorem tangent_power (hpow : ops.contains power = true) (hmul : ops.contains multiplication = true)
    {c : Float} {n : ℤ} (hc : rational? c = some (n : ℚ)) (hn : n.natAbs < 2 ^ 53)
    (hbase : z.fst ≠ 0 ∨ 0 < n) :
    ∃ p, Tangent S C ops bindings x (power.tree u (number c))
      (multiplication.tree
        (multiplication.tree (number c) (power.tree u (number (c - Arithmetic.one)))) du) p := by
  obtain ⟨hz, hu, hdu⟩ := hu
  obtain ⟨p, hp, hfst, hsnd⟩ := integerPower?_dual hbase
  refine ⟨p, ?_, ?_, ?_⟩
  · rw [exactValue_power hpow hz hc, hp]
  · rw [exactValue_power hpow hu hc, integerPower?_field (hbase.imp_right (by omega)), hfst]
  · have hlowered := exactValue_power hpow hu (rational?_sub_one hc hn)
    rw [integerPower?_field (hbase.imp_right (by omega))] at hlowered
    have hscaled := exactValue_multiplication hmul (exactValue_number hc) hlowered
    have hvalue := exactValue_multiplication hmul hscaled hdu
    rw [hsnd]
    simpa [plain] using hvalue

theorem tangent_sine (hsin : ops.contains sine = true) (hcos : ops.contains cosine = true)
    (hmul : ops.contains multiplication = true) :
    Tangent S C ops bindings x (sine.tree u v) (multiplication.tree (cosine.tree u empty) du)
      ((dual S C).sin z) := by
  obtain ⟨hz, hu, hdu⟩ := hu
  refine ⟨exactValue_sine hsin hz, ?_, ?_⟩
  · rw [exactValue_sine hsin hu]
    simp [plain, dual]
  · rw [exactValue_multiplication hmul (exactValue_cosine hcos hu) hdu]
    simp [plain, dual]

theorem tangent_cosine (hcos : ops.contains cosine = true) (hsin : ops.contains sine = true)
    (hmul : ops.contains multiplication = true) :
    Tangent S C ops bindings x (cosine.tree u v)
      (multiplication.tree (multiplication.tree (number Arithmetic.negOne) (sine.tree u empty)) du)
      ((dual S C).cos z) := by
  obtain ⟨hz, hu, hdu⟩ := hu
  refine ⟨exactValue_cosine hcos hz, ?_, ?_⟩
  · rw [exactValue_cosine hcos hu]
    simp [plain, dual]
  · have hminus := exactValue_multiplication hmul (exactValue_number rational?_negOne)
      (exactValue_sine (r := empty) hsin hu)
    have hvalue := exactValue_multiplication hmul hminus hdu
    simpa [plain, dual] using hvalue

end Rules

/-! ### Whole trees -/

theorem tangent_of_derived {e d : Expr Float}
    (hbound : ∀ name v, bindings.get? name = some v → v.isFinite = true)
    (h : Derived ops bindings x e d) (hreg : e.Everywhere (Regular S C ops bindings)) :
    ∃ z, Tangent S C ops bindings x e d z := by
  induction h with
  | number => exact tangent_number (hreg.1.number _ _ _ rfl)
  | «variable» hfree hb => exact tangent_variable hfree hb (hbound _ _ hb)
  | sum hadd _ _ ihu ihv =>
    obtain ⟨z, hu⟩ := ihu hreg.2.1
    obtain ⟨w, hv⟩ := ihv hreg.2.2
    exact ⟨z + w, tangent_sum hu hadd hv⟩
  | difference hsub _ _ ihu ihv =>
    obtain ⟨z, hu⟩ := ihu hreg.2.1
    obtain ⟨w, hv⟩ := ihv hreg.2.2
    exact ⟨z - w, tangent_difference hu hsub hv⟩
  | product hmul hadd _ _ ihu ihv =>
    obtain ⟨z, hu⟩ := ihu hreg.2.1
    obtain ⟨w, hv⟩ := ihv hreg.2.2
    exact ⟨z * w, tangent_product hu hmul hadd hv⟩
  | quotient hdiv hmul hsub _ _ ihu ihv =>
    obtain ⟨hroot, hlreg, hrreg⟩ := hreg
    obtain ⟨z, hu⟩ := ihu hlreg
    obtain ⟨w, hv⟩ := ihv hrreg
    have hne : w.fst ≠ 0 := by
      intro hzero
      have hvalue := hv.2.1
      rw [hzero] at hvalue
      exact hroot.divisor _ _ _ rfl (OperatorSet.find?_symbol hdiv) hvalue
    exact tangent_quotient hu hdiv hmul hsub hv hne
  | power hpow hmul _ ihu =>
    obtain ⟨hroot, hlreg, _⟩ := hreg
    obtain ⟨z, hu⟩ := ihu hlreg
    have hop := OperatorSet.find?_symbol hpow
    obtain ⟨n, hc, hn⟩ := hroot.exponent _ _ _ rfl hop
    -- For the exponent zero the derivative still lowers it to `-1`, so here too the base must not be zero.
    have hbase : z.fst ≠ 0 ∨ 0 < n := by
      by_cases hpos : 0 < n
      · exact .inr hpos
      · refine .inl fun hzero => ?_
        have hvalue := hu.2.1
        rw [hzero] at hvalue
        exact hroot.base _ _ _ n rfl hop (integer?_eq_some_iff.2 hc) (by omega) hvalue
    exact tangent_power hu hpow hmul hc hn hbase
  | sine hsin hcos hmul _ ihu =>
    obtain ⟨z, hu⟩ := ihu hreg.2.1
    exact ⟨_, tangent_sine hu hsin hcos hmul⟩
  | cosine hcos hsin hmul _ ihu =>
    obtain ⟨z, hu⟩ := ihu hreg.2.1
    exact ⟨_, tangent_cosine hu hcos hsin hmul⟩

/-- The source has an exact value among the dual numbers. Its two parts are the exact values of the source and of
its derivative in the field. -/
theorem exactValue_differentiate {e d : Expr Float} (hd : e.differentiate ops bindings x = .ok d)
    (hbound : ∀ name v, bindings.get? name = some v → v.isFinite = true)
    (hreg : e.Everywhere (Regular S C ops bindings)) :
    ∃ z : K[ε], e.exactValue (dual S C) ops (dualEnvironment K bindings x) = some z ∧
      e.exactValue (plain S C) ops (plainEnvironment K bindings) = some z.fst ∧
        d.exactValue (plain S C) ops (plainEnvironment K bindings) = some z.snd := by
  have hderive : e.derive ops bindings x = .ok d := (differentiate_eq_ok_iff.1 hd).2
  exact tangent_of_derived hbound (derived_of_derive hderive) hreg

/-! ### A run -/

/-- `sin (x ^ -2) / y`. -/
def wave : Expr Float :=
  division.tree (sine.tree (power.tree (symbol "x") (number (-2))) empty) (symbol "y")

def waveBindings : Bindings Float := ⟨[("x", 3), ("y", 2)]⟩

theorem regular_leaf {a : Atom Float} (hop : ops.operator? a = none)
    (hnum : ∀ c, a = .number c → c.isFinite = true) : (leaf a).Regular S C ops bindings where
  number := by
    intro c l r heq
    cases heq
    exact hnum c rfl
  exponent := by rintro a l c ⟨⟩
  divisor := by
    intro a l r heq hdiv
    cases heq
    exact absurd (hop.symm.trans hdiv) (Option.some_ne_none _).symm
  base := by rintro a l c n ⟨⟩

theorem regular_operator {op : Operator} {l r : Expr Float} (h : ops.contains op = true)
    (hexp : op = .power → ∀ c, r = number c → ∃ n : ℤ, rational? c = some (n : ℚ) ∧ n.natAbs < 2 ^ 53)
    (hdiv : op = .division → r.exactValue (plain S C) ops (plainEnvironment K bindings) ≠ some 0)
    (hbase : op = .power → l.exactValue (plain S C) ops (plainEnvironment K bindings) ≠ some 0) :
    (op.tree l r).Regular S C ops bindings where
  number := by
    intro c l r heq
    cases heq
  exponent := by
    intro a l c heq hpow
    cases heq
    exact hexp (Option.some.inj ((OperatorSet.find?_symbol h).symm.trans hpow)) c rfl
  divisor := by
    intro a l r heq hop
    cases heq
    exact hdiv (Option.some.inj ((OperatorSet.find?_symbol h).symm.trans hop))
  base := by
    intro a l c n heq hpow _ _
    cases heq
    exact hbase (Option.some.inj ((OperatorSet.find?_symbol h).symm.trans hpow))

theorem regular_wave : wave.Everywhere (Regular (fun t : ℚ => 2 * t) (fun t => t * t) .full waveBindings) := by
  have hx : boundRational? waveBindings "x" = some 3 := by
    show some (((3 * 2 ^ 51 : Nat) : ℚ) * 2 ^ (-51 : ℤ)) = some 3
    norm_num
  have hy : boundRational? waveBindings "y" = some 2 := by
    show some (((2 ^ 52 : Nat) : ℚ) * 2 ^ (-51 : ℤ)) = some 2
    norm_num
  have hexp : rational? (-2) = some ((-2 : ℤ) : ℚ) := by
    show some (((-(2 ^ 52 : Nat) : ℤ) : ℚ) * 2 ^ (-51 : ℤ)) = _
    norm_num
  have hleaf : ∀ a : Atom Float, OperatorSet.full.operator? a = none →
      (∀ c, a = .number c → c.isFinite = true) →
      (leaf a).Everywhere (Regular (fun t : ℚ => 2 * t) (fun t => t * t) .full waveBindings) :=
    fun a hop hnum => ⟨regular_leaf hop hnum, trivial, trivial⟩
  have hsymbol : ∀ name (c : Float), Atom.symbol name = .number c → c.isFinite = true := by
    intro name c heq
    cases heq
  refine ⟨regular_operator rfl nofun ?_ nofun,
    ⟨regular_operator rfl nofun nofun nofun, ⟨regular_operator rfl ?_ nofun ?_, ?_, ?_⟩, trivial⟩, ?_⟩
  · intro _ hzero
    rw [symbol, leaf, exactValue_name (by decide), plainEnvironment, hy] at hzero
    simp at hzero
  · intro _ c heq
    cases heq
    exact ⟨-2, hexp, by decide⟩
  · intro _ hzero
    rw [symbol, leaf, exactValue_name (by decide), plainEnvironment, hx] at hzero
    simp at hzero
  · exact hleaf _ (by decide) (hsymbol "x")
  · refine hleaf _ (by decide) ?_
    intro c heq
    cases heq
    rfl
  · exact hleaf _ (by decide) (hsymbol "y")

theorem exactValue_differentiate_wave :
    (∀ name v, waveBindings.get? name = some v → v.isFinite = true) ∧
      wave.Everywhere (Regular (fun t : ℚ => 2 * t) (fun t => t * t) .full waveBindings) ∧
      ∃ d, wave.differentiate .full waveBindings "x" = .ok d ∧
        ∃ z : ℚ[ε], wave.exactValue (dual (fun t : ℚ => 2 * t) fun t => t * t) .full
            (dualEnvironment ℚ waveBindings "x") = some z ∧
          wave.exactValue (plain (fun t : ℚ => 2 * t) fun t => t * t) .full
            (plainEnvironment ℚ waveBindings) = some z.fst ∧
          d.exactValue (plain (fun t : ℚ => 2 * t) fun t => t * t) .full
            (plainEnvironment ℚ waveBindings) = some z.snd := by
  have hbound : ∀ name v, waveBindings.get? name = some v → v.isFinite = true := by
    intro name v h
    simp only [waveBindings, Dictionary.get?, List.lookup_cons, List.lookup_nil] at h
    split at h
    · obtain rfl := Option.some.inj h
      rfl
    · split at h
      · obtain rfl := Option.some.inj h
        rfl
      · cases h
  exact ⟨hbound, regular_wave, _, rfl, exactValue_differentiate rfl hbound regular_wave⟩

end Expr
end ExprCalculus
