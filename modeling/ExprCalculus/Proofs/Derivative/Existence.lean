import ExprCalculus.Proofs.Derivative.Usable

/-!
# When a derivative exists

Whether a tree has a derivative shows in the tree, the operators in use and the bindings before any rule is tried:
`Expr.IsDifferentiable` lists what it takes. If something is missing, the fault is a defect of the structure where
there is one, because that is checked first. The rules themselves can only meet names without a meaning, exponents
that are no literals, and operators that are not in use.
-/

namespace ExprCalculus

variable {ν : Type}

/-! ### Faults that the rules can meet -/

/-- All faults with which the run can end are invalid inputs or operations that are not supported. -/
def OnlyRefuses {α : Type} (run : Except (ExprFault ν) α) : Prop :=
  ∀ fault, run = .error fault → fault.kind = .invalidInput ∨ fault.kind = .unsupportedOperation

section Refusals

variable {α β : Type}

theorem onlyRefuses_ok (a : α) : OnlyRefuses (.ok a : Except (ExprFault ν) α) := by
  intro fault hfault
  cases hfault

theorem onlyRefuses_error {fault : ExprFault ν}
    (h : fault.kind = .invalidInput ∨ fault.kind = .unsupportedOperation) :
    OnlyRefuses (.error fault : Except (ExprFault ν) α) := by
  intro fault' hfault
  rw [← Except.error.inj hfault]
  exact h

theorem OnlyRefuses.bind {run : Except (ExprFault ν) α} {next : α → Except (ExprFault ν) β} (h : OnlyRefuses run)
    (hnext : ∀ a, OnlyRefuses (next a)) : OnlyRefuses (run >>= next) := by
  intro fault hfault
  rcases bind_eq_error_iff.1 hfault with hrun | ⟨a, _, hmore⟩
  · exact h fault hrun
  · exact hnext a fault hmore

theorem onlyRefuses_build (ops : OperatorSet) (op : Operator) (l r : Expr ν) : OnlyRefuses (ops.build op l r) := by
  have hsymbol : OnlyRefuses (ops.requireSymbol op : Except (ExprFault ν) String) := by
    unfold OperatorSet.requireSymbol
    split
    · exact onlyRefuses_ok _
    · exact onlyRefuses_error (.inr rfl)
  exact hsymbol.bind fun _ => onlyRefuses_ok _

end Refusals

namespace Expr

open Operator OperatorSet

variable {ops : OperatorSet} {bindings : Bindings ν} {x : String}

theorem kind_of_validateRoot_error {e : Expr ν} {fault : ExprFault ν}
    (h : e.validateRoot ops bindings = .error fault) : fault.kind = .structuralDefect := by
  have hleaf : ∀ {a : Atom ν}, (if e.isLeaf then .ok () else .error (.leafWithChildren a e.degree)) =
      (.error fault : Except (ExprFault ν) Unit) → fault.kind = .structuralDefect := by
    intro a hleaf
    split at hleaf
    · cases hleaf
    · obtain rfl := Except.error.inj hleaf
      rfl
  cases e with
  | empty => cases h
  | node a l r =>
    cases hm : ops.meaning bindings a with
    | number c =>
      simp only [validateRoot, hm] at h
      exact hleaf h
    | «variable» w =>
      simp only [validateRoot, hm] at h
      exact hleaf h
    | unresolved name =>
      simp only [validateRoot, hm] at h
      cases h
    | operator op =>
      simp only [validateRoot, hm, validateOperands] at h
      split at h
      · cases h
      · obtain rfl := Except.error.inj h
        rfl

theorem kind_of_validate_error {e : Expr ν} {fault : ExprFault ν} (h : e.validate ops bindings = .error fault) :
    fault.kind = .structuralDefect := by
  induction e with
  | empty => cases h
  | node a l r ihl ihr =>
    simp only [validate, bind_eq_error_iff] at h
    rcases h with hroot | ⟨_, _, hl | ⟨_, _, hr⟩⟩
    · exact kind_of_validateRoot_error hroot
    · exact ihl hl
    · exact ihr hr

variable [Arithmetic ν]

/-- In a tree of sound structure the rules find every operand that they need. -/
theorem onlyRefuses_derive {e : Expr ν} (hne : e.isEmpty = false) (hvalid : e.validate ops bindings = .ok ()) :
    OnlyRefuses (e.derive ops bindings x) := by
  induction e with
  | empty => simp [isEmpty] at hne
  | node a u v ihu ihv =>
    obtain ⟨hroot, huvalid, hvvalid⟩ := validate_node_eq_ok_iff.1 hvalid
    cases hm : ops.meaning bindings a with
    | number c =>
      simp only [derive, hm]
      exact onlyRefuses_ok _
    | «variable» w =>
      simp only [derive, hm]
      exact onlyRefuses_ok _
    | unresolved name =>
      simp only [derive, hm]
      exact onlyRefuses_error (.inl rfl)
    | operator op =>
      have hfits : op.fits u v = true := (validateRoot_operator_eq_ok_iff (meaning_eq_operator_iff.1 hm)).1 hroot
      have hleft : OnlyRefuses ((node a u v).operand .left op.symbol) := by
        rw [operand_left_of_fits hfits]
        exact onlyRefuses_ok u
      have hright : op.arity = .binary → OnlyRefuses ((node a u v).operand .right op.symbol) := by
        intro harity
        rw [operand_right_of_fits harity hfits]
        exact onlyRefuses_ok v
      have hu : OnlyRefuses (u.derive ops bindings x) := ihu (isEmpty_left_of_fits hfits) huvalid
      have hv : op.arity = .binary → OnlyRefuses (v.derive ops bindings x) := fun harity =>
        ihv ((fits_binary harity).1 hfits).2 hvvalid
      have hbuild := onlyRefuses_build (ν := ν) ops
      simp only [derive, hm]
      refine hleft.bind fun _ => hu.bind fun du => ?_
      cases op with
      | addition => exact (hright rfl).bind fun _ => (hv rfl).bind fun dv => hbuild _ _ _
      | subtraction => exact (hright rfl).bind fun _ => (hv rfl).bind fun dv => hbuild _ _ _
      | multiplication =>
        refine (hright rfl).bind fun _ => (hv rfl).bind fun dv => ?_
        exact (hbuild _ _ _).bind fun _ => (hbuild _ _ _).bind fun _ => hbuild _ _ _
      | division =>
        refine (hright rfl).bind fun _ => (hv rfl).bind fun dv => ?_
        refine (hbuild _ _ _).bind fun _ => (hbuild _ _ _).bind fun _ => ?_
        exact (hbuild _ _ _).bind fun _ => (hbuild _ _ _).bind fun _ => hbuild _ _ _
      | power =>
        refine (hright rfl).bind fun _ => ?_
        cases v.literal? with
        | none => exact onlyRefuses_error (.inr rfl)
        | some c => exact (hbuild _ _ _).bind fun _ => (hbuild _ _ _).bind fun _ => hbuild _ _ _
      | sine => exact (hbuild _ _ _).bind fun _ => hbuild _ _ _
      | cosine => exact (hbuild _ _ _).bind fun _ => (hbuild _ _ _).bind fun _ => hbuild _ _ _

/-! ### What a derivative takes -/

omit [Arithmetic ν] in
theorem companions_number (c : ν) : (number c).Everywhere (HasCompanions ops) := by
  refine ⟨?_, trivial, trivial⟩
  intro op hop
  cases hop

/-- An atom that has a value, but is no operator, needs no companions. -/
theorem companions_of_atom {a : Atom ν} {l r : Expr ν} {v : ν} (hop : ops.operator? a = none)
    (hvalid : (node a l r).validate ops bindings = .ok ()) (hv : (node a l r).compute ops bindings = .ok v) :
    (node a l r).Everywhere (HasCompanions ops) := by
  refine everywhere_of_atom ?_ hop (validate_node_eq_ok_iff.1 hvalid).1 hv
  intro op hop'
  rw [hop] at hop'
  cases hop'

omit [Arithmetic ν] in
theorem companions_tree {op : Operator} {l r : Expr ν}
    (h : ∀ companion ∈ op.companions, ops.contains companion = true)
    (hl : l.Everywhere (HasCompanions ops)) (hr : r.Everywhere (HasCompanions ops)) :
    (op.tree l r).Everywhere (HasCompanions ops) := by
  refine ⟨?_, hl, hr⟩
  intro op' hop
  obtain ⟨_, hsymbol⟩ := find?_eq_some_iff.1 hop
  obtain rfl := symbol_inj.1 hsymbol
  exact h

/-- The rules could only build with operators in use. -/
theorem companions_of_derived {e d : Expr ν} (h : Derived ops bindings x e d)
    (hvalid : e.validate ops bindings = .ok ()) : e.Everywhere (HasCompanions ops) := by
  induction h with
  | number => exact companions_of_atom rfl hvalid rfl
  | «variable» hfree hbound => exact companions_of_atom hfree hvalid (compute_variable hfree hbound)
  | sum hadd _ _ ihu ihv =>
    obtain ⟨_, hl, hr⟩ := (validate_tree_eq_ok_iff hadd).1 hvalid
    exact companions_tree (by simp [companions]) (ihu hl) (ihv hr)
  | difference hsub _ _ ihu ihv =>
    obtain ⟨_, hl, hr⟩ := (validate_tree_eq_ok_iff hsub).1 hvalid
    exact companions_tree (by simp [companions]) (ihu hl) (ihv hr)
  | product hmul hadd _ _ ihu ihv =>
    obtain ⟨_, hl, hr⟩ := (validate_tree_eq_ok_iff hmul).1 hvalid
    exact companions_tree (by simp [companions, hadd]) (ihu hl) (ihv hr)
  | quotient hdiv hmul hsub _ _ ihu ihv =>
    obtain ⟨_, hl, hr⟩ := (validate_tree_eq_ok_iff hdiv).1 hvalid
    exact companions_tree (by simp [companions, hmul, hsub]) (ihu hl) (ihv hr)
  | power hpow hmul _ ihu =>
    obtain ⟨_, hl, _⟩ := (validate_tree_eq_ok_iff hpow).1 hvalid
    exact companions_tree (by simp [companions, hmul]) (ihu hl) (companions_number _)
  | sine hsin hcos hmul _ ihu =>
    obtain ⟨hfits, hl, _⟩ := (validate_tree_eq_ok_iff hsin).1 hvalid
    obtain rfl := ((fits_unary rfl).1 hfits).2
    exact companions_tree (by simp [companions, hcos, hmul]) (ihu hl) trivial
  | cosine hcos hsin hmul _ ihu =>
    obtain ⟨hfits, hl, _⟩ := (validate_tree_eq_ok_iff hcos).1 hvalid
    obtain rfl := ((fits_unary rfl).1 hfits).2
    exact companions_tree (by simp [companions, hsin, hmul]) (ihu hl) trivial

/-- All that a derivative by `x` takes: a variable to differentiate by, a sound tree of known names, a literal as
every exponent, and with every operator of the tree those its rule builds with. -/
structure IsDifferentiable (ops : OperatorSet) (bindings : Bindings ν) (x : String) (e : Expr ν) : Prop where
  nonempty : e.isEmpty = false
  bound : bindings.contains x = true
  free : ops.find? x = none
  sound : e.check ops bindings = .ok ()
  resolved : e.unbound ops bindings = []
  exponents : e.Everywhere (HasLiteralExponent ops)
  companions : e.Everywhere (HasCompanions ops)

omit [Arithmetic ν] in
theorem check_of_nonempty {e : Expr ν} (hne : e.isEmpty = false) :
    e.check ops bindings = e.validate ops bindings := by
  cases e with
  | empty => simp [isEmpty] at hne
  | node a l r => rfl

theorem differentiate_of_acceptable {e : Expr ν} (hne : e.isEmpty = false) (hbound : bindings.contains x = true)
    (hfree : ops.find? x = none) :
    e.differentiate ops bindings x = e.check ops bindings >>= fun _ => e.derive ops bindings x := by
  cases e with
  | empty => simp [isEmpty] at hne
  | node a l r => simp [differentiate, check, Expr.nonempty, hbound, hfree, bind, Except.bind]

theorem isDifferentiable_of_differentiate {e d : Expr ν} (h : e.differentiate ops bindings x = .ok d) :
    e.IsDifferentiable ops bindings x := by
  obtain ⟨⟨hfree, hbound, hvalid⟩, hderive⟩ := differentiate_eq_ok_iff.1 h
  have hderived := derived_of_derive hderive
  obtain ⟨⟨hvalue, hexponents⟩, _⟩ := usable_of_differentiate h
  obtain ⟨hne, _, hresolved⟩ := exists_evaluate_iff.1 hvalue
  exact {
    nonempty := hne
    bound := hbound
    free := hfree
    sound := (check_of_nonempty hne).trans hvalid
    resolved := unbound_eq_nil_iff.2 hresolved
    exponents := hexponents
    companions := companions_of_derived hderived hvalid }

theorem IsDifferentiable.differentiate {e : Expr ν} (h : e.IsDifferentiable ops bindings x) :
    ∃ d, e.differentiate ops bindings x = .ok d := by
  have hvalid : e.validate ops bindings = .ok () := (check_of_nonempty h.nonempty).symm.trans h.sound
  have hvalue : e.HasValue ops bindings :=
    exists_evaluate_iff.2 ⟨h.nonempty, hvalid, unbound_eq_nil_iff.1 h.resolved⟩
  obtain ⟨d, hd⟩ := exists_derived ⟨hvalue, h.exponents⟩ h.companions
  exact ⟨d, differentiate_eq_ok_iff.2 ⟨⟨h.free, h.bound, hvalid⟩, derive_of_derived hd⟩⟩

/-- A tree has a derivative by `x` just where it has all that it takes. Where the tree is not empty and the name is
acceptable, a defect of the structure comes before all else, and every other fault is an invalid input or an operation
that is not supported. -/
theorem differentiate_outcome (ops : OperatorSet) (bindings : Bindings ν) (x : String) (e : Expr ν) :
    ((∃ d, e.differentiate ops bindings x = .ok d) ↔ e.IsDifferentiable ops bindings x) ∧
      (e.isEmpty = false → bindings.contains x = true → ops.find? x = none →
        (∀ fault, (e.differentiate ops bindings x = .error fault ∧ fault.kind = .structuralDefect) ↔
          e.check ops bindings = .error fault) ∧
        ∀ fault, e.differentiate ops bindings x = .error fault → e.check ops bindings = .ok () →
          fault.kind = .invalidInput ∨ fault.kind = .unsupportedOperation) := by
  constructor
  · constructor
    · intro hderivative
      obtain ⟨d, hd⟩ := hderivative
      exact isDifferentiable_of_differentiate hd
    · intro h
      exact h.differentiate
  · intro hne hbound hfree
    have hrefuses : e.check ops bindings = .ok () → OnlyRefuses (e.derive ops bindings x) := by
      intro hsound
      exact onlyRefuses_derive hne ((check_of_nonempty hne).symm.trans hsound)
    rw [differentiate_of_acceptable hne hbound hfree]
    constructor
    · intro fault
      rw [bind_eq_error_iff]
      constructor
      · intro h
        obtain ⟨hcheck | ⟨_, hsound, hderive⟩, hkind⟩ := h
        · exact hcheck
        · rcases hrefuses hsound fault hderive with hother | hother <;> simp [hother] at hkind
      · intro hcheck
        exact ⟨.inl hcheck, kind_of_validate_error ((check_of_nonempty hne).symm.trans hcheck)⟩
    · intro fault hfault hsound
      rcases bind_eq_error_iff.1 hfault with hcheck | ⟨_, _, hderive⟩
      · simp [hsound] at hcheck
      · exact hrefuses hsound fault hderive

end Expr
end ExprCalculus
