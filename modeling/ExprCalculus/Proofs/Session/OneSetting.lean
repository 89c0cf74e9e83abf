import ExprCalculus.Proofs.Session.Loading

/-!
# One setting

A setting takes one value, and each kind of setting makes its own sense of it. Here each kind has a relation that says
which value means what, and the readers are shown to go by these relations.
-/

namespace ExprCalculus

open Document (Value)

/-! ### Lists read one by one -/

theorem exists_forall₂_iff {α β : Type} {R : α → β → Prop} {as : List α} :
    (∃ bs, List.Forall₂ R as bs) ↔ ∀ a ∈ as, ∃ b, R a b := by
  induction as with
  | nil => exact iff_of_true ⟨[], .nil⟩ (fun _ ha => nomatch ha)
  | cons a as ih =>
    rw [List.forall_mem_cons, ← ih]
    constructor
    · intro h
      obtain ⟨_, hall⟩ := h
      cases hall with
      | cons hb hbs => exact ⟨⟨_, hb⟩, _, hbs⟩
    · intro h
      obtain ⟨⟨b, hb⟩, bs, hbs⟩ := h
      exact ⟨b :: bs, .cons hb hbs⟩

/-- A search for the only element that a test can find. -/
theorem find?_eq_some_iff_of_unique {α : Type} {all : List α} {p : α → Bool}
    (hunique : ∀ a ∈ all, ∀ b ∈ all, p a = true → p b = true → a = b) {a : α} (ha : a ∈ all) :
    all.find? p = some a ↔ p a = true := by
  constructor
  · exact List.find?_some
  · intro hp
    cases hfind : all.find? p with
    | none => exact absurd hp (List.find?_eq_none.1 hfind a ha)
    | some b =>
      have hb := List.mem_of_find?_eq_some hfind
      rw [hunique a ha b hb hp (List.find?_some hfind)]

/-- Entries made one by one under their own names are found just where the old ones are. -/
theorem Dictionary.lookup_forall₂ {α β : Type} {R : α → β → Prop} {entries : List (String × α)}
    {out : List (String × β)} (h : List.Forall₂ (fun a b => b.1 = a.1 ∧ R a.2 b.2) entries out) {name : String} :
    Option.Rel R (entries.lookup name) (out.lookup name) := by
  induction h with
  | nil => exact .none
  | @cons a b entries out hab _ ih =>
    rw [lookup_cons, lookup_cons, hab.1]
    by_cases hname : name = a.1
    · rw [if_pos hname, if_pos hname]
      exact .some hab.2
    · rw [if_neg hname, if_neg hname]
      exact ih

/-! ### Names in any case -/

theorem LogLevel.ofName?_eq_some_iff {name : String} {level : LogLevel} :
    ofName? name = some level ↔ Text.sameCaseless name level.title = true := by
  have hmem : level ∈ all := by cases level <;> decide
  have hdistinct : ∀ l ∈ all, ∀ l' ∈ all, Text.sameCaseless l.title l'.title = true → l = l' := by decide
  refine find?_eq_some_iff_of_unique ?_ hmem
  intro l hl l' hl' h h'
  exact hdistinct l hl l' hl' (Text.sameCaseless_of_common h h')

theorem Pass.ofName?_eq_some_iff {name : String} {p : Pass} :
    ofName? name = some p ↔ Text.sameCaseless name p.title = true ∨ Text.sameCaseless name p.longTitle = true := by
  have hmem : p ∈ all := by cases p <;> decide
  have hdistinct : ∀ q ∈ all, ∀ q' ∈ all, ∀ t ∈ [q.title, q.longTitle], ∀ t' ∈ [q'.title, q'.longTitle],
      Text.sameCaseless t t' = true → q = q' := by decide
  rw [← Bool.or_eq_true]
  refine find?_eq_some_iff_of_unique ?_ hmem
  intro q hq q' hq' h h'
  have htitle : ∀ r : Pass, (Text.sameCaseless name r.title || Text.sameCaseless name r.longTitle) = true →
      ∃ t ∈ [r.title, r.longTitle], Text.sameCaseless name t = true := by
    intro r hr
    rcases Bool.or_eq_true_iff.1 hr with hr | hr
    · exact ⟨_, List.mem_cons_self, hr⟩
    · exact ⟨_, List.mem_cons_of_mem _ List.mem_cons_self, hr⟩
  obtain ⟨t, ht, hname⟩ := htitle q h
  obtain ⟨t', ht', hname'⟩ := htitle q' h'
  exact hdistinct q hq q' hq' t ht t' ht' (Text.sameCaseless_of_common hname hname')

namespace Settings

/-! ### What the values of a setting say -/

def SaysNumber (v : Value) (x : Float) : Prop := v.number? = some x

def SaysText (v : Value) (text : String) : Prop := text = v.text

def SaysFile (v : Value) (file : Option String) : Prop := file = some v.text

def SaysBoolean (v : Value) (b : Bool) : Prop := v = .boolean b

/-- A limit on rounds: an integer, at least one of them, and within 64 bits. -/
def SaysRounds (v : Value) (n : Nat) : Prop := v = .integer n ∧ 1 ≤ n ∧ n < Nat.pow 2 64

def SaysLevel (v : Value) (level : LogLevel) : Prop := Text.sameCaseless v.text level.title = true

def SaysPass (v : Value) (p : Pass) : Prop :=
  Text.sameCaseless v.text p.title = true ∨ Text.sameCaseless v.text p.longTitle = true

/-- One value was found and it says so, or none and what holds otherwise. -/
inductive SetTo {α : Type} (Says : Value → α → Prop) (otherwise : α) : Option (List Value) → α → Prop
  | given {v : Value} {a : α} (h : Says v a) : SetTo Says otherwise (some [v]) a
  | absent : SetTo Says otherwise none otherwise

/-- The values found name these passes, or none were found and all passes run. -/
inductive PassesSetTo : Option (List Value) → List Pass → Prop
  | given {values : List Value} {passes : List Pass} (h : List.Forall₂ SaysPass values passes) :
      PassesSetTo (some values) passes
  | absent : PassesSetTo none [.fold, .identities]

/-- Only one value was found, if any, and it suits. -/
def OneSuits (Suits : Value → Prop) (found : Option (List Value)) : Prop :=
  ∀ values, found = some values → ∃ v, values = [v] ∧ Suits v

section OneFound

variable {α : Type} {Says : Value → α → Prop} {otherwise a : α} {found : Option (List Value)}

theorem says_of_setTo {v : Value} (hfound : found = some [v]) (h : SetTo Says otherwise found a) : Says v a := by
  subst hfound
  cases h with
  | given h => exact h

theorem eq_of_setTo (hfound : found = none) (h : SetTo Says otherwise found a) : a = otherwise := by
  subst hfound
  cases h with
  | absent => rfl

end OneFound

theorem exists_setTo_iff {α : Type} {Says : Value → α → Prop} (otherwise : α) {found : Option (List Value)} :
    (∃ a, SetTo Says otherwise found a) ↔ OneSuits (fun v => ∃ a, Says v a) found := by
  constructor
  · intro h values hvalues
    obtain ⟨a, hset⟩ := h
    cases hset with
    | given h =>
      obtain rfl := Option.some.inj hvalues
      exact ⟨_, rfl, a, h⟩
    | absent => cases hvalues
  · intro h
    cases found with
    | none => exact ⟨otherwise, .absent⟩
    | some values =>
      obtain ⟨v, rfl, a, ha⟩ := h values rfl
      exact ⟨a, .given ha⟩

theorem exists_passesSetTo_iff {found : Option (List Value)} :
    (∃ passes, PassesSetTo found passes) ↔ ∀ values, found = some values → ∀ v ∈ values, ∃ p, SaysPass v p := by
  cases found with
  | none => exact iff_of_true ⟨_, .absent⟩ nofun
  | some values =>
    simp only [Option.some_inj, forall_eq', ← exists_forall₂_iff]
    refine exists_congr fun passes => ⟨?_, .given⟩
    intro h
    cases h with
    | given h => exact h

/-! ### Reading one setting -/

section Expectations

variable {v : Value}

theorem expectNumber_eq_ok_iff {x : Float} : expectNumber v = .ok x ↔ SaysNumber v x := by
  unfold expectNumber SaysNumber
  cases v.number? with
  | none => exact iff_of_false nofun nofun
  | some y => rw [Except.ok.injEq, Option.some_inj]

theorem expectBoolean_eq_ok_iff {b : Bool} : expectBoolean v = .ok b ↔ SaysBoolean v b := by
  unfold expectBoolean SaysBoolean
  cases v with
  | boolean b' => exact ⟨fun h => congrArg _ (Except.ok.inj h), fun h => congrArg _ (Value.boolean.inj h)⟩
  | _ => exact iff_of_false nofun nofun

theorem expectPositive_eq_ok_iff {n : Nat} : expectPositive v = .ok n ↔ v = .integer n ∧ 1 ≤ n := by
  unfold expectPositive
  cases v with
  | integer k =>
    change (if 0 < k then Except.ok k.toNat else .error ValueFault.notPositive) = .ok n ↔ _
    by_cases hk : 0 < k
    · rw [if_pos hk, Except.ok.injEq, Value.integer.injEq]
      omega
    · rw [if_neg hk, Value.integer.injEq]
      refine iff_of_false nofun ?_
      intro h
      omega
  | _ => exact iff_of_false nofun (fun h => nomatch h.1)

theorem expectLevel_eq_ok_iff {level : LogLevel} : expectLevel v = .ok level ↔ SaysLevel v level := by
  unfold expectLevel SaysLevel
  rw [← LogLevel.ofName?_eq_some_iff]
  cases LogLevel.ofName? v.text with
  | none => exact iff_of_false nofun nofun
  | some level' => rw [Except.ok.injEq, Option.some_inj]

theorem expectPass_eq_ok_iff {p : Pass} : expectPass v = .ok p ↔ SaysPass v p := by
  unfold expectPass SaysPass
  rw [← Pass.ofName?_eq_some_iff]
  cases Pass.ofName? v.text with
  | none => exact iff_of_false nofun nofun
  | some p' => rw [Except.ok.injEq, Option.some_inj]

theorem expectText_eq_ok_iff {text : String} : expectText v = .ok text ↔ SaysText v text :=
  ⟨fun h => (Except.ok.inj h).symm, fun h => congrArg _ h.symm⟩

theorem expectFile_eq_ok_iff {file : Option String} : (expectText v).map some = .ok file ↔ SaysFile v file :=
  ⟨fun h => (Except.ok.inj h).symm, fun h => congrArg _ h.symm⟩

end Expectations

theorem onlyValue_eq_ok_iff {α : Type} {title key : String} {interpret : Value → Except ValueFault α}
    {values : List Value} {a : α} :
    onlyValue title key interpret values = .ok a ↔ ∃ v, values = [v] ∧ interpret v = .ok a := by
  unfold onlyValue
  split
  · rw [mapError_eq_ok_iff]
    simp
  · rename_i hmany
    refine iff_of_false nofun ?_
    intro h
    obtain ⟨v, rfl, _⟩ := h
    exact hmany v rfl

theorem setting_eq_ok_iff {α : Type} {d : TaskDocument} {title key : String} {otherwise : α}
    {interpret : Value → Except ValueFault α} {Says : Value → α → Prop} {found : Option (List Value)}
    (hfound : valuesOf? d title key = found)
    (hmeaning : ∀ v, found = some [v] → ∀ a, interpret v = .ok a ↔ Says v a) {a : α} :
    setting d title key otherwise interpret = .ok a ↔ SetTo Says otherwise found a := by
  unfold setting
  rw [hfound]
  constructor
  · intro h
    cases found with
    | none =>
      obtain rfl := Except.ok.inj h
      exact .absent
    | some values =>
      obtain ⟨v, rfl, hv⟩ := onlyValue_eq_ok_iff.1 h
      exact .given ((hmeaning v rfl a).1 hv)
  · intro h
    cases h with
    | given h => exact onlyValue_eq_ok_iff.2 ⟨_, rfl, (hmeaning _ rfl a).2 h⟩
    | absent => rfl

end Settings
end ExprCalculus
