import Mathlib.Data.List.Forall2
import ExprCalculus.Session.Settings
import ExprCalculus.Proofs.Derivative.Usable
import ExprCalculus.Proofs.Document.Contents

/-!
# Sessions that load

The names in a session's text are words, but two operators are written as words too, and nothing keeps a session from
binding `sin` or `cos`. If it also differentiates by one of them, it loads, and then no tree has a derivative.
-/

namespace ExprCalculus

/-! ### Lists read one by one -/

theorem mapM_eq_ok_iff {ε α β : Type} {read : α → Except ε β} {as : List α} {bs : List β} :
    as.mapM read = .ok bs ↔ List.Forall₂ (fun a b => read a = .ok b) as bs := by
  induction as generalizing bs with
  | nil =>
    rw [List.forall₂_nil_left_iff]
    exact ⟨fun h => (Except.ok.inj h).symm, fun h => h ▸ rfl⟩
  | cons a as ih =>
    simp only [List.mapM_cons, bind_eq_ok_iff, ih, List.forall₂_cons_left_iff]
    constructor
    · intro h
      obtain ⟨b, hb, bs', hbs, heq⟩ := h
      exact ⟨b, bs', hb, hbs, (Except.ok.inj heq).symm⟩
    · intro h
      obtain ⟨b, bs', hb, hbs, rfl⟩ := h
      exact ⟨b, hb, bs', hbs, rfl⟩

/-- Entries that are read one by one, each under its own name, keep their names. -/
theorem map_fst_of_forall₂ {α β : Type} {R : String × α → String × β → Prop} (hname : ∀ {a b}, R a b → b.1 = a.1)
    {entries : List (String × α)} {out : List (String × β)} (h : List.Forall₂ R entries out) :
    out.map Prod.fst = entries.map Prod.fst := by
  induction h with
  | nil => rfl
  | cons hab _ ih => rw [List.map_cons, List.map_cons, hname hab, ih]

/-! ### Operators written as words -/

theorem Operator.eq_sine_or_cosine_of_isWord {op : Operator} (h : Document.IsWord op.symbol.toList) :
    op = .sine ∨ op = .cosine := by
  obtain ⟨c, rest, hsymbol, hstart, _⟩ := h
  cases op with
  | sine => exact .inl rfl
  | cosine => exact .inr rfl
  | _ =>
    obtain rfl := (List.cons.inj hsymbol).1
    cases hstart

theorem OperatorSet.find?_full_of_isWord {name : String} (h : Document.IsWord name.toList) :
    full.find? name = none ↔ name ≠ "sin" ∧ name ≠ "cos" := by
  constructor
  · intro hnone
    constructor <;> rintro rfl <;> cases hnone
  · intro hname
    cases hop : full.find? name with
    | none => rfl
    | some op =>
      obtain ⟨_, rfl⟩ := find?_eq_some_iff.1 hop
      rcases Operator.eq_sine_or_cosine_of_isWord h with rfl | rfl
      · exact absurd rfl hname.1
      · exact absurd rfl hname.2

namespace Settings

/-! ### Settings from a document -/

/-- The settings are those of the document, each read by its own rule. -/
structure ReadFrom (d : TaskDocument) (c : Settings) : Prop where
  «variables» : variablesFrom d = .ok c.«variables»
  differentiateBy : differentiateByFrom d c.«variables» = .ok c.differentiateBy
  passes : passesFrom d = .ok c.passes
  untilStable : setting d "optimization" "until_stable" default.untilStable expectBoolean = .ok c.untilStable
  maxRounds : setting d "optimization" "max_rounds" default.maxRounds expectPositive = .ok c.maxRounds
  logLevel : setting d "logging" "level" default.logLevel expectLevel = .ok c.logLevel
  logFile : setting d "logging" "file" default.logFile (fun value => (expectText value).map some) = .ok c.logFile

theorem ofDocument_eq_ok_iff {d : TaskDocument} {c : Settings} : ofDocument d = .ok c ↔ ReadFrom d c := by
  unfold ofDocument
  simp only [bind_eq_ok_iff]
  constructor
  · intro h
    obtain ⟨_, hvariables, _, hname, _, hpasses, _, hstable, _, hrounds, _, hlevel, _, hfile, heq⟩ := h
    obtain rfl := Except.ok.inj heq
    exact ⟨hvariables, hname, hpasses, hstable, hrounds, hlevel, hfile⟩
  · intro h
    exact ⟨_, h.variables, _, h.differentiateBy, _, h.passes, _, h.untilStable, _, h.maxRounds, _, h.logLevel, _,
      h.logFile, rfl⟩

theorem ofText_eq_ok_iff {text : String} {c : Settings} :
    ofText text = .ok c ↔
      ∃ d, Document.ofText none text = .ok d ∧ Document.requireLayout layout d = .ok () ∧ ReadFrom d c := by
  have hdocument : ∀ d, (Document.ofText (some layout) text).mapError SettingsFault.document = .ok d ↔
      Document.ofText none text = .ok d ∧ Document.requireLayout layout d = .ok () := by
    intro d
    rw [mapError_eq_ok_iff, Document.ofText_some_eq_ok_iff]
  simp only [ofText, bind_eq_ok_iff, hdocument, ofDocument_eq_ok_iff, and_assoc]

/-! ### Names of variables -/

theorem contains_variablesFrom {d : TaskDocument} {bindings : Bindings Float} (h : variablesFrom d = .ok bindings)
    {name : String} (hname : bindings.contains name = true) :
    name = "x" ∨ ∃ content, d.get? "variables" = some content ∧ content.contains name = true := by
  unfold variablesFrom at h
  cases hcontent : d.get? "variables" with
  | none =>
    rw [hcontent] at h
    obtain rfl := Except.ok.inj h
    by_cases hx : name = "x"
    · exact .inl hx
    · rw [default, Dictionary.contains, Dictionary.get?_insert, if_neg hx] at hname
      cases hname
  | some content =>
    rw [hcontent] at h
    obtain ⟨entries, hentries, h⟩ := bind_eq_ok_iff.1 h
    obtain rfl := Except.ok.inj h
    refine .inr ⟨content, rfl, ?_⟩
    rw [Dictionary.contains_ofList, map_fst_of_forall₂ ?_ (mapM_eq_ok_iff.1 hentries)] at hname
    · exact Dictionary.contains_iff.2 hname
    · intro entry b hb
      obtain ⟨v, _, hb⟩ := bind_eq_ok_iff.1 hb
      rw [← Except.ok.inj hb]

/-- The variables of a session are words. -/
theorem isWord_of_ofText {text : String} {c : Settings} (h : ofText text = .ok c) {name : String}
    (hname : c.«variables».contains name = true) : Document.IsWord name.toList := by
  obtain ⟨d, hd, _, hc⟩ := ofText_eq_ok_iff.1 h
  rcases contains_variablesFrom hc.variables hname with rfl | ⟨content, hcontent, hkey⟩
  · exact ⟨'x', [], rfl, rfl, fun _ hmem => nomatch hmem⟩
  · exact Document.isWord_of_ofText hd hcontent hkey

/-- A session differentiates by one of its variables. -/
theorem contains_differentiateBy {text : String} {c : Settings} (h : ofText text = .ok c) :
    c.«variables».contains c.differentiateBy = true := by
  obtain ⟨d, _, _, hc⟩ := ofText_eq_ok_iff.1 h
  obtain ⟨name, _, hname⟩ := bind_eq_ok_iff.1 hc.differentiateBy
  by_cases hbound : c.«variables».contains name = true
  · rw [if_pos hbound] at hname
    obtain rfl := Except.ok.inj hname
    exact hbound
  · rw [if_neg hbound] at hname
    cases hname

/-! ### Derivatives in a session -/

/-- A session that loads can differentiate all that it can evaluate and whose exponents are literals, unless the
variable to differentiate by has the name of an operator. -/
theorem differentiate_of_ofText {text : String} {c : Settings} (h : ofText text = .ok c) {e : Expr Float}
    (hvalue : ∃ v, c.engine.evaluate e = .ok v)
    (hexponents : e.Everywhere (Expr.HasLiteralExponent c.engine.operators)) :
    (∃ d, c.engine.differentiate c.differentiateBy e = .ok d) ↔
      c.differentiateBy ≠ "sin" ∧ c.differentiateBy ≠ "cos" := by
  have hbound := contains_differentiateBy h
  rw [← OperatorSet.find?_full_of_isWord (isWord_of_ofText h hbound)]
  constructor
  · intro hderivative
    obtain ⟨d, hd⟩ := hderivative
    exact (Expr.differentiate_eq_ok_iff.1 hd).1.1
  · intro hfree
    have husable : e.Usable c.engine.operators c.engine.bindings := ⟨hvalue, hexponents⟩
    obtain ⟨d, hd, _⟩ := husable.differentiate OperatorSet.isClosed_full hfree hbound
    exact ⟨d, hd⟩

/-- A session that binds `sin`. -/
def boundSine (name : String) : String :=
  "variables\n  sin: 1\n  x: 3\nderivative\n  with_respect_to: " ++ name ++ "\n"

def square : Expr Float := Operator.multiplication.tree (.symbol "x") (.symbol "x")

theorem literalExponents_square : square.Everywhere (Expr.HasLiteralExponent .full) := by
  have hx : (Expr.symbol "x" : Expr Float).Everywhere (Expr.HasLiteralExponent .full) := by
    refine ⟨?_, trivial, trivial⟩
    intro hop
    cases hop
  exact Expr.literalExponents_tree (by decide) hx hx

theorem exists_of_loads (name : String)
    (h : (ofText (boundSine name)).toOption.map (fun c => (c.differentiateBy, (c.engine.evaluate square).isOk)) =
      some (name, true)) :
    ∃ c, ofText (boundSine name) = .ok c ∧ c.differentiateBy = name ∧ ∃ v, c.engine.evaluate square = .ok v := by
  cases hc : ofText (boundSine name) with
  | error fault => simp [hc, Except.toOption] at h
  | ok c =>
    simp only [hc, Except.toOption, Option.map_some, Option.some.injEq, Prod.mk.injEq] at h
    obtain ⟨hname, hvalue⟩ := h
    cases hv : c.engine.evaluate square with
    | error fault =>
      rw [hv] at hvalue
      cases hvalue
    | ok v => exact ⟨c, rfl, hname, v, hv⟩

theorem differentiate_of_ofText_boundSine :
    ∃ c, ofText (boundSine "x") = .ok c ∧ (∃ v, c.engine.evaluate square = .ok v) ∧
      square.Everywhere (Expr.HasLiteralExponent c.engine.operators) ∧
        ∃ d, c.engine.differentiate c.differentiateBy square = .ok d := by
  obtain ⟨c, hc, hname, hvalue⟩ := exists_of_loads "x" (by decide +kernel)
  refine ⟨c, hc, hvalue, literalExponents_square, ?_⟩
  rw [differentiate_of_ofText hc hvalue literalExponents_square, hname]
  decide

/-- Where the session differentiates by `sin`, the square of `x` has a value, but no derivative. -/
theorem not_differentiable_by_sine :
    ∃ c, ofText (boundSine "sin") = .ok c ∧ (∃ v, c.engine.evaluate square = .ok v) ∧
      square.Everywhere (Expr.HasLiteralExponent c.engine.operators) ∧
        c.engine.differentiate c.differentiateBy square = .error (.notBoundVariable "sin") := by
  obtain ⟨c, hc, hname, hvalue⟩ := exists_of_loads "sin" (by decide +kernel)
  refine ⟨c, hc, hvalue, literalExponents_square, ?_⟩
  rw [hname]
  rfl

end Settings
end ExprCalculus
