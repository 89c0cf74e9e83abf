import ExprCalculus.Engine.Report
import ExprCalculus.Proofs.Derivative.Usable

/-!
# Where a report can fail

A report reads, evaluates, differentiates, simplifies and evaluates again. Once the source has a derivative nothing
that follows fails, so the fault of a report is that of one of its first three steps.
-/

namespace ExprCalculus

variable {ν : Type} [Arithmetic ν]

namespace Engine

/-- The optimization that an engine's own settings ask for. -/
def optimization (g : Engine ν) : Optimization :=
  match g.stableRounds with
  | some limit => .rounds g.passes limit
  | none => .once g.passes

theorem simplify_eq_run (g : Engine ν) (e : Expr ν) : g.simplify e = g.optimization.run g.operators e := by
  obtain ⟨operators, bindings, passes, stableRounds⟩ := g
  cases stableRounds <;> rfl

theorem exists_simplify {g : Engine ν} {e : Expr ν} (h : e.HasValue g.operators g.bindings) :
    ∃ s w, g.simplify e = .ok s ∧ g.evaluate s.tree = .ok w := by
  obtain ⟨s, hs, w, hw⟩ := Expr.keptByPasses_hasValue.run g.optimization h
  exact ⟨s, w, (g.simplify_eq_run e).trans hs, hw⟩

variable [Numeral ν]

theorem report_eq_ok_iff {g : Engine ν} {text x : String} {r : Report ν} :
    g.report text x = .ok r ↔
      ∃ e v d s w, Expr.read text = .ok e ∧ g.evaluate e = .ok v ∧ g.differentiate x e = .ok d ∧
        g.simplify d = .ok s ∧ g.evaluate s.tree = .ok w ∧ r = ⟨x, e, v, d, s, w⟩ := by
  simp only [report, bind_eq_ok_iff]
  constructor
  · intro h
    obtain ⟨e, he, v, hv, d, hd, s, hs, w, hw, hr⟩ := h
    exact ⟨e, v, d, s, w, he, hv, hd, hs, hw, (Except.ok.inj hr).symm⟩
  · intro h
    obtain ⟨e, v, d, s, w, he, hv, hd, hs, hw, rfl⟩ := h
    exact ⟨e, he, v, hv, d, hd, s, hs, w, hw, rfl⟩

/-- After a derivative has been found, the values and the simplification are there too. -/
theorem exists_report {g : Engine ν} {text x : String} {e d : Expr ν} (he : Expr.read text = .ok e)
    (hd : g.differentiate x e = .ok d) :
    ∃ v s w, g.evaluate e = .ok v ∧ g.simplify d = .ok s ∧ g.evaluate s.tree = .ok w ∧
      g.report text x = .ok ⟨x, e, v, d, s, w⟩ := by
  obtain ⟨⟨⟨v, hv⟩, _⟩, hvalue, _⟩ := Expr.usable_of_differentiate hd
  obtain ⟨s, w, hs, hw⟩ := exists_simplify hvalue
  exact ⟨v, s, w, hv, hs, hw, report_eq_ok_iff.2 ⟨e, v, d, s, w, he, hv, hd, hs, hw, rfl⟩⟩

/-- The fault is that of the first of three steps that fails. -/
def ReportFault (g : Engine ν) (text x : String) (fault : ExprFault ν) : Prop :=
  Expr.read text = .error fault ∨
    (∃ e, Expr.read text = .ok e ∧ g.evaluate e = .error fault) ∨
    ∃ e v, Expr.read text = .ok e ∧ g.evaluate e = .ok v ∧ g.differentiate x e = .error fault

theorem report_eq_error_iff {g : Engine ν} {text x : String} {fault : ExprFault ν} :
    g.report text x = .error fault ↔ g.ReportFault text x fault := by
  simp only [report, bind_eq_error_iff]
  constructor
  · intro h
    rcases h with he | ⟨e, he, hv | ⟨v, hv, hd | ⟨d, hd, hlate⟩⟩⟩
    · exact .inl he
    · exact .inr (.inl ⟨e, he, hv⟩)
    · exact .inr (.inr ⟨e, v, he, hv, hd⟩)
    · obtain ⟨_, s, w, _, hs, hw, _⟩ := exists_report he hd
      simp [hs, hw, pure, Except.pure] at hlate
  · intro h
    rcases h with he | ⟨e, he, hv⟩ | ⟨e, v, he, hv, hd⟩
    · exact .inl he
    · exact .inr ⟨e, he, .inl hv⟩
    · exact .inr ⟨e, he, .inr ⟨v, hv, .inl hd⟩⟩

/-- A report succeeds just where the text can be read and the tree can be differentiated: then the values of both ends
and the simplification are there. Otherwise its fault is the first one in reading, evaluating, differentiating. -/
theorem report_outcome (g : Engine ν) (text x : String) :
    ((∃ r, g.report text x = .ok r) ↔ ∃ e d, Expr.read text = .ok e ∧ g.differentiate x e = .ok d) ∧
      (∀ e d, Expr.read text = .ok e → g.differentiate x e = .ok d →
        ∃ v s w, g.evaluate e = .ok v ∧ g.simplify d = .ok s ∧ g.evaluate s.tree = .ok w ∧
          g.report text x = .ok ⟨x, e, v, d, s, w⟩) ∧
      ∀ fault, g.report text x = .error fault ↔ g.ReportFault text x fault := by
  refine ⟨?_, fun e d he hd => exists_report he hd, fun fault => report_eq_error_iff⟩
  constructor
  · intro h
    obtain ⟨r, hr⟩ := h
    obtain ⟨e, _, d, _, _, he, _, hd, _⟩ := report_eq_ok_iff.1 hr
    exact ⟨e, d, he, hd⟩
  · intro h
    obtain ⟨e, d, he, hd⟩ := h
    obtain ⟨_, _, _, _, _, _, hreport⟩ := exists_report he hd
    exact ⟨_, hreport⟩

end Engine
end ExprCalculus
