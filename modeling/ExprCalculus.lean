import ExprCalculus.Engine.Report
import ExprCalculus.Expr.Walk
import ExprCalculus.Session.Settings
import ExprCalculus.Proofs.Expr.EvaluationFault
import ExprCalculus.Proofs.Simplify.FoldOutcome
import ExprCalculus.Proofs.Simplify.NonfiniteIdentities
import ExprCalculus.Proofs.Number.ExactInteger
import ExprCalculus.Proofs.Derivative.ExactValue
import ExprCalculus.Proofs.Derivative.DualNumber
import ExprCalculus.Proofs.Derivative.Slope
import ExprCalculus.Proofs.Expr.RoundTrip
import ExprCalculus.Proofs.Simplify.AllOrNothing
import ExprCalculus.Proofs.Engine.DerivativeValue
import ExprCalculus.Proofs.Derivative.Runs
import ExprCalculus.Proofs.Simplify.FixedPoint
import ExprCalculus.Proofs.Expr.ErrorPosition
import ExprCalculus.Proofs.Expr.EditRuns
import ExprCalculus.Proofs.Document.Grammar
import ExprCalculus.Proofs.Document.Sections
import ExprCalculus.Proofs.Document.Contents
import ExprCalculus.Proofs.Derivative.Existence
import ExprCalculus.Proofs.Simplify.OneSweep
import ExprCalculus.Proofs.Simplify.ClosedFold
import ExprCalculus.Proofs.Session.Loading
import ExprCalculus.Proofs.Simplify.StepCount
import ExprCalculus.Proofs.Derivative.HeldConstant
import ExprCalculus.Proofs.Derivative.Growth
import ExprCalculus.Proofs.Derivative.RelevantBindings
import ExprCalculus.Proofs.Document.Tokens
import ExprCalculus.Proofs.Document.Layouts
import ExprCalculus.Proofs.Document.Spelling
import ExprCalculus.Proofs.Session.OneSetting
import ExprCalculus.Proofs.Session.Meaning
import ExprCalculus.Proofs.Session.Verbatim
import ExprCalculus.Proofs.Expr.WalkNesting
import ExprCalculus.Proofs.Expr.Linearization
