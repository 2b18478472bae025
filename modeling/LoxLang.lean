import LoxLang.Main
import LoxLang.Workbench
import LoxLang.Proofs.NestedScopes
import LoxLang.Proofs.Grammar
import LoxLang.Proofs.DanglingElse
import LoxLang.Proofs.RuleParts
import LoxLang.Proofs.RecoveredErrors
import LoxLang.Proofs.RejectedRuns
import LoxLang.Proofs.JoinedRuns
import LoxLang.Proofs.WalkNumbers
import LoxLang.Proofs.WellFormed
import LoxLang.Proofs.Events
import LoxLang.Proofs.Scoping
import LoxLang.Proofs.ScopedRuns
import LoxLang.Proofs.SessionRuns
import LoxLang.Proofs.ScopedSessions
import LoxLang.Proofs.DeclaredNames
import LoxLang.Proofs.BindingRules
import LoxLang.Proofs.Placement
import LoxLang.Proofs.Traces
import LoxLang.Proofs.TracedExecution
import LoxLang.Proofs.LocalAssignments
import LoxLang.Proofs.PrivateLocals
import LoxLang.Proofs.RenamedRuns
import LoxLang.Proofs.EvaluatedExpressions
import LoxLang.Proofs.BracedRuns
import LoxLang.Proofs.SuperDispatch
import LoxLang.Proofs.ScannedBytes
import LoxLang.Proofs.StandingDistances
import LoxLang.Proofs.ErrorPhases
import LoxLang.Proofs.CallLimit
import LoxLang.Proofs.LayoutIndependence
import LoxLang.Proofs.CallCounts
import LoxLang.Proofs.RestoredScopes
import LoxLang.Proofs.ReturnSignals
import LoxLang.Proofs.Initializers
import LoxLang.Proofs.WrittenTrees
import LoxLang.Proofs.GlobalDeclarations
import LoxLang.Proofs.ReportedLines
import LoxLang.Proofs.FunctionIdentity
import LoxLang.Proofs.MethodLookup
import LoxLang.Proofs.FunctionOrder
import LoxLang.Proofs.BrokenSinks
import LoxLang.Proofs.TreeSize
import LoxLang.Proofs.UnambiguousTrees
import LoxLang.Proofs.InvalidOperators
