import LoxLang.Proofs.EvalRuns

/-!
Single steps of an execution.  A property of executions is one of all steps that only look at the
state or bind a method, once it holds of giving a value, of looking at the state, of binding a
method and of the faults of such steps, and is kept where one step comes behind another.
-/

set_option autoImplicit false
set_option relaxedAutoImplicit false

namespace LoxLang

/-- A property that the simplest steps of an execution have, and that is kept where one step comes
behind another. -/
structure Composed (P : ∀ {α : Type}, EvalM α → Prop) : Prop where
  pure : ∀ {α : Type} (a : α), P (Pure.pure a : EvalM α)
  fault : ∀ {α : Type} (token : Token) (f : RuntimeFault), f.isOrdinary →
    P (EvalM.fault token f : EvalM α)
  get : P (MonadState.get : EvalM Machine)
  bindTo : ∀ (method : Closure) (o : Object), P (EvalM.onStore (·.bind method o))
  bind : ∀ {α β : Type} {act : EvalM α} {next : α → EvalM β},
    P act → (∀ a, P (next a)) → P (act >>= next)

namespace Composed

variable {P : ∀ {α : Type}, EvalM α → Prop} (h : Composed P)

include h

theorem store : P EvalM.store := h.bind h.get fun m => h.pure m.store

private theorem ofOption {α : Type} (token : Token) {f : RuntimeFault} (ordinary : f.isOrdinary)
    (o : Option α) : P (EvalM.ofOption token f o) := by
  cases o with
  | none => exact h.fault token f ordinary
  | some a => exact h.pure a

theorem ofResult {α : Type} {token : Token} {r : Except RuntimeFault α}
    (failed : ∀ f, r = .error f → P (EvalM.fault token f : EvalM α)) :
    P (EvalM.ofResult token r) := by
  cases r with
  | error f => exact failed f rfl
  | ok a => exact h.pure a

theorem lookUp (D : Distances) (id : ExprId) (name : Token) : P (EvalM.lookUp D id name) := by
  refine h.bind h.get fun m => ?_
  split <;> exact h.ofOption _ rfl _

private theorem holder (D : Distances) (id : ExprId) (name : Token) : P (EvalM.holder D id name) :=
  by
  refine h.bind h.get fun m => ?_
  split <;> exact h.ofOption _ rfl _

theorem assign {D : Distances} {id : ExprId} {name : Token} {v : Value}
    (set : ∀ frame, P (modify fun m => { m with store := m.store.setLocal frame name.lexeme v } :
      EvalM Unit)) : P (EvalM.assign D id name v) :=
  h.bind (h.holder D id name) set

private theorem bindMethod (method : Closure) (o : Object) : P (EvalM.bindMethod method o) :=
  h.bind (h.bindTo method o) fun _ => h.pure _

theorem getProperty (v : Value) (name : Token) : P (EvalM.getProperty v name) := by
  cases v with
  | object o =>
    refine h.bind h.store fun m => ?_
    split
    · exact h.pure _
    · exact h.bind (h.ofOption _ rfl _) fun method => h.bindMethod method o
  | _ => exact h.fault _ _ rfl

theorem expectObject (v : Value) (name : Token) : P (EvalM.expectObject v name) := by
  cases v with
  | object o => exact h.pure o
  | _ => exact h.fault _ _ rfl

theorem superMethod (D : Distances) (id : ExprId) (keyword method : Token) :
    P (EvalM.superMethod D id keyword method) := by
  refine h.bind h.get fun m => h.bind (h.ofOption _ rfl _) fun d => ?_
  split
  · dsimp only
    split
    · exact h.bind (h.ofOption _ rfl _) fun found => h.bindMethod found _
    · exact h.fault _ _ rfl
  · exact h.fault _ _ rfl

/-- Before a call everything goes well, or there are too many calls. -/
theorem expectCallable {limit : Option Nat}
    (overflow : limit ≠ none → ∀ token, P (EvalM.fault token .stackOverflow : EvalM Callable))
    (v : Value) (given : Nat) (paren : Token) :
    P (EvalM.expectCallable limit v given paren) := by
  cases v with
  | callable c =>
    refine h.bind h.get fun m => ?_
    split
    · exact h.fault _ _ rfl
    split
    · rename_i reached
      refine overflow (fun none => ?_) paren
      rw [none] at reached
      cases reached
    · exact h.pure c
  | _ => exact h.fault _ _ rfl

theorem declareClass (opened : ∀ b s, P (EvalM.onStore (·.newScope b (some s))))
    (numbered : P (EvalM.onStore (·.newClass))) (defined : ∀ name v, P (EvalM.define name v))
    (name : Token) (superclass : Option Class) (methods : List FunctionDecl) :
    P (EvalM.declareClass name superclass methods) := by
  have named (scope : Scope) := h.bind numbered fun id =>
    defined name.lexeme (.callable (.ofClass (.below ⟨id, name.lexeme, methods.map fun decl =>
      Closure.mk decl scope (decl.name.lexeme = initializerName)⟩ superclass)))
  refine h.bind h.get fun m => ?_
  cases superclass with
  | none => exact named m.scope
  | some c => exact h.bind (opened _ _) named

end Composed

def FailsOnly (C : Failure → Prop) {α : Type} (act : EvalM α) : Prop :=
  ∀ m f, (act.outcome m).1 = .error (.failure f) → C f

namespace FailsOnly

open EvalM

variable {C : Failure → Prop} {α β : Type}

theorem failure {f : Failure} (h : C f) : FailsOnly C (throw (.failure f) : EvalM α) := by
  intro m f' same
  cases same
  exact h

theorem pure (a : α) : FailsOnly C (Pure.pure a) := fun _ _ => nofun

theorem returned (v : Value) : FailsOnly C (throw (.returned v) : EvalM α) := fun _ _ => nofun

theorem get : FailsOnly C MonadState.get := fun _ _ => nofun

theorem modify (change : Machine → Machine) : FailsOnly C (modify change) := fun _ _ => nofun

theorem onStore (step : Store → α × Store) : FailsOnly C (onStore step) := fun _ _ => nofun

theorem readClock (clock : Nat → Float) : FailsOnly C (readClock clock) := fun _ _ => nofun

theorem print {sink : Sink} (broken : ∀ text, sink = .broken text → C (.sink text))
    (line : String) : FailsOnly C (print sink line) := by
  cases sink with
  | working => exact modify _
  | broken text => exact failure (broken text rfl)

theorem bind {act : EvalM α} {next : α → EvalM β} (h : FailsOnly C act)
    (h' : ∀ a, FailsOnly C (next a)) : FailsOnly C (act >>= next) := by
  intro m f failed
  rcases outcome_bind_error.mp failed with first | ⟨a, m', _, second⟩
  · exact h m f first
  · exact h' a m' f second

theorem inScope {act : EvalM α} (scope : Scope) (h : FailsOnly C act) :
    FailsOnly C (inScope scope act) := fun m => h { m with scope }

theorem asCall {act : EvalM α} (h : FailsOnly C act) : FailsOnly C (asCall act) :=
  fun m => h { m with depth := m.depth + 1 }

theorem catchReturn {act : EvalM Unit} (h : FailsOnly C act) : FailsOnly C (catchReturn act) :=
  fun m f failed => h m f (outcome_catchReturn_failed.mp failed)

end FailsOnly

end LoxLang
