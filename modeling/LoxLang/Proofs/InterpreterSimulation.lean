import LoxLang.Interpreter
import LoxLang.Proofs.Simulation

/-!
Interpreters that mirror one another: mirrored programs are executed, and mirrored expressions
evaluated, with mirrored results.
-/

set_option autoImplicit false
set_option relaxedAutoImplicit false

namespace LoxLang

/-- Interpreters between two executions that mirror one another. -/
structure InterpreterRel (M : Mirror) (W : World) (i i' : Interpreter) : Prop where
  machine : MachineRel M W i.machine i'.machine
  scope : i.machine.scope = .globals
  distances : Agrees M i.distances i'.distances

/-- Results that mirror one another: values related by `R`, or failures that do. -/
inductive EndRel {α β : Type} (M : Mirror) (R : α → β → Prop) :
    Except Failure α → Except Failure β → Prop where
  | ok {a : α} {b : β} : R a b → EndRel M R (.ok a) (.ok b)
  | error {f f' : Failure} : FailureRel M f f' → EndRel M R (.error f) (.error f')

private theorem BindingsRel.natives {M : Mirror} {W : World} :
    BindingsRel M W .refl ((∅ : Bindings).insert Native.clock.name (.callable (.native .clock)))
      ((∅ : Bindings).insert Native.clock.name (.callable (.native .clock))) :=
  (BindingsRel.empty .refl).insert _ (.callable (.native .clock))

/-- The state before anything is executed mirrors itself. -/
theorem MachineRel.initial {M : Mirror} : MachineRel M [.refl] .initial .initial where
  store := {
    size := rfl
    size' := rfl
    globals := rfl
    allowed := by
      rintro ρ hρ
      obtain rfl := List.mem_singleton.mp hρ
      exact M.allowed_refl
    named := by
      intro f name
      cases f with
      | zero => exact BindingsRel.natives name
      | succ f => exact .none
    objects := rfl
    fields := fun _ _ => .none
    nextClass := rfl }
  scope := rfl
  has := by simp [World.Has, Machine.initial, Scope.globals, Scope.frames]
  depth := rfl
  printed := rfl
  readings := rfl

private theorem InterpreterRel.has {M : Mirror} {W : World} {i i' : Interpreter}
    (h : InterpreterRel M W i i') : W.Has .globals :=
  h.scope ▸ h.machine.has

namespace Interpreter

variable {α β : Type} {M : Mirror} {W : World} {i i' : Interpreter} {here : SiteId}

private theorem run_rel (h : InterpreterRel M W i i') {R : World → α → β → Prop} {act : EvalM α}
    {act' : EvalM β} (hact : Mirrored M W .globals R act act') :
    ∃ W', W <+: W' ∧ ResultRel M W' R (i.run act).1 (i'.run act').1 ∧
      InterpreterRel M W' (i.run act).2 (i'.run act').2 := by
  obtain ⟨W', later, result, machine, scope⟩ := hact _ _ h.machine h.scope
  exact ⟨W', later, result, machine, scope, h.distances⟩

private theorem atGlobals_rel (h : InterpreterRel M W i i') :
    InterpreterRel M W i.atGlobals i'.atGlobals :=
  ⟨{ h.machine with scope := rfl, has := h.has }, rfl, h.distances⟩

theorem execute_rel (config : Config) {ss ss' : List Stmt} (h : InterpreterRel M W i i')
    (hss : StmtsRel M (M.drop here) (W.around .globals) ss ss') :
    ∃ W', W <+: W' ∧
      EndRel M (fun _ _ => True) (i.execute config ss).1 (i'.execute config ss').1 ∧
      InterpreterRel M W' (i.execute config ss).2 (i'.execute config ss').2 := by
  induction ss generalizing i i' W ss' with
  | nil =>
    cases hss
    exact ⟨W, List.prefix_rfl, .ok trivial, h⟩
  | cons s ss ih =>
    cases hss with
    | cons hs hss =>
      rename_i s' ss'
      have same : (i'.surroundings config).config = (i.surroundings config).config := rfl
      have steps := Steps.all same h.distances config.bound
      obtain ⟨W₁, later₁, result, h₁⟩ := run_rel h (steps.stmt h.has hs)
      have hss₁ := h.has.around later₁ ▸ hss
      rcases run : i.run (execStmt (i.surroundings config) config.bound s) with ⟨r, i₁⟩
      rcases run' : i'.run (execStmt (i'.surroundings config) config.bound s') with ⟨r', i₁'⟩
      rw [run, run'] at result h₁
      simp only [execute, run, run']
      -- A `return` outside of all functions ends nothing but its own statement.
      have goOn := ih h₁ hss₁
      cases result with
      | ok _ =>
        obtain ⟨W₂, later₂, rest⟩ := goOn
        exact ⟨W₂, later₁.trans later₂, rest⟩
      | error interrupt =>
        cases interrupt with
        | failure hf => exact ⟨W₁, later₁, .error hf, atGlobals_rel h₁⟩
        | returned _ =>
          obtain ⟨W₂, later₂, rest⟩ := goOn
          exact ⟨W₂, later₁.trans later₂, rest⟩

theorem evaluate_rel (config : Config) {e e' : Expr} (h : InterpreterRel M W i i')
    (he : ExprRel M (M.drop here) (W.around .globals) e e') :
    ∃ W', W <+: W' ∧
      EndRel M (ValueRel M W') (i.evaluate config e).1 (i'.evaluate config e').1 ∧
      InterpreterRel M W' (i.evaluate config e).2 (i'.evaluate config e').2 := by
  have same : (i'.surroundings config).config = (i.surroundings config).config := rfl
  have steps := Steps.all same h.distances config.bound
  obtain ⟨W₁, later₁, result, h₁⟩ := run_rel h (steps.expr h.has he)
  rcases run : i.run (evalExpr (i.surroundings config) config.bound e) with ⟨r, i₁⟩
  rcases run' : i'.run (evalExpr (i'.surroundings config) config.bound e') with ⟨r', i₁'⟩
  rw [run, run'] at result h₁
  simp only [evaluate, run, run']
  refine ⟨W₁, later₁, ?_, h₁⟩
  cases result with
  | ok hv => exact .ok hv
  | error interrupt =>
    cases interrupt with
    | failure hf => exact .error hf
    | returned hv => exact .ok hv

end Interpreter

end LoxLang
