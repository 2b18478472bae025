import LoxLang.Interpreter

/-!
What the steps of an execution do to its state, one equation for each.
-/

set_option autoImplicit false
set_option relaxedAutoImplicit false

namespace LoxLang

/-- Whether a step can stop with a fault whatever it is given from outside and whichever operators
are applied. -/
def RuntimeFault.isOrdinary : RuntimeFault → Bool
  | .stackOverflow | .invalidUnary | .invalidBinary => false
  | _ => true

/-- The frame in which the name of an expression is about to be assigned, if one is found. -/
def Machine.target? (m : Machine) (D : Distances) (id : ExprId) (name : Token) : Option FrameId :=
  match D[id]? with
  | some d => m.store.holderAt? m.scope d name.lexeme
  | none => m.store.holder? .globals name.lexeme

namespace EvalM

variable {α β : Type}

/-- The end of an execution and the state that it leaves. -/
def outcome (act : EvalM α) (m : Machine) : Except Interrupt α × Machine :=
  (ExceptT.run act).run m

theorem outcome_pure (a : α) (m : Machine) : outcome (pure a) m = (.ok a, m) := rfl

theorem outcome_bind (act : EvalM α) (next : α → EvalM β) (m : Machine) :
    outcome (act >>= next) m =
      match outcome act m with
      | (.ok a, m') => outcome (next a) m'
      | (.error i, m') => (.error i, m') := by
  unfold outcome
  simp only [bind, ExceptT.bind, ExceptT.mk, ExceptT.run, StateT.run, StateT.bind]
  rcases act m with ⟨r, m'⟩
  cases r <;> rfl

theorem outcome_get (m : Machine) : outcome get m = (.ok m, m) := rfl

theorem outcome_modify (f : Machine → Machine) (m : Machine) :
    outcome (modify f) m = (.ok ⟨⟩, f m) := rfl

theorem outcome_fault (token : Token) (f : RuntimeFault) (m : Machine) :
    outcome (fault token f : EvalM α) m = (.error (.failure (.fault ⟨token.line, f⟩)), m) := rfl

theorem outcome_onStore (step : Store → α × Store) (m : Machine) :
    outcome (onStore step) m = (.ok (step m.store).1, { m with store := (step m.store).2 }) := rfl

theorem outcome_store (m : Machine) : outcome store m = (.ok m.store, m) := rfl

theorem outcome_inScope (scope : Scope) (act : EvalM α) (m : Machine) :
    outcome (inScope scope act) m = ((outcome act { m with scope }).1,
      { (outcome act { m with scope }).2 with scope := m.scope }) := rfl

theorem outcome_asCall (act : EvalM α) (m : Machine) :
    outcome (asCall act) m = ((outcome act { m with depth := m.depth + 1 }).1,
      let m' := (outcome act { m with depth := m.depth + 1 }).2
      { m' with depth := m'.depth - 1 }) := rfl

theorem outcome_catchReturn (act : EvalM Unit) (m : Machine) :
    outcome (catchReturn act) m =
      match outcome act m with
      | (.ok (), m') => (.ok none, m')
      | (.error (.returned v), m') => (.ok (some v), m')
      | (.error (.failure f), m') => (.error (.failure f), m') := rfl

theorem outcome_catchReturn_snd (act : EvalM Unit) (m : Machine) :
    ((catchReturn act).outcome m).2 = (act.outcome m).2 := by
  rw [outcome_catchReturn]
  rcases act.outcome m with ⟨(_ | _) | _, m'⟩ <;> rfl

theorem outcome_catchReturn_failed {act : EvalM Unit} {m : Machine} {f : Failure} :
    ((catchReturn act).outcome m).1 = .error (.failure f) ↔
      (act.outcome m).1 = .error (.failure f) := by
  rw [outcome_catchReturn]
  rcases act.outcome m with ⟨(_ | _) | _, m'⟩ <;> simp

theorem outcome_bind_error {act : EvalM α} {next : α → EvalM β} {m : Machine} {i : Interrupt} :
    ((act >>= next).outcome m).1 = .error i ↔
      (act.outcome m).1 = .error i ∨
        ∃ a m', act.outcome m = (.ok a, m') ∧ ((next a).outcome m').1 = .error i := by
  rw [outcome_bind]
  rcases act.outcome m with ⟨_ | a, m'⟩
  · simp
  · simp only [reduceCtorEq, false_or]
    refine ⟨fun cut => ⟨a, m', rfl, cut⟩, ?_⟩
    rintro ⟨_, _, same, cut⟩
    cases same
    exact cut

theorem kept_bind {γ : Type} (part : Machine → γ) {act : EvalM α} {next : α → EvalM β}
    (h : ∀ m, part (act.outcome m).2 = part m)
    (h' : ∀ a m, part ((next a).outcome m).2 = part m) (m : Machine) :
    part ((act >>= next).outcome m).2 = part m := by
  have first := h m
  rw [outcome_bind]
  generalize act.outcome m = ended at first ⊢
  rcases ended with ⟨i | a, m'⟩
  · exact first
  · exact (h' a m').trans first

theorem outcome_assign (D : Distances) (id : ExprId) (name : Token) (v : Value)
    (m : Machine) : (assign D id name v).outcome m =
      match m.target? D id name with
      | some f => (.ok (), { m with store := m.store.setLocal f name.lexeme v })
      | none => (.error (.failure (.fault ⟨name.line,
          if D[id]?.isSome then .unboundLocal name.lexeme else .unbound name.lexeme⟩)), m) := by
  unfold assign holder Machine.target?
  simp only [outcome_bind, outcome_get]
  cases D[id]? with
  | some d =>
    dsimp only
    cases m.store.holderAt? m.scope d name.lexeme <;> rfl
  | none =>
    dsimp only
    cases m.store.holder? .globals name.lexeme <;> rfl

theorem outcome_expectCallable (limit : Option Nat) (f : Value) (given : Nat) (paren : Token)
    (m : Machine) :
    (∃ c, f = .callable c ∧ (∀ n, limit = some n → m.depth < n) ∧
      (expectCallable limit f given paren).outcome m = (.ok c, m)) ∨
    ∃ error, (error = .stackOverflow → limit ≠ none) ∧
      (error = .stackOverflow ∨ error.isOrdinary) ∧
      (expectCallable limit f given paren).outcome m =
        (.error (.failure (.fault ⟨paren.line, error⟩)), m) := by
  cases f with
  | callable c =>
    unfold expectCallable
    rw [outcome_bind, outcome_get]
    dsimp only
    split
    · exact .inr ⟨.wrongArity c.arity given, nofun, .inr rfl, rfl⟩
    · split
      · rename_i reached
        refine .inr ⟨.stackOverflow, fun _ none => ?_, .inl rfl, rfl⟩
        rw [none] at reached
        cases reached
      · rename_i free
        refine .inl ⟨c, rfl, fun n some => ?_, rfl⟩
        simpa [some] using free
  | nil | bool | number | string | object =>
    exact .inr ⟨.notCallable (Value.type _), nofun, .inr rfl, rfl⟩

theorem outcome_getProperty_method {o : Object} {name : Token} {f : Closure} {m : Machine}
    (unset : m.store.field? o name.lexeme = none)
    (found : o.kind.method? name.lexeme = some f) :
    (getProperty (.object o) name).outcome m =
      (.ok (.callable (.function (m.store.bind f o).1)),
        { m with store := (m.store.bind f o).2 }) := by
  unfold getProperty
  rw [outcome_bind, outcome_store]
  simp only [unset, found, ofOption, pure_bind]
  rfl

theorem outcome_superMethod {D : Distances} {id : ExprId} {keyword method : Token}
    {m : Machine} {inner : Nat} {c : Class} {o : Object} (found : D[id]? = some (inner + 1))
    (superclass : m.store.getAt? m.scope (inner + 1) "super" = some (.callable (.ofClass c)))
    (receiver : m.store.getAt? m.scope inner "this" = some (.object o)) :
    (superMethod D id keyword method).outcome m =
      match c.method? method.lexeme with
      | some f => (.ok (.callable (.function (m.store.bind f o).1)),
          { m with store := (m.store.bind f o).2 })
      | none => (.error (.failure (.fault ⟨method.line, .undefinedProperty method.lexeme⟩)), m) := by
  unfold superMethod
  rw [outcome_bind, outcome_get]
  simp only [found, ofOption, pure_bind, superclass, receiver]
  cases c.method? method.lexeme <;> rfl

end EvalM

namespace Interpreter

theorem run_eq {α : Type} (i : Interpreter) (act : EvalM α) :
    i.run act = ((act.outcome i.machine).1, { i with machine := (act.outcome i.machine).2 }) :=
  rfl

/-- A statement at the top level, and those behind it. -/
theorem execute_cons (config : Config) (i : Interpreter) (s : Stmt) (ss : List Stmt) :
    execute config i (s :: ss) =
      match (execStmt (i.surroundings config) config.bound s).outcome i.machine with
      | (.ok (), m) | (.error (.returned _), m) => execute config { i with machine := m } ss
      | (.error (.failure f), m) => (.error f, atGlobals { i with machine := m }) := by
  rw [execute, run_eq]
  rcases (execStmt (i.surroundings config) config.bound s).outcome i.machine with ⟨(f | v) | v, m⟩ <;>
    rfl

theorem execute_distances (config : Config) (i : Interpreter) (ss : List Stmt) :
    (i.execute config ss).2.distances = i.distances := by
  induction ss generalizing i with
  | nil => rfl
  | cons s ss ih =>
    have same : (i.run (execStmt (i.surroundings config) config.bound s)).2.distances =
      i.distances := rfl
    rcases run : i.run (execStmt (i.surroundings config) config.bound s) with ⟨r, i'⟩
    rw [run] at same
    simp only [execute, run]
    rcases r with (f | v) | _
    · exact same
    · exact (ih i').trans same
    · exact (ih i').trans same

end Interpreter

end LoxLang
