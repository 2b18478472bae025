import LoxLang.Proofs.EvalRuns
import LoxLang.Proofs.RelinedStores

/-!
The steps of an execution on other lines.  From the same state, with functions declared on other
lines, an execution does the same: it prints the same lines, gives the same value or fails with the
same fault, told of another line, and leaves the same state.  Each step is treated once.
-/

set_option autoImplicit false
set_option relaxedAutoImplicit false

namespace LoxLang

section

variable (line : Nat → Nat)

def Failure.reline : Failure → Failure
  | .fault e => .fault { e with line := line e.line }
  | f => f

def Interrupt.reline : Interrupt → Interrupt
  | .failure f => .failure (f.reline line)
  | .returned v => .returned (v.reline line)

def Relines {α β : Type} (f : α → β) (act : EvalM α) (act' : EvalM β) : Prop :=
  ∀ ⦃m m'⦄, MachineRelined line m m' →
    (act'.outcome m').1 = ((act.outcome m).1.map f).mapError (Interrupt.reline line) ∧
      MachineRelined line (act.outcome m).2 (act'.outcome m').2

end

namespace Relines

open EvalM

variable {α α' β β' : Type} {line : Nat → Nat} {f : α → α'} {g : β → β'}

theorem pure {a : α} {a' : α'} (same : a' = f a) :
    Relines line f (Pure.pure a) (Pure.pure a') := by
  subst same
  exact fun _ _ h => ⟨rfl, h⟩

theorem throw (i : Interrupt) : Relines line f (throw i) (throw (i.reline line)) :=
  fun _ _ h => ⟨rfl, h⟩

theorem fault (token : Token) (fault : RuntimeFault) :
    Relines line f (EvalM.fault token fault) (EvalM.fault (token.reline line) fault) :=
  throw _

theorem bind {act : EvalM α} {act' : EvalM α'} {next : α → EvalM β} {next' : α' → EvalM β'}
    (first : Relines line f act act') (second : ∀ a, Relines line g (next a) (next' (f a))) :
    Relines line g (act >>= next) (act' >>= next') := by
  intro m m' h
  have ends := first h
  rw [outcome_bind, outcome_bind]
  generalize act.outcome m = out, act'.outcome m' = out' at ends
  obtain ⟨i | a, m₁⟩ := out <;> obtain ⟨r', m₁'⟩ := out' <;> obtain ⟨rfl, state⟩ := ends
  · exact ⟨rfl, state⟩
  · exact second a state

/-- A step that looks at the state and goes on. -/
theorem get_bind {next : Machine → EvalM α} {next' : Machine → EvalM α'}
    (h : ∀ m m', MachineRelined line m m' → Relines line f (next m) (next' m')) :
    Relines line f (MonadState.get >>= next) (MonadState.get >>= next') :=
  fun m m' hm => h m m' hm hm

/-- A step that looks at what is stored and goes on. -/
theorem store_bind {next : Store → EvalM α} {next' : Store → EvalM α'}
    (h : ∀ m m', StoreRelined line m m' → Relines line f (next m) (next' m')) :
    Relines line f (EvalM.store >>= next) (EvalM.store >>= next') :=
  fun m m' hm => h m.store m'.store hm.store hm

private theorem modifyStore {step step' : Machine → Store}
    (h : ∀ m m', MachineRelined line m m' → StoreRelined line (step m) (step' m')) :
    Relines line id (modify fun m => { m with store := step m })
      (modify fun m => { m with store := step' m }) :=
  fun m m' hm => ⟨rfl, { hm with store := h m m' hm }⟩

theorem onStore {step : Store → α × Store} {step' : Store → α' × Store}
    (h : ∀ m m', StoreRelined line m m' →
      (step' m').1 = f (step m).1 ∧ StoreRelined line (step m).2 (step' m').2) :
    Relines line f (EvalM.onStore step) (EvalM.onStore step') := by
  intro m m' hm
  obtain ⟨given, stored⟩ := h m.store m'.store hm.store
  exact ⟨congrArg Except.ok given, { hm with store := stored }⟩

private theorem ofOption (token : Token) (fault : RuntimeFault) {o : Option α} {o' : Option α'}
    (same : o' = o.map f) :
    Relines line f (EvalM.ofOption token fault o)
      (EvalM.ofOption (token.reline line) fault o') := by
  subst same
  cases o with
  | none => exact Relines.fault token fault
  | some a => exact pure rfl

theorem ofResult (token : Token) {r : Except RuntimeFault Value}
    (constant : ∀ v, r = .ok v → v.IsConstant) :
    Relines line (Value.reline line) (EvalM.ofResult token r)
      (EvalM.ofResult (token.reline line) r) := by
  cases r with
  | error e => exact fault token e
  | ok v => exact pure (constant v rfl).reline.symm

theorem newScope {b b' : Bindings} (hb : BindingsRelined line b b') (s : Option Scope) :
    Relines line id (EvalM.onStore (·.newScope b s)) (EvalM.onStore (·.newScope b' s)) :=
  onStore fun _ _ h => h.newScope hb s

theorem define (name : String) (v : Value) :
    Relines line id (EvalM.define name v) (EvalM.define name (v.reline line)) := by
  refine modifyStore fun m m' h => ?_
  rw [h.scope]
  exact h.store.setLocal m.scope.frame name v

theorem setField (o : Object) (name : String) (v : Value) :
    Relines line id (EvalM.setField o name v)
      (EvalM.setField (o.reline line) name (v.reline line)) :=
  modifyStore fun _ _ h => h.store.setField o name v

theorem bindTo (c : Closure) (o : Object) :
    Relines line (Closure.reline line) (EvalM.onStore (·.bind c o))
      (EvalM.onStore (·.bind (c.reline line) (o.reline line))) :=
  onStore fun _ _ h => h.bind c o

private theorem bindMethod (c : Closure) (o : Object) :
    Relines line (Value.reline line) (EvalM.bindMethod c o)
      (EvalM.bindMethod (c.reline line) (o.reline line)) :=
  (bindTo c o).bind fun _ => pure rfl

theorem print (sink : Sink) (text : String) :
    Relines line id (EvalM.print sink text) (EvalM.print sink text) := by
  cases sink with
  | working => exact fun m m' h => ⟨rfl, { h with printed := congrArg (·.push text) h.printed }⟩
  | broken words => exact throw (.failure (.sink words))

theorem readClock (clock : Nat → Float) :
    Relines line (Value.reline line) (EvalM.readClock clock) (EvalM.readClock clock) := by
  intro m m' h
  have now : m'.readings = m.readings := h.readings
  refine ⟨?_, { h with readings := congrArg (· + 1) now }⟩
  exact congrArg (fun count => Except.ok (Value.number (clock count))) now

theorem getProperty (v : Value) (name : Token) :
    Relines line (Value.reline line) (EvalM.getProperty v name)
      (EvalM.getProperty (v.reline line) (name.reline line)) := by
  cases v with
  | object o =>
    refine store_bind fun m m' h => ?_
    rw [Token.reline_lexeme]
    have field := h.field? o name.lexeme
    rw [Object.reline] at field
    rw [field]
    cases m.field? o name.lexeme with
    | some v => exact pure rfl
    | none =>
      exact (ofOption name _ (o.kind.method?_reline name.lexeme)).bind fun c => bindMethod c o
  | _ => exact fault name _

theorem expectObject (v : Value) (name : Token) :
    Relines line (Object.reline line) (EvalM.expectObject v name)
      (EvalM.expectObject (v.reline line) (name.reline line)) := by
  cases v with
  | object o => exact pure rfl
  | _ => exact fault name _

theorem expectCallable (limit : Option Nat) (v : Value) (given : Nat) (paren : Token) :
    Relines line (Callable.reline line) (EvalM.expectCallable limit v given paren)
      (EvalM.expectCallable limit (v.reline line) given (paren.reline line)) := by
  cases v with
  | callable c =>
    refine get_bind fun m m' h => ?_
    rw [c.arity_reline, h.depth]
    split
    · exact fault paren _
    split
    · exact fault paren _
    · exact pure rfl
  | _ => exact fault paren _

theorem inScope (scope : Scope) {act : EvalM α} {act' : EvalM α'} (h : Relines line f act act') :
    Relines line f (EvalM.inScope scope act) (EvalM.inScope scope act') := by
  intro m m' hm
  have entered : MachineRelined line { m with scope } { m' with scope } := { hm with scope := rfl }
  obtain ⟨result, left⟩ := h entered
  exact ⟨result, { left with scope := hm.scope }⟩

theorem asCall {act : EvalM α} {act' : EvalM α'} (h : Relines line f act act') :
    Relines line f (EvalM.asCall act) (EvalM.asCall act') := by
  intro m m' hm
  have called : MachineRelined line { m with depth := m.depth + 1 }
      { m' with depth := m'.depth + 1 } := { hm with depth := congrArg (· + 1) hm.depth }
  obtain ⟨result, left⟩ := h called
  exact ⟨result, { left with depth := congrArg (· - 1) left.depth }⟩

theorem catchReturn {act act' : EvalM Unit} (h : Relines line id act act') :
    Relines line (Option.map (Value.reline line)) (EvalM.catchReturn act)
      (EvalM.catchReturn act') := by
  intro m m' hm
  have ends := h hm
  rw [outcome_catchReturn, outcome_catchReturn]
  generalize act.outcome m = out, act'.outcome m' = out' at ends
  obtain ⟨(f | v) | _, m₁⟩ := out <;> obtain ⟨r', m₁'⟩ := out' <;> obtain ⟨rfl, state⟩ := ends <;>
    exact ⟨rfl, state⟩

section Names

variable {D D' : Distances} (same : ∀ id : ExprId, D'[id]? = D[id]?)

include same

theorem lookUp (n : ExprId) (name : Token) :
    Relines line (Value.reline line) (EvalM.lookUp D n name)
      (EvalM.lookUp D' n (name.reline line)) := by
  refine get_bind fun m m' h => ?_
  rw [same, h.scope, Token.reline_lexeme]
  cases D[n]? with
  | none => exact ofOption name _ (h.store.get? .globals name.lexeme)
  | some distance => exact ofOption name _ (h.store.getAt? m.scope distance name.lexeme)

private theorem holder (n : ExprId) (name : Token) :
    Relines line id (EvalM.holder D n name) (EvalM.holder D' n (name.reline line)) := by
  refine get_bind fun m m' h => ?_
  rw [same, h.scope, Token.reline_lexeme]
  cases D[n]? with
  | none =>
    refine ofOption name _ ?_
    rw [h.store.holder?, Option.map_id, id]
  | some distance =>
    refine ofOption name _ ?_
    rw [h.store.holderAt?, Option.map_id, id]

theorem assign (n : ExprId) (name : Token) (v : Value) :
    Relines line id (EvalM.assign D n name v)
      (EvalM.assign D' n (name.reline line) (v.reline line)) :=
  (holder same n name).bind fun frame =>
    modifyStore fun _ _ h => h.store.setLocal frame name.lexeme v

theorem superMethod (n : ExprId) (keyword method : Token) :
    Relines line (Value.reline line) (EvalM.superMethod D n keyword method)
      (EvalM.superMethod D' n (keyword.reline line) (method.reline line)) := by
  refine get_bind fun m m' h => ?_
  refine (ofOption keyword _ (f := id) ?_).bind fun distance => ?_
  · rw [same, Option.map_id, id]
  rw [id, h.scope, h.store.getAt?]
  cases m.store.getAt? m.scope distance "super" with
  | none => exact fault keyword _
  | some c =>
    cases c with
    | callable c =>
      cases c with
      | ofClass superclass =>
        cases distance with
        | zero => exact fault keyword _
        | succ inner =>
          dsimp only [Option.map_some]
          rw [h.store.getAt?]
          cases m.store.getAt? m.scope inner "this" with
          | none => exact fault keyword _
          | some o =>
            cases o with
            | object o =>
              exact (ofOption method _ (superclass.method?_reline method.lexeme)).bind
                fun c => bindMethod c o
            | _ => exact fault keyword _
      | _ => exact fault keyword _
    | _ => exact fault keyword _

end Names

end Relines

end LoxLang
