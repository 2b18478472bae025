import LoxLang.Proofs.EnclosedStores
import LoxLang.Proofs.ScopedExecution

/-!
Executions with one more frame.  The same tree is executed twice, with the distances recorded for
it at the top level and with those recorded inside of a block.  Step for step both do the same: they
print the same lines, fail with the same faults, and leave the same state, with one more frame.
Only declarations outside of all blocks differ, in where they put their names.
-/

set_option autoImplicit false
set_option relaxedAutoImplicit false

namespace LoxLang

inductive EndEnclosed {α β : Type} (R : Rebinding) (N N' : List String) (scope : Scope)
    (P : α → β → Prop) : Except Interrupt α × Machine → Except Interrupt β × Machine → Prop where
  | ok {a : α} {b : β} {m m' : Machine} : P a b → MachineEnclosed R N' m m' → m.scope = scope →
      EndEnclosed R N N' scope P (.ok a, m) (.ok b, m')
  | failure (f : Failure) {m m' : Machine} : MachineEnclosed R N m m' → m.scope = scope →
      EndEnclosed R N N' scope P (.error (.failure f), m) (.error (.failure f), m')
  | returned {v v' : Value} {m m' : Machine} : ValueEnclosed R N v v' → MachineEnclosed R N m m' →
      m.scope = scope →
      EndEnclosed R N N' scope P (.error (.returned v), m) (.error (.returned v'), m')

def Enclosed {α β : Type} (R : Rebinding) (N N' : List String) (scope : Scope) (P : α → β → Prop)
    (act : EvalM α) (act' : EvalM β) : Prop :=
  ∀ m m', MachineEnclosed R N m m' → m.scope = scope →
    EndEnclosed R N N' scope P (act.outcome m) (act'.outcome m')

/-- A value that closes over nothing is the same on both sides. -/
theorem Value.IsConstant.enclosed {R : Rebinding} {N : List String} {v : Value}
    (h : v.IsConstant) : ValueEnclosed R N v v := by
  refine ⟨?_, h.isScoped, fun c same => by cases same ▸ h⟩
  cases v with
  | callable c | object o => cases h
  | _ => rfl

abbrev FunctionEnclosed (R : Rebinding) (N : List String) (c c' : Closure) : Prop :=
  ValueEnclosed R N (.callable (.function c)) (.callable (.function c'))

mutual

/-- A scope that stands for the static ones before a statement stands for those behind it. -/
theorem Stands.after {Γ : StaticStack} {scope : Scope} (h : Stands .apart none Γ scope) :
    ∀ s : Stmt, Stands .apart none (Walk.after Γ s) scope
  | .var name _ => show Stands .apart none (Γ.introduce name) scope from h.introduce trivial
  | .function decl =>
    show Stands .apart none (Γ.introduce decl.name) scope from h.introduce trivial
  | .classDecl name _ _ => show Stands .apart none (Γ.introduce name) scope from h.introduce trivial
  | .branch _ thenBranch elseBranch => Stands.after? (Stands.after h thenBranch) elseBranch
  | .loop _ body => Stands.after h body
  | .expression _ | .print _ | .block _ | .ret _ _ => h

private theorem Stands.after? {Γ : StaticStack} {scope : Scope} (h : Stands .apart none Γ scope) :
    ∀ s : Option Stmt, Stands .apart none (Walk.after? Γ s) scope
  | none => h
  | some s => Stands.after h s

end

namespace Enclosed

open EvalM

variable {α α' β β' : Type} {R : Rebinding} {N N' : List String} {scope : Scope}
  {P : α → α' → Prop} {Q : β → β' → Prop}

theorem pure {a : α} {a' : α'} (h : P a a') :
    Enclosed R N N scope P (Pure.pure a) (Pure.pure a') :=
  fun _ _ hm hscope => .ok h hm hscope

theorem failure (f : Failure) :
    Enclosed R N N' scope P (throw (.failure f)) (throw (.failure f)) :=
  fun _ _ hm hscope => .failure f hm hscope

theorem fault (token : Token) (f : RuntimeFault) :
    Enclosed R N N' scope P (EvalM.fault token f) (EvalM.fault token f) :=
  failure _

theorem returned {v v' : Value} (h : ValueEnclosed R N v v') :
    Enclosed R N N' scope P (throw (.returned v)) (throw (.returned v')) :=
  fun _ _ hm hscope => .returned h hm hscope

private theorem mono {P' : α → α' → Prop} {act : EvalM α} {act' : EvalM α'}
    (h : Enclosed R N N' scope P act act') (weaken : ∀ a a', P a a' → P' a a') :
    Enclosed R N N' scope P' act act' := by
  intro m m' hm hscope
  have ends := h m m' hm hscope
  generalize act.outcome m = out, act'.outcome m' = out' at ends
  cases ends with
  | ok h hm hscope => exact .ok (weaken _ _ h) hm hscope
  | failure f hm hscope => exact .failure f hm hscope
  | returned hv hm hscope => exact .returned hv hm hscope

theorem bind {act : EvalM α} {act' : EvalM α'} {next : α → EvalM β} {next' : α' → EvalM β'}
    (first : Enclosed R N N scope P act act')
    (second : ∀ a a', P a a' → Enclosed R N N' scope Q (next a) (next' a')) :
    Enclosed R N N' scope Q (act >>= next) (act' >>= next') := by
  intro m m' hm hscope
  have ends := first m m' hm hscope
  rw [outcome_bind, outcome_bind]
  generalize act.outcome m = out, act'.outcome m' = out' at ends
  cases ends with
  | ok h hm hscope => exact second _ _ h _ _ hm hscope
  | failure f hm hscope => exact .failure f hm hscope
  | returned hv hm hscope => exact .returned hv hm hscope

theorem get_bind {next : Machine → EvalM α} {next' : Machine → EvalM α'}
    (h : ∀ m m', MachineEnclosed R N m m' → m.scope = scope →
      Enclosed R N N' scope P (next m) (next' m')) :
    Enclosed R N N' scope P (MonadState.get >>= next) (MonadState.get >>= next') :=
  fun m m' hm hscope => h m m' hm hscope m m' hm hscope

theorem store_bind {next : Store → EvalM α} {next' : Store → EvalM α'}
    (h : ∀ m m', StoreEnclosed R N m m' → Enclosed R N N' scope P (next m) (next' m')) :
    Enclosed R N N' scope P (EvalM.store >>= next) (EvalM.store >>= next') :=
  fun m m' hm hscope => h m.store m'.store hm.store m m' hm hscope

private theorem ofOption {token : Token} {f : RuntimeFault} {o : Option α} {o' : Option α'}
    (h : Option.Rel P o o') :
    Enclosed R N N scope P (EvalM.ofOption token f o) (EvalM.ofOption token f o') := by
  cases h with
  | none => exact fault token f
  | some h => exact pure h

theorem ofResult {token : Token} {r : Except RuntimeFault Value}
    (constant : ∀ v, r = .ok v → v.IsConstant) :
    Enclosed R N N scope (ValueEnclosed R N) (EvalM.ofResult token r) (EvalM.ofResult token r) := by
  cases r with
  | ok v => exact pure (constant v rfl).enclosed
  | error f => exact fault token f

theorem modifyStore {f f' : Machine → Store}
    (h : ∀ m m', MachineEnclosed R N m m' → m.scope = scope → StoreEnclosed R N' (f m) (f' m')) :
    Enclosed R N N' scope (fun _ _ => True)
      (modify fun m => { m with store := f m }) (modify fun m => { m with store := f' m }) :=
  fun m m' hm hscope => .ok trivial { hm with store := h m m' hm hscope } hscope

private theorem newScope {s : Scope} {b b' : Bindings} (hb : BindingsEnclosed R N b b') :
    Enclosed R N N scope (fun t t' => t' = t.enclosed ∧ t.frame ≠ 0 ∧ t = ⟨t.frame, s.frames⟩)
      (onStore (·.newScope b (some s))) (onStore (·.newScope b' (some s.enclosed))) := by
  intro m m' hm hscope
  obtain ⟨same, hstore⟩ := hm.store.newScope hb s
  exact .ok ⟨same, Nat.ne_of_gt hm.store.globals, rfl⟩ { hm with store := hstore } hscope

theorem opening {s : Scope} {Γ : StaticStack} (stands : Stands .apart none Γ s) (σ : StaticFrame)
    {b b' : Bindings} (hb : BindingsEnclosed R N b b') :
    Enclosed R N N scope (fun t t' => t' = t.enclosed ∧ Stands .apart none (σ :: Γ) t)
      (onStore (·.newScope b (some s))) (onStore (·.newScope b' (some s.enclosed))) := by
  refine (newScope hb).mono fun t t' ⟨same, apart, frames⟩ => ⟨same, ?_⟩
  rw [frames]
  exact .inside apart (fun _ _ _ => trivial) stands

theorem newClass : Enclosed R N N scope (fun id id' => id' = id) (onStore (·.newClass))
    (onStore (·.newClass)) := by
  intro m m' hm hscope
  obtain ⟨same, hstore⟩ := hm.store.newClass
  exact .ok same { hm with store := hstore } hscope

theorem newObject (k : Class) :
    Enclosed R N N scope (fun o o' => o' = o.enclosed ∧ o.kind = k) (onStore (·.newObject k))
      (onStore (·.newObject k.enclosed)) := by
  intro m m' hm hscope
  obtain ⟨same, hstore⟩ := hm.store.newObject k
  exact .ok ⟨same, rfl⟩ { hm with store := hstore } hscope

theorem bindTo {c : Closure} (hc : c.ScopedMethod (R.Meets N) .apart) {o : Object}
    (ho : o.kind.Scoped (R.Meets N) .apart) :
    Enclosed R N N scope (FunctionEnclosed R N) (onStore (·.bind c o))
      (onStore (·.bind c.enclosed o.enclosed)) := by
  obtain ⟨Γ, enclosing, context, stands, wellFormed, accepted⟩ := hc
  have hb := (BindingsEnclosed.empty (R := R) (N := N)).insert "this"
    (.object ho)
  intro m m' hm hscope
  obtain ⟨same, hstore⟩ := hm.store.newScope hb c.scope
  have apart : m.store.frames.size ≠ 0 := Nat.ne_of_gt hm.store.globals
  refine .ok ⟨?_, ⟨Γ.receiving c.decl, enclosing, context, ?_, wellFormed, accepted⟩, ?_⟩
    { hm with store := hstore } hscope
  · exact congrArg (fun t => Value.callable (.function ⟨c.decl, t, c.isInitializer⟩)) same
  · exact .inside apart (fun _ _ _ => trivial) stands
  · rintro _ ⟨⟩ _
    exact apart

private theorem bindMethod {c : Closure} (hc : c.ScopedMethod (R.Meets N) .apart) {o : Object}
    (ho : o.kind.Scoped (R.Meets N) .apart) :
    Enclosed R N N scope (ValueEnclosed R N) (EvalM.bindMethod c o)
      (EvalM.bindMethod c.enclosed o.enclosed) :=
  (bindTo hc ho).bind fun _ _ h => pure h

theorem print (sink : Sink) (line : String) :
    Enclosed R N N scope (fun _ _ => True) (EvalM.print sink line) (EvalM.print sink line) := by
  cases sink with
  | working =>
    exact fun m m' hm hscope =>
      .ok trivial { hm with printed := congrArg (Array.push · line) hm.printed } hscope
  | broken text => exact failure _

theorem readClock (clock : Nat → Float) :
    Enclosed R N N scope (ValueEnclosed R N) (EvalM.readClock clock) (EvalM.readClock clock) := by
  intro m m' hm hscope
  have now : m'.readings = m.readings := hm.readings
  refine .ok ?_ { hm with readings := congrArg (· + 1) now } hscope
  rw [now]
  exact Value.IsConstant.enclosed (v := .number _) trivial

private theorem method? {k : Class} (hk : k.Scoped (R.Meets N) .apart) (token : Token)
    (f : RuntimeFault) (name : String) :
    Enclosed R N N scope (fun c c' => c' = c.enclosed ∧ c.ScopedMethod (R.Meets N) .apart)
      (EvalM.ofOption token f (k.method? name))
      (EvalM.ofOption token f (k.enclosed.method? name)) := by
  rw [k.method?_enclosed]
  cases found : k.method? name with
  | none => exact fault token f
  | some c => exact pure ⟨rfl, hk.method? found⟩

theorem getProperty {v v' : Value} (hv : ValueEnclosed R N v v') (name : Token) :
    Enclosed R N N scope (ValueEnclosed R N) (EvalM.getProperty v name)
      (EvalM.getProperty v' name) := by
  obtain ⟨rfl, hv, _⟩ := hv
  cases v with
  | object o =>
    refine store_bind fun m m' hm => ?_
    have field : Option.Rel (ValueEnclosed R N) (m.field? o name.lexeme)
        (m'.field? o.enclosed name.lexeme) := hm.fields o.id name.lexeme
    generalize m.field? o name.lexeme = r, m'.field? o.enclosed name.lexeme = r' at field
    cases field with
    | some h => exact pure h
    | none => exact (method? hv name _ _).bind fun _ _ h => h.1 ▸ bindMethod h.2 hv
  | _ => exact fault _ _

theorem expectObject {v v' : Value} (hv : ValueEnclosed R N v v') (name : Token) :
    Enclosed R N N scope (fun o o' => o' = o.enclosed) (EvalM.expectObject v name)
      (EvalM.expectObject v' name) := by
  obtain ⟨rfl, _, _⟩ := hv
  cases v with
  | object o => exact pure rfl
  | _ => exact fault _ _

theorem expectCallable (limit : Option Nat) {v v' : Value} (hv : ValueEnclosed R N v v')
    (given : Nat) (paren : Token) :
    Enclosed R N N scope (fun c c' => ValueEnclosed R N (.callable c) (.callable c'))
      (EvalM.expectCallable limit v given paren) (EvalM.expectCallable limit v' given paren) := by
  obtain rfl := hv.same
  cases v with
  | callable c =>
    refine get_bind fun m m' hm _ => ?_
    rw [c.arity_enclosed, hm.depth]
    split
    · exact fault _ _
    split
    · exact fault _ _
    · exact pure hv
  | _ => exact fault _ _

theorem inScope {t : Scope} {act : EvalM α} {act' : EvalM α'}
    (h : Enclosed R N N t P act act') :
    Enclosed R N N scope P (EvalM.inScope t act) (EvalM.inScope t.enclosed act') := by
  intro m m' hm hscope
  have ends := h { m with scope := t } { m' with scope := t.enclosed } { hm with scope := rfl } rfl
  rw [outcome_inScope, outcome_inScope]
  generalize outcome act { m with scope := t } = out,
    outcome act' { m' with scope := t.enclosed } = out' at ends
  cases ends with
  | ok h hm' _ => exact .ok h { hm' with scope := hm.scope } hscope
  | failure f hm' _ => exact .failure f { hm' with scope := hm.scope } hscope
  | returned hv hm' _ => exact .returned hv { hm' with scope := hm.scope } hscope

theorem asCall {act : EvalM α} {act' : EvalM α'} (h : Enclosed R N N scope P act act') :
    Enclosed R N N scope P (EvalM.asCall act) (EvalM.asCall act') := by
  intro m m' hm hscope
  have ends := h { m with depth := m.depth + 1 } { m' with depth := m'.depth + 1 }
    { hm with depth := congrArg (· + 1) hm.depth } hscope
  rw [outcome_asCall, outcome_asCall]
  generalize outcome act { m with depth := m.depth + 1 } = out,
    outcome act' { m' with depth := m'.depth + 1 } = out' at ends
  cases ends with
  | ok h hm' hs => exact .ok h { hm' with depth := congrArg (· - 1) hm'.depth } hs
  | failure f hm' hs => exact .failure f { hm' with depth := congrArg (· - 1) hm'.depth } hs
  | returned hv hm' hs => exact .returned hv { hm' with depth := congrArg (· - 1) hm'.depth } hs

theorem catchReturn {act act' : EvalM Unit} (h : Enclosed R N N scope (fun _ _ => True) act act') :
    Enclosed R N N scope (Option.Rel (ValueEnclosed R N)) (EvalM.catchReturn act)
      (EvalM.catchReturn act') := by
  intro m m' hm hscope
  have ends := h m m' hm hscope
  rw [outcome_catchReturn, outcome_catchReturn]
  generalize act.outcome m = out, act'.outcome m' = out' at ends
  cases ends with
  | ok _ hm hscope => exact .ok .none hm hscope
  | failure f hm hscope => exact .failure f hm hscope
  | returned hv hm hscope => exact .ok (.some hv) hm hscope

section Names

variable {Γ : StaticStack} {id : ExprId} {name : Token}

theorem lookUp (stands : Stands .apart none Γ scope) (binds : R.Binds N Γ.length id name.lexeme) :
    Enclosed R N N scope (ValueEnclosed R N) (EvalM.lookUp R.plain id name)
      (EvalM.lookUp R.braced id name) := by
  refine get_bind fun m m' hm hscope => ?_
  have scopes : m'.scope = scope.enclosed := hscope ▸ hm.scope
  rw [hscope, scopes]
  cases binds with
  | inner inside plain braced =>
    rw [plain, braced]
    exact ofOption (hm.store.getInner? stands inside name.lexeme)
  | moved plain braced moved =>
    obtain ⟨v, v', hv, found, found'⟩ := hm.store.getMoved? stands moved
    rw [plain, braced]
    dsimp only
    rw [found, found']
    exact pure hv
  | global plain braced other =>
    rw [plain, braced]
    exact ofOption (hm.store.getOther? other)

private theorem holder (stands : Stands .apart none Γ scope)
    (binds : R.Binds N Γ.length id name.lexeme) :
    Enclosed R N N scope (Homes N name.lexeme) (EvalM.holder R.plain id name)
      (EvalM.holder R.braced id name) := by
  refine get_bind fun m m' hm hscope => ?_
  have scopes : m'.scope = scope.enclosed := hscope ▸ hm.scope
  rw [hscope, scopes]
  cases binds with
  | inner inside plain braced =>
    rw [plain, braced]
    exact ofOption (hm.store.holderInner? stands inside name.lexeme)
  | moved plain braced moved =>
    obtain ⟨found, found'⟩ := hm.store.holderMoved? stands moved
    rw [plain, braced]
    dsimp only
    rw [found, found']
    exact pure (home_moved moved).symm
  | global plain braced other =>
    rw [plain, braced]
    exact ofOption (hm.store.holderOther? other)

theorem assign (stands : Stands .apart none Γ scope) (binds : R.Binds N Γ.length id name.lexeme)
    {v v' : Value} (hv : ValueEnclosed R N v v') :
    Enclosed R N N scope (fun _ _ => True) (EvalM.assign R.plain id name v)
      (EvalM.assign R.braced id name v') := by
  refine (holder stands binds).bind fun f f' same => ?_
  subst same
  exact modifyStore fun m m' hm _ => hm.store.setLocal f name.lexeme hv

theorem superMethod {keyword method : Token} (stands : Stands .apart none Γ scope)
    (met : R.Meets N (.super id keyword method) Γ) :
    Enclosed R N N scope (ValueEnclosed R N) (EvalM.superMethod R.plain id keyword method)
      (EvalM.superMethod R.braced id keyword method) := by
  obtain ⟨d, inside, plain, braced⟩ := met.super id keyword method rfl
  refine get_bind fun m m' hm hscope => ?_
  have scopes : m'.scope = scope.enclosed := hscope ▸ hm.scope
  rw [hscope, scopes, plain, braced]
  refine (ofOption (P := fun a b => a = d ∧ b = d) (.some ⟨rfl, rfl⟩)).bind
    fun a b ⟨found, found'⟩ => ?_
  rw [found, found']
  have superclass := hm.store.getInner? stands inside "super"
  generalize m.store.getAt? scope d "super" = c, m'.store.getAt? scope.enclosed d "super" = c'
    at superclass ⊢
  cases superclass with
  | none => exact fault _ _
  | @some c _ hc =>
    obtain ⟨rfl, hc, _⟩ := hc
    cases c with
    | callable c =>
      cases c with
      | ofClass k =>
        cases d with
        | zero => exact fault _ _
        | succ inner =>
          have object := hm.store.getInner? stands (Nat.lt_of_succ_lt inside) "this"
          dsimp only [Value.enclosed, Callable.enclosed]
          generalize m.store.getAt? scope inner "this" = o,
            m'.store.getAt? scope.enclosed inner "this" = o' at object
          cases object with
          | none => exact fault _ _
          | @some o _ ho =>
            obtain ⟨rfl, ho, _⟩ := ho
            cases o with
            | object o =>
              exact (method? hc method _ _).bind fun _ _ h => h.1 ▸ bindMethod h.2 ho
            | _ => exact fault _ _
      | _ => exact fault _ _
    | _ => exact fault _ _

end Names

end Enclosed

end LoxLang
