import LoxLang.Proofs.EvalRuns
import LoxLang.Proofs.MirrorValues

/-!
Mirrored trees, executed from mirrored states, do the same: they print the same lines, give
mirrored results and leave mirrored states.  Each step of an execution is treated once, and what
is true of the steps of a tree is true of the tree.
-/

set_option autoImplicit false
set_option relaxedAutoImplicit false

namespace LoxLang

inductive ResultRel {α β : Type} (M : Mirror) (W : World) (R : World → α → β → Prop) :
    Except Interrupt α → Except Interrupt β → Prop where
  | ok {a : α} {b : β} : R W a b → ResultRel M W R (.ok a) (.ok b)
  | error {i i' : Interrupt} : InterruptRel M W i i' → ResultRel M W R (.error i) (.error i')

private theorem ResultRel.mono {α β : Type} {M : Mirror} {W : World} {R S : World → α → β → Prop}
    {r : Except Interrupt α} {r' : Except Interrupt β} (h : ResultRel M W R r r')
    (weaken : ∀ a b, R W a b → S W a b) : ResultRel M W S r r' := by
  cases h with
  | ok h => exact .ok (weaken _ _ h)
  | error i => exact .error i

def Mirrored {α β : Type} (M : Mirror) (W : World) (scope : Scope) (R : World → α → β → Prop)
    (act : EvalM α) (act' : EvalM β) : Prop :=
  ∀ m m', MachineRel M W m m' → m.scope = scope → ∃ W', W <+: W' ∧
    ResultRel M W' R (act.outcome m).1 (act'.outcome m').1 ∧
    MachineRel M W' (act.outcome m).2 (act'.outcome m').2 ∧ (act.outcome m).2.scope = scope

def Agrees (M : Mirror) (D D' : Distances) : Prop :=
  ∀ {id id'}, M.expr id id' → D'[id']? = D[id]? ∧ M.bound id D[id]?

private theorem Agrees.name {M : Mirror} {D D' : Distances} (agree : Agrees M D D') {k : Nat}
    {Γ : List Renaming} {id id' : ExprId} {name name' : Token}
    (h : Refers M k Γ id id' name name') :
    D'[id']? = D[id]? ∧ name'.lexeme = renamed Γ D[id]? name.lexeme ∧
      name'.line = name.line + k := by
  obtain ⟨same, foreseen⟩ := agree h.number
  have moved := h.name _ foreseen
  exact ⟨same, congrArg Token.lexeme moved, congrArg Token.line moved⟩

namespace Mirrored

open EvalM

variable {α α' β β' : Type} {M : Mirror} {W : World} {scope : Scope}

private theorem pure {R : World → α → α' → Prop} {a : α} {a' : α'} (h : R W a a') :
    Mirrored M W scope R (pure a) (pure a') :=
  fun _ _ hm hscope => ⟨W, List.prefix_rfl, .ok h, hm, hscope⟩

private theorem throw {R : World → α → α' → Prop} {i i' : Interrupt} (h : InterruptRel M W i i') :
    Mirrored M W scope R (throw i) (throw i') :=
  fun _ _ hm hscope => ⟨W, List.prefix_rfl, .error h, hm, hscope⟩

private theorem fault {R : World → α → α' → Prop} {here : SiteId} {token token' : Token}
    {f f' : RuntimeFault} (line : token'.line = token.line + M.drop here) (h : FaultRel M f f') :
    Mirrored M W scope R (EvalM.fault token f) (EvalM.fault token' f') := by
  refine throw (.failure ?_)
  rw [line]
  exact .fault _ here h

private theorem sameFault {R : World → α → α' → Prop} {here : SiteId} {token : Token}
    {f : RuntimeFault} :
    Mirrored M W scope R (EvalM.fault token f) (EvalM.fault (token.later (M.drop here)) f) :=
  fault rfl (.refl f)

private theorem mono {R S : World → α → α' → Prop} {act : EvalM α} {act' : EvalM α'}
    (h : Mirrored M W scope R act act') (weaken : ∀ W a a', R W a a' → S W a a') :
    Mirrored M W scope S act act' := by
  intro m m' hm hscope
  obtain ⟨W', later, result, rest⟩ := h m m' hm hscope
  exact ⟨W', later, result.mono (weaken W'), rest⟩

private theorem bind {R : World → α → α' → Prop} {S : World → β → β' → Prop} {act : EvalM α}
    {act' : EvalM α'} {next : α → EvalM β} {next' : α' → EvalM β'}
    (first : Mirrored M W scope R act act')
    (second : ∀ W' a a', W <+: W' → R W' a a' → Mirrored M W' scope S (next a) (next' a')) :
    Mirrored M W scope S (act >>= next) (act' >>= next') := by
  intro m m' hm hscope
  obtain ⟨W₁, later₁, result, hm₁, hscope₁⟩ := first m m' hm hscope
  rw [outcome_bind, outcome_bind]
  rcases ho : act.outcome m with ⟨r, m₁⟩
  rcases ho' : act'.outcome m' with ⟨r', m₁'⟩
  rw [ho, ho'] at result hm₁
  rw [ho] at hscope₁
  cases result with
  | error i => exact ⟨W₁, later₁, .error i, hm₁, hscope₁⟩
  | ok h =>
    obtain ⟨W₂, later₂, rest⟩ := second W₁ _ _ later₁ h m₁ m₁' hm₁ hscope₁
    exact ⟨W₂, later₁.trans later₂, rest⟩

private theorem get : Mirrored M W scope
    (fun W' m m' => W' = W ∧ MachineRel M W m m' ∧ m.scope = scope) get get :=
  fun _ _ hm hscope => ⟨W, List.prefix_rfl, .ok ⟨rfl, hm, hscope⟩, hm, hscope⟩

private theorem get_bind {R : World → α → α' → Prop} {next : Machine → EvalM α}
    {next' : Machine → EvalM α'}
    (h : ∀ m m', MachineRel M W m m' → m.scope = scope → Mirrored M W scope R (next m) (next' m')) :
    Mirrored M W scope R (MonadState.get >>= next) (MonadState.get >>= next') := by
  refine get.bind fun W' m m' later ⟨same, hm, hscope⟩ => ?_
  subst same
  exact h m m' hm hscope

private theorem ofOption {R : World → α → α' → Prop} {here : SiteId} {token token' : Token}
    {f f' : RuntimeFault} {o : Option α} {o' : Option α'}
    (line : token'.line = token.line + M.drop here) (hf : FaultRel M f f')
    (h : Option.Rel (R W) o o') :
    Mirrored M W scope R (EvalM.ofOption token f o) (EvalM.ofOption token' f' o') := by
  cases h with
  | none => exact fault line hf
  | some h => exact pure h

private theorem ofResult (here : SiteId) (token : Token) {r : Except RuntimeFault Value}
    (constant : ∀ v, r = .ok v → v.IsConstant) :
    Mirrored M W scope (ValueRel M) (EvalM.ofResult token r)
      (EvalM.ofResult (token.later (M.drop here)) r) := by
  cases r with
  | ok v => exact pure (constant v rfl).mirrored
  | error f => exact sameFault

private theorem modifyStore {f f' : Store → Store}
    (h : ∀ {m m' : Store}, StoreRel M W m m' → StoreRel M W (f m) (f' m')) :
    Mirrored M W scope (fun _ _ _ => True)
      (modify fun m => { m with store := f m.store })
      (modify fun m => { m with store := f' m.store }) :=
  fun _ _ hm hscope => ⟨W, List.prefix_rfl, .ok trivial, { hm with store := h hm.store }, hscope⟩

private theorem define (has : W.Has scope) {name name' : String}
    (hname : name' = renamed (W.around scope) (some 0) name) {v v' : Value}
    (hv : ValueRel M W v v') :
    Mirrored M W scope (fun _ _ _ => True) (EvalM.define name v) (EvalM.define name' v') := by
  intro m m' hm hscope
  refine ⟨W, List.prefix_rfl, .ok trivial, { hm with store := ?_ }, hscope⟩
  have inner : name' = (W.of scope.frame).apply name := hname
  subst inner hscope
  have frame : m'.scope.frame = m.scope.frame := congrArg Scope.frame hm.scope
  change StoreRel M W (m.store.setLocal m.scope.frame name v)
    (m'.store.setLocal m'.scope.frame _ v')
  rw [frame]
  exact hm.store.setLocal _ _ hv

private theorem setField {o o' : Object} (ho : ObjectRel M W o o') (name : String) {v v' : Value}
    (hv : ValueRel M W v v') :
    Mirrored M W scope (fun _ _ _ => True) (EvalM.setField o name v)
      (EvalM.setField o' name v') :=
  modifyStore fun h => h.setField ho name hv

private theorem newScope {ρ : Renaming} (hρ : M.allowed ρ) {b b' : Bindings}
    (hb : BindingsRel M W ρ b b') {s : Scope} (has : W.Has s) :
    Mirrored M W scope
      (fun W' t t' => W <+: W' ∧ t' = t ∧ W'.Has t ∧ W'.around t = ρ :: W.around s)
      (onStore (·.newScope b (some s))) (onStore (·.newScope b' (some s))) := by
  intro m m' hm hscope
  obtain ⟨same, hstore⟩ := hm.store.newScope hρ hb (some s)
  have later := List.prefix_append W [ρ]
  exact ⟨W ++ [ρ], later,
    .ok ⟨later, same, World.has_inside hm.store has ρ, World.around_inside hm.store has ρ⟩,
    { hm with store := hstore, has := hm.has.mono later }, hscope⟩

private theorem newClass : Mirrored M W scope (fun _ id id' => id' = id) (onStore (·.newClass))
    (onStore (·.newClass)) := by
  intro m m' hm hscope
  obtain ⟨same, hstore⟩ := hm.store.newClass
  exact ⟨W, List.prefix_rfl, .ok same, { hm with store := hstore }, hscope⟩

private theorem newObject {k k' : Class} (hk : ClassRel M W k k') :
    Mirrored M W scope (ObjectRel M) (onStore (·.newObject k)) (onStore (·.newObject k')) := by
  intro m m' hm hscope
  obtain ⟨ho, hstore⟩ := hm.store.newObject hk
  exact ⟨W, List.prefix_rfl, .ok ho, { hm with store := hstore }, hscope⟩

private theorem bindTo {c c' : Closure} (hc : ClosureRel M W [.refl] c c') {o o' : Object}
    (ho : ObjectRel M W o o') :
    Mirrored M W scope (fun W' => ClosureRel M W' []) (onStore (·.bind c o))
      (onStore (·.bind c' o')) := by
  rcases c with ⟨decl, s, init⟩
  rcases c' with ⟨decl', s', init'⟩
  obtain rfl : s' = s := hc.scope
  have hb := (BindingsRel.empty (M := M) (W := W) .refl).insert "this" (.object ho)
  intro m m' hm hscope
  obtain ⟨same, hstore⟩ := hm.store.newScope M.allowed_refl hb (some s')
  have later := List.prefix_append W [.refl]
  refine ⟨W ++ [.refl], later, .ok ⟨same, World.has_inside hm.store hc.has .refl,
    hc.initializer, ?_⟩, { hm with store := hstore, has := hm.has.mono later }, hscope⟩
  have around : (W ++ [.refl] : World).around _ = _ := World.around_inside hm.store hc.has .refl
  rw [List.nil_append]
  exact around ▸ hc.decl

private theorem bindMethod {c c' : Closure} (hc : ClosureRel M W [.refl] c c') {o o' : Object}
    (ho : ObjectRel M W o o') :
    Mirrored M W scope (ValueRel M) (EvalM.bindMethod c o) (EvalM.bindMethod c' o') :=
  (bindTo hc ho).bind fun _ _ _ _ h => pure (.callable (.function h))

private theorem print (sink : Sink) (line : String) :
    Mirrored M W scope (fun _ _ _ => True) (EvalM.print sink line) (EvalM.print sink line) := by
  cases sink with
  | working =>
    intro m m' hm hscope
    exact ⟨W, List.prefix_rfl, .ok trivial,
      { hm with printed := congrArg (Array.push · line) hm.printed }, hscope⟩
  | broken text => exact throw (.failure (.sink text))

private theorem readClock (clock : Nat → Float) :
    Mirrored M W scope (ValueRel M) (EvalM.readClock clock) (EvalM.readClock clock) := by
  intro m m' hm hscope
  have now : m'.readings = m.readings := hm.readings
  refine ⟨W, List.prefix_rfl, .ok ?_, { hm with readings := congrArg (· + 1) now }, hscope⟩
  rw [now]
  exact .number _

private theorem store_bind {R : World → α → α' → Prop} {next : Store → EvalM α}
    {next' : Store → EvalM α'}
    (h : ∀ m m', StoreRel M W m m' → Mirrored M W scope R (next m) (next' m')) :
    Mirrored M W scope R (EvalM.store >>= next) (EvalM.store >>= next') := by
  intro m m' hm hscope
  exact h m.store m'.store hm.store m m' hm hscope

private theorem getProperty {v v' : Value} (hv : ValueRel M W v v') (here : SiteId) (name : Token) :
    Mirrored M W scope (ValueRel M) (EvalM.getProperty v name)
      (EvalM.getProperty v' (name.later (M.drop here))) := by
  cases hv with
  | object ho =>
    rename_i o o'
    refine store_bind fun m m' hm => ?_
    have field : Option.Rel (ValueRel M W) (m.field? o name.lexeme) (m'.field? o' name.lexeme) := by
      unfold Store.field?
      rw [ho.id]
      exact hm.fields o.id name.lexeme
    dsimp only [Token.later]
    generalize m.field? o name.lexeme = r, m'.field? o' name.lexeme = r' at field
    cases field with
    | some h => exact pure h
    | none =>
      refine (ofOption (R := fun W' => ClosureRel M W' [.refl]) rfl (.refl _)
        (ho.kind.method? name.lexeme)).bind fun W' c c' later hc => ?_
      exact bindMethod hc (ho.mono later)
  | _ => exact sameFault

private theorem expectObject {v v' : Value} (hv : ValueRel M W v v') (here : SiteId)
    (name : Token) :
    Mirrored M W scope (ObjectRel M) (EvalM.expectObject v name)
      (EvalM.expectObject v' (name.later (M.drop here))) := by
  cases hv with
  | object ho => exact pure ho
  | _ => exact sameFault

private theorem expectCallable (limit : Option Nat) {v v' : Value} (hv : ValueRel M W v v')
    (given : Nat) (here : SiteId) (paren : Token) :
    Mirrored M W scope (CallableRel M) (EvalM.expectCallable limit v given paren)
      (EvalM.expectCallable limit v' given (paren.later (M.drop here))) := by
  cases hv with
  | callable hc =>
    refine get_bind fun m m' hm _ => ?_
    rw [hc.arity_eq, hm.depth]
    split
    · exact sameFault
    split
    · exact sameFault
    · exact pure hc
  | object ho => exact sameFault
  | _ => exact sameFault

private theorem inScope {R : World → α → α' → Prop} {act : EvalM α} {act' : EvalM α'}
    {inner : Scope} (h : Mirrored M W inner R act act') (has : W.Has inner) :
    Mirrored M W scope R (EvalM.inScope inner act) (EvalM.inScope inner act') := by
  intro m m' hm hscope
  obtain ⟨W', later, result, hm', _⟩ := h { m with scope := inner } { m' with scope := inner }
    { hm with scope := rfl, has := has } rfl
  exact ⟨W', later, result, { hm' with scope := hm.scope, has := hm.has.mono later }, hscope⟩

private theorem asCall {R : World → α → α' → Prop} {act : EvalM α} {act' : EvalM α'}
    (h : Mirrored M W scope R act act') :
    Mirrored M W scope R (EvalM.asCall act) (EvalM.asCall act') := by
  intro m m' hm hscope
  obtain ⟨W', later, result, hm', hscope'⟩ := h { m with depth := m.depth + 1 }
    { m' with depth := m'.depth + 1 } { hm with depth := congrArg (· + 1) hm.depth } hscope
  exact ⟨W', later, result, { hm' with depth := congrArg (· - 1) hm'.depth }, hscope'⟩

private theorem catchReturn {act act' : EvalM Unit}
    (h : Mirrored M W scope (fun _ _ _ => True) act act') :
    Mirrored M W scope (fun W' => Option.Rel (ValueRel M W')) (EvalM.catchReturn act)
      (EvalM.catchReturn act') := by
  intro m m' hm hscope
  obtain ⟨W', later, result, hm', hscope'⟩ := h m m' hm hscope
  rw [outcome_catchReturn, outcome_catchReturn]
  rcases ho : act.outcome m with ⟨r, m₁⟩
  rcases ho' : act'.outcome m' with ⟨r', m₁'⟩
  rw [ho, ho'] at result hm'
  rw [ho] at hscope'
  cases result with
  | ok _ => exact ⟨W', later, .ok .none, hm', hscope'⟩
  | error i =>
    cases i with
    | failure f => exact ⟨W', later, .error (.failure f), hm', hscope'⟩
    | returned v => exact ⟨W', later, .ok (.some v), hm', hscope'⟩

variable {D D' : Distances} {here : SiteId} {id id' : ExprId} {name name' : Token}

private theorem lookUp (agree : Agrees M D D')
    (h : Refers M (M.drop here) (W.around scope) id id' name name') :
    Mirrored M W scope (ValueRel M) (EvalM.lookUp D id name) (EvalM.lookUp D' id' name') := by
  obtain ⟨same, spelling, line⟩ := agree.name h
  refine get_bind fun m m' hm hscope => ?_
  rw [same]
  cases hd : D[id]? with
  | none =>
    rw [hd] at spelling
    have kept : name'.lexeme = name.lexeme := spelling
    have global := hm.store.getGlobal? name.lexeme
    rw [← kept] at global
    exact ofOption line (.unbound h.quoted) (kept ▸ global)
  | some d =>
    rw [hd] at spelling
    have found := hm.store.getAt? m.scope d name.lexeme
    rw [hscope, ← spelling] at found
    have scopes : m'.scope = scope := hm.scope.trans hscope
    rw [hscope, scopes]
    exact ofOption line (.unboundLocal h.quoted) found

private theorem holder (agree : Agrees M D D')
    (h : Refers M (M.drop here) (W.around scope) id id' name name') :
    Mirrored M W scope
      (fun W' f f' => f' = f ∧ name'.lexeme = (W'.of f).apply name.lexeme)
      (EvalM.holder D id name) (EvalM.holder D' id' name') := by
  obtain ⟨same, spelling, line⟩ := agree.name h
  refine get_bind fun m m' hm hscope => ?_
  rw [same]
  cases hd : D[id]? with
  | none =>
    rw [hd] at spelling
    have kept : name'.lexeme = name.lexeme := spelling
    refine ofOption line (.unbound h.quoted) ?_
    rw [kept, hm.store.globalHolder? name.lexeme]
    cases found : m.store.holder? .globals name.lexeme with
    | none => exact .none
    | some f =>
      have global : f = 0 := by
        simpa [Scope.frames, Scope.globals] using List.mem_of_find?_eq_some found
      subst global
      refine .some ⟨rfl, ?_⟩
      rw [hm.store.of_globals]
      rfl
  | some d =>
    rw [hd] at spelling
    have scopes : m'.scope = scope := hm.scope.trans hscope
    have frame := hm.store.holderAt? scope d name.lexeme
    refine ofOption line (.unboundLocal h.quoted) ?_
    rw [hscope, scopes, spelling, frame]
    cases found : m.store.holderAt? scope d name.lexeme with
    | none => exact .none
    | some f => exact .some ⟨rfl, Store.renamed_holderAt? found⟩

private theorem assign (agree : Agrees M D D')
    (h : Refers M (M.drop here) (W.around scope) id id' name name')
    {v v' : Value} (hv : ValueRel M W v v') :
    Mirrored M W scope (fun _ _ _ => True) (EvalM.assign D id name v)
      (EvalM.assign D' id' name' v') := by
  refine (holder agree h).bind fun W' f f' later ⟨same, spelling⟩ => ?_
  subst same
  rw [spelling]
  exact modifyStore fun hm => hm.setLocal f' name.lexeme (hv.mono later)

private theorem superMethod (agree : Agrees M D D') (number : M.expr id id') (here : SiteId)
    (keyword method : Token) :
    Mirrored M W scope (ValueRel M) (EvalM.superMethod D id keyword method)
      (EvalM.superMethod D' id' (keyword.later (M.drop here)) (method.later (M.drop here))) := by
  refine get_bind fun m m' hm hscope => ?_
  have distance : Option.Rel Eq D[id]? D'[id']? := by
    rw [(agree number).1]
    cases D[id]? with
    | none => exact .none
    | some d => exact .some rfl
  refine (ofOption (R := fun _ => Eq) rfl (.refl _) distance).bind ?_
  rintro W' d _ later rfl
  have kept := hm.store.getAt? m.scope d "super"
  rw [renamed_super] at kept
  have scopes : m'.scope = m.scope := hm.scope
  rw [scopes]
  generalize m.store.getAt? m.scope d "super" = c, m'.store.getAt? m.scope d "super" = c' at kept
  cases kept with
  | none => exact sameFault
  | some kept =>
  cases kept with
  | callable kept =>
    cases kept with
    | ofClass hc =>
      cases d with
      | zero => exact sameFault
      | succ inner =>
        have object := hm.store.getAt? m.scope inner "this"
        rw [renamed_this] at object
        dsimp only
        generalize m.store.getAt? m.scope inner "this" = o,
          m'.store.getAt? m.scope inner "this" = o' at object
        cases object with
        | none => exact sameFault
        | some object =>
        cases object with
        | object ho =>
          refine (ofOption (R := fun W' => ClosureRel M W' [.refl]) rfl (.refl _) ?_).bind
            fun W'' f f' later' hf => bindMethod hf ((ho.mono later).mono later')
          have found := (ClassRel.mono hc later).method? method.lexeme
          exact found
        | _ => exact sameFault
    | _ => exact sameFault
  | _ => exact sameFault

private theorem closures_rel {k : Nat} {s : Scope} (has : W.Has s)
    {methods methods' : List FunctionDecl}
    (h : FunctionsRel M k (.refl :: W.around s) methods methods') :
    List.Forall₂ (ClosureRel M W [.refl])
      (methods.map fun decl => Closure.mk decl s (decl.name.lexeme = initializerName))
      (methods'.map fun decl => Closure.mk decl s (decl.name.lexeme = initializerName)) := by
  induction methods generalizing methods' with
  | nil =>
    cases h
    exact .nil
  | cons decl decls ih =>
    cases h with
    | cons first others =>
      exact .cons ⟨rfl, has, by simp only [first.name_eq], first.at_site⟩ (ih others)

def ClassScope (M : Mirror) (k : Nat) (methods methods' : List FunctionDecl)
    (superclass superclass' : Option Class) (W : World) (s s' : Scope) : Prop :=
  s' = s ∧ W.Has s ∧ FunctionsRel M k (.refl :: W.around s) methods methods' ∧
    Option.Rel (ClassRel M W) superclass superclass'

private theorem defineClass {k : Nat} (has : W.Has scope) (name : Token)
    (kept : Kept (W.around scope) name.lexeme) {superclass superclass' : Option Class}
    {methods methods' : List FunctionDecl} {s s' : Scope}
    (h : ClassScope M k methods methods' superclass superclass' W s s') :
    Mirrored M W scope (fun _ _ _ => True)
      (do
        let id ← onStore (·.newClass)
        let closures := methods.map fun decl =>
          Closure.mk decl s (decl.name.lexeme = initializerName)
        EvalM.define name.lexeme (.callable (.ofClass (.below ⟨id, name.lexeme, closures⟩ superclass))))
      (do
        let id ← onStore (·.newClass)
        let closures := methods'.map fun decl =>
          Closure.mk decl s' (decl.name.lexeme = initializerName)
        EvalM.define name.lexeme
          (.callable (.ofClass (.below ⟨id, name.lexeme, closures⟩ superclass')))) := by
  obtain ⟨rfl, hasMethods, hmethods, hsuper⟩ := h
  refine newClass.bind fun W' id id' later same => ?_
  subst same
  have closures := (closures_rel hasMethods hmethods).imp fun _ _ c => c.mono later
  have own : BodyRel M W' ⟨id', name.lexeme, methods.map _⟩ ⟨id', name.lexeme, methods'.map _⟩ :=
    ⟨rfl, rfl, closures⟩
  refine define (has.mono later) ?_ (.callable (.ofClass ?_))
  · rw [has.around later]
    exact kept.symm
  · cases hsuper with
    | none => exact .cons own .nil
    | some hc => exact .cons own (hc.mono later)

private theorem declareClass {k : Nat} (has : W.Has scope) (name : Token)
    (kept : Kept (W.around scope) name.lexeme) {methods methods' : List FunctionDecl}
    (h : FunctionsRel M k (.refl :: W.around scope) methods methods') :
    Mirrored M W scope (fun _ _ _ => True) (EvalM.declareClass name none methods)
      (EvalM.declareClass (name.later k) none methods') := by
  refine get_bind fun m m' hm hscope => ?_
  have scopes : m'.scope = m.scope := hm.scope
  refine (pure (R := ClassScope M k methods methods' none none) ?_).bind
    fun W' s s' later hs => defineClass (has.mono later) name (has.around later ▸ kept) hs
  rw [hscope]
  exact ⟨scopes.trans hscope, has, h, .none⟩

private theorem declareSubclass {k : Nat} (has : W.Has scope) (name : Token)
    (kept : Kept (W.around scope) name.lexeme) {c c' : Class} (hc : ClassRel M W c c')
    {methods methods' : List FunctionDecl}
    (h : FunctionsRel M k (.refl :: .refl :: W.around scope) methods methods') :
    Mirrored M W scope (fun _ _ _ => True) (EvalM.declareClass name (some c) methods)
      (EvalM.declareClass (name.later k) (some c') methods') := by
  have hb := (BindingsRel.empty (M := M) (W := W) .refl).insert "super" (.callable (.ofClass hc))
  refine get_bind fun m m' hm hscope => ?_
  have scopes : m'.scope = scope := hm.scope.trans hscope
  rw [hscope, scopes]
  refine ((newScope M.allowed_refl hb has).mono
    (S := ClassScope M k methods methods' (some c) (some c')) ?_).bind
    fun W' s s' later hs => defineClass (has.mono later) name (has.around later ▸ kept) hs
  rintro W' s s' ⟨later, same, made, around⟩
  exact ⟨same, made, around ▸ h, .some (hc.mono later)⟩

end Mirrored

structure Steps (M : Mirror) (w w' : Surroundings) (bound : Nat) : Prop where
  expr : ∀ {W : World} {scope here e e'}, W.Has scope →
    ExprRel M (M.drop here) (W.around scope) e e' →
    Mirrored M W scope (ValueRel M) (evalExpr w bound e) (evalExpr w' bound e')
  exprs : ∀ {W : World} {scope here es es'}, W.Has scope →
    ExprsRel M (M.drop here) (W.around scope) es es' →
    Mirrored M W scope (fun W' => List.Forall₂ (ValueRel M W')) (evalExprs w bound es)
      (evalExprs w' bound es')
  apply : ∀ {W : World} {scope c c' args args'}, CallableRel M W c c' →
    List.Forall₂ (ValueRel M W) args args' →
    Mirrored M W scope (ValueRel M) (applyCallable w bound c args)
      (applyCallable w' bound c' args')
  invoke : ∀ {W : World} {scope c c' args args'}, ClosureRel M W [] c c' →
    List.Forall₂ (ValueRel M W) args args' →
    Mirrored M W scope (ValueRel M) (invokeClosure w bound c args)
      (invokeClosure w' bound c' args')
  stmt : ∀ {W : World} {scope here s s'}, W.Has scope →
    StmtRel M (M.drop here) (W.around scope) s s' →
    Mirrored M W scope (fun _ _ _ => True) (execStmt w bound s) (execStmt w' bound s')
  option : ∀ {W : World} {scope here e e'}, W.Has scope →
    Option.Rel (ExprRel M (M.drop here) (W.around scope)) e e' →
    Mirrored M W scope (ValueRel M) (evalOption w bound e) (evalOption w' bound e')
  stmts : ∀ {W : World} {scope here ss ss'}, W.Has scope →
    StmtsRel M (M.drop here) (W.around scope) ss ss' →
    Mirrored M W scope (fun _ _ _ => True) (execStmts w bound ss) (execStmts w' bound ss')
  loop : ∀ {W : World} {scope here c c' s s'}, W.Has scope →
    ExprRel M (M.drop here) (W.around scope) c c' → StmtRel M (M.drop here) (W.around scope) s s' →
    Mirrored M W scope (fun _ _ _ => True) (execLoop w bound c s) (execLoop w' bound c' s')

namespace Steps

open EvalM Mirrored

variable {M : Mirror} {w w' : Surroundings} {bound : Nat} {here : SiteId}

private theorem zero : Steps M w w' 0 := by
  constructor
  all_goals
    intros
    exact throw (.failure .exhausted)

private theorem expr_succ (h : Steps M w w' bound) (config : w'.config = w.config)
    (agree : Agrees M w.distances w'.distances) {W : World} {scope : Scope} {e e' : Expr}
    (has : W.Has scope) (he : ExprRel M (M.drop here) (W.around scope) e e') :
    Mirrored M W scope (ValueRel M) (evalExpr w (bound + 1) e) (evalExpr w' (bound + 1) e') := by
  unfold evalExpr
  cases he with
  | literal l => cases l <;> exact .pure (by constructor)
  | grouping he => exact h.expr has he
  | unary operator he =>
    refine (h.expr has he).bind fun W' v v' _ hv => ?_
    rw [Token.later_kind, applyUnary_alike _ hv.alike]
    exact ofResult here operator fun _ => applyUnary_constant
  | binary operator ha hb =>
    refine (h.expr has ha).bind fun W₁ a a' later₁ hv => ?_
    refine (h.expr (has.mono later₁) (has.around later₁ ▸ hb)).bind fun W₂ b b' later₂ hv' => ?_
    have ha := hv.mono later₂
    rw [Token.later_kind, applyBinary_alike _ ha.alike hv'.alike (ha.same_eq hv')]
    exact ofResult here operator fun _ => applyBinary_constant
  | logical operator ha hb =>
    refine (h.expr has ha).bind fun W₁ a a' later₁ hv => ?_
    rw [hv.alike.truthy_eq, Token.later_kind]
    generalize (if operator.kind = .orWord then a.truthy else !a.truthy) = decided
    cases decided with
    | true => exact .pure hv
    | false => exact h.expr (has.mono later₁) (has.around later₁ ▸ hb)
  | reference hr => exact lookUp agree hr
  | assign hr he =>
    refine (h.expr has he).bind fun W₁ v v' later₁ hv => ?_
    refine (assign agree (has.around later₁ ▸ hr) hv).bind fun W₂ _ _ later₂ _ => ?_
    exact .pure (hv.mono later₂)
  | call paren he hargs =>
    refine (h.expr has he).bind fun W₁ f f' later₁ hf => ?_
    have has₁ := has.mono later₁
    refine (h.exprs has₁ (has.around later₁ ▸ hargs)).bind fun W₂ args args' later₂ hargs => ?_
    rw [config, hargs.length_eq]
    refine (expectCallable _ (hf.mono later₂) _ here paren).bind fun W₃ c c' later₃ hc => ?_
    exact asCall (h.apply hc (hargs.imp fun _ _ v => v.mono later₃))
  | get name he => exact (h.expr has he).bind fun W₁ v v' _ hv => getProperty hv here name
  | set name ha hb =>
    refine (h.expr has ha).bind fun W₁ v v' later₁ hv => ?_
    refine (expectObject hv here name).bind fun W₂ o o' later₂ ho => ?_
    have later := later₁.trans later₂
    refine (h.expr (has.mono later) (has.around later ▸ hb)).bind fun W₃ u u' later₃ hu => ?_
    refine (setField (ho.mono later₃) name.lexeme hu).bind fun W₄ _ _ later₄ _ => ?_
    exact .pure (hu.mono later₄)
  | this hr => exact lookUp agree hr
  | super keyword method number => exact superMethod agree number here keyword method

private theorem exprs_succ (h : Steps M w w' bound) {W : World} {scope : Scope} {es es' : List Expr}
    (has : W.Has scope) (hes : ExprsRel M (M.drop here) (W.around scope) es es') :
    Mirrored M W scope (fun W' => List.Forall₂ (ValueRel M W')) (evalExprs w (bound + 1) es)
      (evalExprs w' (bound + 1) es') := by
  unfold evalExprs
  cases hes with
  | nil => exact .pure .nil
  | cons he hes =>
    refine (h.expr has he).bind fun W₁ v v' later₁ hv => ?_
    refine (h.exprs (has.mono later₁) (has.around later₁ ▸ hes)).bind
      fun W₂ vs vs' later₂ hvs => ?_
    exact .pure (.cons (hv.mono later₂) hvs)

private theorem apply_succ (h : Steps M w w' bound) (config : w'.config = w.config) {W : World}
    {scope : Scope} {c c' : Callable} {args args' : List Value} (hc : CallableRel M W c c')
    (hargs : List.Forall₂ (ValueRel M W) args args') :
    Mirrored M W scope (ValueRel M) (applyCallable w (bound + 1) c args)
      (applyCallable w' (bound + 1) c' args') := by
  unfold applyCallable
  cases hc with
  | native f =>
    cases f
    rw [config]
    exact readClock _
  | function hf => exact h.invoke hf hargs
  | ofClass hk =>
    refine (newObject hk).bind fun W₁ o o' later₁ ho => ?_
    have found := (hk.mono later₁).method? initializerName
    rename_i k k'
    generalize k.method? initializerName = i, k'.method? initializerName = i' at found
    cases found with
    | none => exact .pure (.object ho)
    | some hi =>
      refine (bindTo hi ho).bind fun W₂ f f' later₂ hf => ?_
      have later := later₁.trans later₂
      refine (h.invoke hf (hargs.imp fun _ _ v => v.mono later)).bind
        fun W₃ _ _ later₃ _ => ?_
      exact .pure (.object ((ho.mono later₂).mono later₃))

private theorem invoke_succ (h : Steps M w w' bound) {W : World} {scope : Scope} {c c' : Closure}
    {args args' : List Value} (hc : ClosureRel M W [] c c')
    (hargs : List.Forall₂ (ValueRel M W) args args') :
    Mirrored M W scope (ValueRel M) (invokeClosure w (bound + 1) c args)
      (invokeClosure w' (bound + 1) c' args') := by
  unfold invokeClosure
  obtain ⟨decl, s, initializer⟩ := c
  obtain ⟨decl', s', initializer'⟩ := c'
  obtain ⟨rfl, hasInner, rfl, hdecl⟩ := hc
  obtain ⟨ρ, hρ, names, body⟩ := hdecl.parts
  dsimp only
  rw [names]
  refine (newScope hρ ((BindingsRel.empty ρ).bindAll hargs) hasInner).bind ?_
  rintro W₁ t _ later₁ ⟨_, rfl, made, around⟩
  have run := h.stmts made (around ▸ body)
  refine (inScope (catchReturn run) made).bind fun W₂ r r' later₂ hr => ?_
  split
  · refine store_bind fun m m' hm => .pure ?_
    have object := hm.getAt? s' 0 "this"
    rw [renamed_this] at object
    generalize m.getAt? s' 0 "this" = o, m'.getAt? s' 0 "this" = o' at object
    cases object with
    | none => exact .nil
    | some h => exact h
  · cases hr with
    | none => exact .pure .nil
    | some h => exact .pure h

private theorem option_succ (h : Steps M w w' bound) {W : World} {scope : Scope}
    {e e' : Option Expr}
    (has : W.Has scope) (he : Option.Rel (ExprRel M (M.drop here) (W.around scope)) e e') :
    Mirrored M W scope (ValueRel M) (evalOption w (bound + 1) e)
      (evalOption w' (bound + 1) e') := by
  unfold evalOption
  cases he with
  | none => exact .pure .nil
  | some he => exact h.expr has he

private theorem stmts_succ (h : Steps M w w' bound) {W : World} {scope : Scope} {ss ss' : List Stmt}
    (has : W.Has scope) (hss : StmtsRel M (M.drop here) (W.around scope) ss ss') :
    Mirrored M W scope (fun _ _ _ => True) (execStmts w (bound + 1) ss)
      (execStmts w' (bound + 1) ss') := by
  unfold execStmts
  cases hss with
  | nil => exact .pure trivial
  | cons hs hss =>
    exact (h.stmt has hs).bind fun W₁ _ _ later₁ _ =>
      h.stmts (has.mono later₁) (has.around later₁ ▸ hss)

private theorem loop_succ (h : Steps M w w' bound) {W : World} {scope : Scope} {c c' : Expr}
    {s s' : Stmt} (has : W.Has scope) (hc : ExprRel M (M.drop here) (W.around scope) c c')
    (hs : StmtRel M (M.drop here) (W.around scope) s s') :
    Mirrored M W scope (fun _ _ _ => True) (execLoop w (bound + 1) c s)
      (execLoop w' (bound + 1) c' s') := by
  unfold execLoop
  refine (h.expr has hc).bind fun W₁ v v' later₁ hv => ?_
  rw [hv.alike.truthy_eq]
  split
  · refine (h.stmt (has.mono later₁) (has.around later₁ ▸ hs)).bind fun W₂ _ _ later₂ _ => ?_
    have later := later₁.trans later₂
    exact h.loop (has.mono later) (has.around later ▸ hc) (has.around later ▸ hs)
  · exact .pure trivial

private theorem variableName?_line (agree : Agrees M w.distances w'.distances) {k : Nat}
    {Γ : List Renaming} {e e' : Expr} (he : ExprRel M k Γ e e') (name : Token) :
    (e'.variableName?.getD (name.later k)).line = (e.variableName?.getD name).line + k := by
  cases he with
  | reference hr =>
    have token := hr.name _ (agree hr.number).2
    simp only [Expr.variableName?, Option.getD_some, token, Token.rename, Token.later]
  | _ => rfl

private theorem stmt_succ (h : Steps M w w' bound) (config : w'.config = w.config)
    (agree : Agrees M w.distances w'.distances) {W : World} {scope : Scope} {s s' : Stmt}
    (has : W.Has scope) (hs : StmtRel M (M.drop here) (W.around scope) s s') :
    Mirrored M W scope (fun _ _ _ => True) (execStmt w (bound + 1) s)
      (execStmt w' (bound + 1) s') := by
  unfold execStmt
  cases hs with
  | expression he => exact (h.expr has he).bind fun W₁ v v' _ _ => .pure trivial
  | print he =>
    refine (h.expr has he).bind fun W₁ v v' _ hv => ?_
    rw [hv.text_eq, config]
    exact Mirrored.print _ _
  | var name he =>
    exact (h.option has he).bind fun W₁ v v' later₁ hv =>
      define (has.mono later₁) (congrArg (renamed · _ _) (has.around later₁).symm) hv
  | block ρ hρ body =>
    refine get_bind fun m m' hm hscope => ?_
    have scopes : m'.scope = scope := hm.scope.trans hscope
    rw [hscope, scopes]
    refine (newScope hρ (.empty ρ) has).bind ?_
    rintro W₁ t _ later₁ ⟨_, rfl, made, around⟩
    exact inScope (h.stmts made (around ▸ body)) made
  | branch hc hs other =>
    refine (h.expr has hc).bind fun W₁ v v' later₁ hv => ?_
    have has₁ := has.mono later₁
    have around₁ := has.around later₁
    rw [hv.alike.truthy_eq]
    split
    · exact h.stmt has₁ (around₁ ▸ hs)
    · cases other with
      | none => exact .pure trivial
      | some other => exact h.stmt has₁ (around₁ ▸ other)
  | loop hc hs => exact h.loop has hc hs
  | function kept hdecl =>
    refine get_bind fun m m' hm hscope => ?_
    have scopes : m'.scope = scope := hm.scope.trans hscope
    rw [hscope, scopes, hdecl.name_eq]
    exact define has kept.symm (.callable (.function ⟨rfl, has, rfl, hdecl.at_site⟩))
  | ret keyword he =>
    exact (h.option has he).bind fun W₁ v v' _ hv => .throw (.returned hv)
  | classDecl kept methods => exact declareClass has _ kept methods
  | subclass kept he methods =>
    refine (h.expr has he).bind fun W₁ v v' later₁ hv => ?_
    have has₁ := has.mono later₁
    have around₁ := has.around later₁
    cases hv with
    | callable hc =>
      cases hc with
      | ofClass hc => exact declareSubclass has₁ _ (around₁ ▸ kept) hc (around₁ ▸ methods)
      | _ => exact .fault (variableName?_line agree he _) (.refl _)
    | _ => exact .fault (variableName?_line agree he _) (.refl _)

/-- Mirrored trees are executed alike, whatever the bound. -/
theorem all (config : w'.config = w.config) (agree : Agrees M w.distances w'.distances)
    (bound : Nat) : Steps M w w' bound := by
  induction bound with
  | zero => exact zero
  | succ bound ih =>
    exact {
      expr := ih.expr_succ config agree
      exprs := ih.exprs_succ
      apply := ih.apply_succ config
      invoke := ih.invoke_succ
      stmt := ih.stmt_succ config agree
      option := ih.option_succ
      stmts := ih.stmts_succ
      loop := ih.loop_succ }

end Steps

end LoxLang
