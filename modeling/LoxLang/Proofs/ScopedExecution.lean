import LoxLang.Proofs.OperatorResults
import LoxLang.Proofs.ScopedRuns
import LoxLang.Proofs.TracedExecution
import LoxLang.Proofs.WalkNumbers

/-!
Accepted trees keep to the static scopes when they are executed.  An expression is evaluated in a
scope that stands for the static scopes around it, and a statement leaves a scope that stands for
the static scopes behind it.
-/

set_option autoImplicit false
set_option relaxedAutoImplicit false

namespace LoxLang

open Std (TreeMap)

section

variable {A : Expr → StaticStack → Prop} {D : Distances} {V : Known} {scope : Scope}

private theorem Accepted.method {enclosing : ClassContext} {Γ : StaticStack}
    {methods : List FunctionDecl}
    (h : Accepted A none (Walk.functions enclosing Γ methods)) {decl : FunctionDecl}
    (member : decl ∈ methods) :
    ∃ context, Accepted A none (Walk.function enclosing context (Γ.receiving decl) decl) := by
  induction methods with
  | nil => cases member
  | cons first methods ih =>
    obtain ⟨site, name, params, body⟩ := first
    rcases List.mem_cons.mp member with rfl | member
    · exact ⟨_, h.left⟩
    · exact ih h.right member

private theorem FunctionDecl.WellFormedAll.mem {decls : List FunctionDecl}
    (h : FunctionDecl.WellFormedAll decls) {decl : FunctionDecl} (member : decl ∈ decls) :
    decl.WellFormed := by
  induction decls with
  | nil => cases member
  | cons first decls ih =>
    rcases List.mem_cons.mp member with rfl | member
    · exact h.1
    · exact ih h.2 member

/-- The methods of an accepted class close over the scope that stands for the static ones around
them. -/
theorem closures_scoped {Γ : StaticStack} {t : Scope} (stands : Stands V none Γ t)
    {methods : List FunctionDecl} (wellFormed : FunctionDecl.WellFormedAll methods)
    {enclosing : ClassContext} (accepted : Accepted A none (Walk.functions enclosing Γ methods)) :
    ∀ c ∈ methods.map fun decl => Closure.mk decl t (decl.name.lexeme = initializerName),
      c.ScopedMethod A V := by
  intro c hc
  obtain ⟨decl, member, rfl⟩ := List.mem_map.mp hc
  obtain ⟨context, accepted⟩ := accepted.method member
  exact ⟨Γ, enclosing, context, stands, wellFormed.mem member, accepted⟩

/-- A class is scoped if its own methods and its superclass are. -/
theorem Class.Scoped.below {own : ClassBody} (methods : ∀ c ∈ own.methods, c.ScopedMethod A V)
    {superclass : Option Class} (hsuper : ∀ k ∈ superclass, k.Scoped A V) :
    (Class.below own superclass).Scoped A V := by
  intro b hb c hc
  cases superclass with
  | none =>
    obtain rfl := List.mem_singleton.mp hb
    exact methods c hc
  | some k =>
    rcases List.mem_cons.mp hb with rfl | hb
    · exact methods c hc
    · exact hsuper k rfl b hb c hc

theorem Walk.met_of_read {enclosing : ClassContext} {Γ : StaticStack} {e : Expr}
    {r : ExprId × Token} (read : e.read? = some r)
    (correct : ∀ fault, .fault fault ∉ Walk.expr enclosing Γ e) :
    .met e Γ ∈ Walk.expr enclosing Γ e := by
  cases e with
  | «variable» id name => simp [Walk.expr]
  | super id keyword method => simp [Walk.expr]
  | this id keyword =>
    cases enclosing with
    | outside => exact absurd List.mem_cons_self (correct _)
    | plain => exact List.mem_cons_self
    | derived => exact List.mem_cons_self
  | _ => cases read

private theorem Accepted.met {missing : Option String} {enclosing : ClassContext} {Γ : StaticStack}
    {e : Expr} (h : Accepted A missing (Walk.expr enclosing Γ e)) {r : ExprId × Token}
    (read : e.read? = some r) : A e Γ ∧ some r.2.lexeme ≠ missing := by
  have met := h _ (Walk.met_of_read read fun _ => h.not_fault)
  exact ⟨met.1, met.2 r read⟩

private theorem Stands.evaluated (foreseen : Foreseen A D) {missing : Option String}
    {Γ : StaticStack} (h : Stands V missing Γ scope) {enclosing : ClassContext} {e : Expr}
    (accepted : Accepted A missing (Walk.expr enclosing Γ e)) {m : Machine}
    (stored : m.store.Scoped A V) (hscope : m.scope = scope) :
    (Event.evaluated D e m).Scoped A D V := by
  refine ⟨rfl, fun id name d read found => ?_⟩
  obtain ⟨met, other⟩ := accepted.met read
  have distance : Γ.distance? name.lexeme = some d :=
    (foreseen e Γ met id name (Expr.reference?_of_read? read)).symm.trans found
  obtain ⟨σ, t, around, member, out, held, opened⟩ := h.ancestor? distance other
  exact ⟨Γ, σ, t, met, distance, around, member, hscope ▸ out, (stored.holds _ _).mp held, opened⟩

private theorem Stands.situated (foreseen : Foreseen A D) {missing : Option String}
    {Γ : StaticStack} (h : Stands V missing Γ scope) {enclosing : ClassContext} {e : Expr}
    (accepted : Accepted A missing (Walk.expr enclosing Γ e)) {m : Machine}
    (stored : m.store.Scoped A V) (hscope : m.scope = scope) :
    (Event.evaluated D e m).Situated A V := by
  intro id name read
  obtain ⟨met, _⟩ := accepted.met read
  subst hscope
  refine ⟨missing, Γ, met, foreseen e Γ met id name (Expr.reference?_of_read? read), ?_⟩
  exact h.mono ⟨fun _ _ opened => opened, fun f x held => (stored.holds f x).mp held⟩

private theorem Awaiting.assigns (foreseen : Foreseen A D) {missing : Option String}
    {Γ : StaticStack} (h : Awaiting V missing Γ scope) {id : ExprId} {name : Token} {value : Expr}
    (met : A (.assign id name value) Γ) {v : Value} {m : Machine}
    (stored : m.store.Scoped A V) (hscope : m.scope = scope) :
    (Event.assigns D (.assign id name value) v m).Scoped A D V := by
  refine ⟨rfl, id, name, value, rfl, fun d found => ?_⟩
  have distance : Γ.distance? name.lexeme = some d :=
    (foreseen _ Γ met id name rfl).symm.trans found
  obtain ⟨σ, t, around, member, out, opened, held⟩ := h.ancestor? distance
  exact ⟨Γ, σ, t, met, distance, around, member, hscope ▸ out, opened,
    (stored.holds _ _).symm.trans held⟩

private theorem Declaring.declares {Γ : StaticStack} {s : Stmt} {name : Token}
    (h : Declaring V Γ scope s name) {v : Value} {m : Machine} (stored : m.store.Scoped A V)
    (hscope : m.scope = scope) : (Event.declares s v m).Scoped A D V := by
  refine ⟨name, h.names, ?_⟩
  subst hscope
  rcases h.stands.opened with globals | ⟨o, innermost, opened⟩
  · exact .inl globals
  · have inside : Γ ≠ [] := by
      rintro rfl
      cases innermost
    exact .inr ⟨o, opened, h.owned o innermost,
      fun held => h.absent inside ((stored.holds _ _).mpr held)⟩

private theorem Accepted.new {Γ : StaticStack} {name : Token} {notes : List Note}
    (h : Accepted A none (Walk.declared Γ name ++ notes)) : ¬Γ.has name.lexeme := by
  intro has
  refine h.left.not_fault (e := ⟨name, .redeclared⟩) ?_
  simp [Walk.declared, has]

private theorem Settled.declares {Γ : StaticStack} (h : Settled V Γ scope) {s : Stmt} {name : Token}
    (names : s.declares? = some name) (owned : Γ.Owns s) {notes : List Note}
    (accepted : Accepted A none (Walk.declared Γ name ++ notes)) :
    Declaring V Γ scope s name :=
  ⟨h.stands, names, owned, fun inside => h.absent inside accepted.new⟩

/-! What is accepted does not read a name before it is there. -/

private theorem Accepted.met_other {missing : Option String} {e : Expr} {Γ : StaticStack}
    (h : Accepted A none [.met e Γ]) (other : ∀ r ∈ e.read?, some r.2.lexeme ≠ missing) :
    Accepted A missing [.met e Γ] := by
  intro n hn
  obtain rfl := List.mem_singleton.mp hn
  exact ⟨(h _ List.mem_cons_self).1, other⟩

private theorem Accepted.of_faults {notes : List Note} (h : Accepted A none notes)
    (faults : ∀ n ∈ notes, ∃ e, n = .fault e) (missing : Option String) :
    Accepted A missing notes := by
  intro n hn
  obtain ⟨e, rfl⟩ := faults n hn
  exact absurd hn h.not_fault

private theorem Accepted.variable_other {enclosing : ClassContext} {Γ : StaticStack} {id : ExprId}
    {name : Token} (h : Accepted A none (Walk.expr enclosing Γ (.variable id name)))
    {missing : Option String} (other : some name.lexeme ≠ missing) :
    Accepted A missing (Walk.expr enclosing Γ (.variable id name)) := by
  refine .append (h.left.of_faults (Walk.read_faults Γ name) _) (h.right.met_other ?_)
  intro r hr
  obtain rfl := Option.mem_some_iff.mp hr
  exact other

mutual

private theorem Accepted.avoiding {enclosing : ClassContext} {σ : StaticFrame} {Γ : StaticStack}
    {name : Token} (isName : name.IsName) (incomplete : σ.names[name.lexeme]? = some false) :
    ∀ e : Expr, e.WellFormed → Accepted A none (Walk.expr enclosing (σ :: Γ) e) →
      Accepted A (some name.lexeme) (Walk.expr enclosing (σ :: Γ) e)
  | .literal _, _, h => fun n hn => absurd hn List.not_mem_nil
  | .grouping inner, wellFormed, h | .unary _ inner, wellFormed, h | .get inner _, wellFormed, h =>
    Accepted.avoiding isName incomplete inner wellFormed h
  | .binary _ left right, wellFormed, h | .logical _ left right, wellFormed, h =>
    .append (Accepted.avoiding isName incomplete left wellFormed.1 h.left)
      (Accepted.avoiding isName incomplete right wellFormed.2 h.right)
  | .variable id other, _, h => by
    refine h.variable_other fun same => ?_
    have spelled : other.lexeme = name.lexeme := Option.some.inj same
    refine h.left.not_fault (e := ⟨other, .readInInitializer⟩) ?_
    simp [Walk.read, spelled, incomplete]
  | .assign id other value, wellFormed, h =>
    .append (Accepted.avoiding isName incomplete value wellFormed.2 h.left)
      (h.right.met_other (by simp [Expr.read?]))
  | .call callee _ args, wellFormed, h =>
    .append (Accepted.avoiding isName incomplete callee wellFormed.1 h.left)
      (Accepted.avoidingAll isName incomplete args wellFormed.2 h.right)
  | .set object _ value, wellFormed, h =>
    .append (Accepted.avoiding isName incomplete value wellFormed.2 h.left)
      (Accepted.avoiding isName incomplete object wellFormed.1 h.right)
  | .this id keyword, wellFormed, h => by
    have spelled : keyword.lexeme = "this" := wellFormed
    have other : ∀ r ∈ (Expr.this id keyword).read?, some r.2.lexeme ≠ some name.lexeme := by
      intro r hr
      obtain rfl := Option.mem_some_iff.mp hr
      simpa [spelled] using isName.ne_this.symm
    cases enclosing with
    | outside => exact absurd List.mem_cons_self h.not_fault
    | plain => exact h.met_other other
    | derived => exact h.met_other other
  | .super id keyword method, wellFormed, h => by
    have spelled : keyword.lexeme = "super" := wellFormed
    refine .append (h.left.of_faults ?_ _) (h.right.met_other fun r hr => ?_)
    · cases enclosing <;> simp
    · obtain rfl := Option.mem_some_iff.mp hr
      simpa [spelled] using isName.ne_super.symm

private theorem Accepted.avoidingAll {enclosing : ClassContext} {σ : StaticFrame} {Γ : StaticStack}
    {name : Token} (isName : name.IsName) (incomplete : σ.names[name.lexeme]? = some false) :
    ∀ es : List Expr, Expr.WellFormedAll es → Accepted A none (Walk.exprs enclosing (σ :: Γ) es) →
      Accepted A (some name.lexeme) (Walk.exprs enclosing (σ :: Γ) es)
  | [], _, _ => fun _ hn => absurd hn List.not_mem_nil
  | e :: es, wellFormed, h =>
    .append (Accepted.avoiding isName incomplete e wellFormed.1 h.left)
      (Accepted.avoidingAll isName incomplete es wellFormed.2 h.right)

end

mutual

theorem Walk.after_eq (Γ : StaticStack) : ∀ s : Stmt, s.WellFormed → s.declaresNothing →
    Walk.after Γ s = Γ
  | .branch _ thenBranch elseBranch, wellFormed, _ => by
    rw [Walk.after, Walk.after_eq Γ thenBranch wellFormed.2.1.1 wellFormed.2.1.2]
    exact Walk.after?_eq Γ elseBranch wellFormed.2.2
  | .loop _ body, wellFormed, _ => Walk.after_eq Γ body wellFormed.2.1 wellFormed.2.2
  | .expression _, _, _ | .print _, _, _ | .block _, _, _ | .ret _ _, _, _ => rfl
  | .var _ _, _, nothing | .function _, _, nothing | .classDecl _ _ _, _, nothing => by cases nothing

private theorem Walk.after?_eq (Γ : StaticStack) : ∀ s : Option Stmt, Stmt.WellFormedOption s →
    Walk.after? Γ s = Γ
  | none, _ => rfl
  | some s, wellFormed => Walk.after_eq Γ s wellFormed.1 wellFormed.2

end

private theorem contains_bindAll {names : List String} {args : List Value} {b : Bindings}
    {name : String} (same : args.length = names.length) (member : name ∈ names ∨ b.contains name) :
    ((names.zip args).foldl (fun b (name, v) => b.insert name v) b).contains name := by
  induction names generalizing args b with
  | nil => simpa using member
  | cons first names ih =>
    cases args with
    | nil => cases same
    | cons v args =>
      refine ih (Nat.succ.inj same) ?_
      simp only [TreeMap.contains_insert, Bool.or_eq_true, beq_iff_eq, Std.compare_eq_iff_eq]
      rcases member with member | member
      · rcases List.mem_cons.mp member with rfl | member
        · exact .inr (.inl rfl)
        · exact .inl member
      · exact .inr (.inr member)

private theorem mem_of_bindAll {names : List String} {args : List Value} {b : Bindings}
    {name : String}
    (held : ((names.zip args).foldl (fun b (name, v) => b.insert name v) b).contains name) :
    name ∈ names ∨ b.contains name := by
  induction names generalizing args b with
  | nil => exact .inr (by simpa using held)
  | cons first names ih =>
    cases args with
    | nil => exact .inr (by simpa using held)
    | cons v args =>
      rcases ih held with member | member
      · exact .inl (List.mem_cons_of_mem _ member)
      · simp only [TreeMap.contains_insert, Bool.or_eq_true, beq_iff_eq,
          Std.compare_eq_iff_eq] at member
        exact member.imp_left fun same => List.mem_cons.mpr (.inl same.symm)

private theorem bindAll_scoped {names : List String} {args : List Value} {b : Bindings}
    (hargs : ∀ v ∈ args, v.Scoped A V) (hb : ∀ (name : String) v, b[name]? = some v → v.Scoped A V)
    {name : String} {v : Value}
    (found : ((names.zip args).foldl (fun b (name, v) => b.insert name v) b)[name]? = some v) :
    v.Scoped A V := by
  induction names generalizing args b with
  | nil => exact hb name v (by simpa using found)
  | cons first names ih =>
    cases args with
    | nil => exact hb name v (by simpa using found)
    | cons u args =>
      refine ih (fun v hv => hargs v (List.mem_cons_of_mem _ hv)) (fun key w held => ?_) found
      rw [TreeMap.getElem?_insert] at held
      split at held
      · exact Option.some.inj held ▸ hargs u List.mem_cons_self
      · exact hb key w held

namespace ScopedRun

open EvalM Event

private theorem defineClass {Γ Γ' : StaticStack} {t : Scope} {s : Stmt} {name : Token}
    (declaring : Declaring V Γ scope s name)
    (stands : ∀ V', V ≤ V' → V'.holds scope.frame name.lexeme → Stands V' none Γ' t)
    {superclass : Option Class} (hsuper : ∀ k ∈ superclass, k.Scoped A V)
    {methods : List FunctionDecl} (wellFormed : FunctionDecl.WellFormedAll methods)
    {enclosing : ClassContext} (accepted : Accepted A none (Walk.functions enclosing Γ' methods)) :
    ScopedRun A D V scope (fun V' _ => V'.holds scope.frame name.lexeme)
      (do
        let id ← onStore (·.newClass)
        let closures := methods.map fun decl =>
          Closure.mk decl t (decl.name.lexeme = initializerName)
        EvalM.define name.lexeme
          (.callable (.ofClass (.below ⟨id, name.lexeme, closures⟩ superclass))))
      (ofClassIn s name superclass methods t) := by
  have fresh : ScopedRun A D V scope (fun V' _ => V' = V) (onStore (·.newClass)) fun _ => [] :=
    fun _ stored hscope => .refl rfl stored.newClass hscope
  refine fresh.silent_bind fun V₁ id le same => ?_
  subst same
  refine define (fun m stored => declaring.stands.made stored)
    (fun m stored hscope => declaring.declares stored hscope) fun V₂ le₂ held => ?_
  exact Class.Scoped.below (closures_scoped (stands V₂ le₂ held) wellFormed accepted)
    fun k member => (hsuper k member).mono le₂

private theorem declareClass {Γ : StaticStack} {s : Stmt} {name : Token}
    (declaring : Declaring V Γ scope s name) {methods : List FunctionDecl}
    (wellFormed : FunctionDecl.WellFormedAll methods) {enclosing : ClassContext}
    (accepted : Accepted A none (Walk.functions enclosing (Γ.introduce name) methods)) :
    ScopedRun A D V scope (fun V' _ => Stands V' none (Γ.introduce name) scope)
      (EvalM.declareClass name none methods) (ofClass s name none methods) := by
  have present := declaring.stands
  refine mono (P := fun V' _ => V'.holds scope.frame name.lexeme) ?_
    fun V' _ le held => (present.mono le).introduce held
  refine get_bind fun m stored hscope => ?_
  rw [ofClass, hscope]
  exact defineClass declaring (fun V' le held => (present.mono le).introduce held) (by simp)
    wellFormed accepted m stored hscope

private theorem declareSubclass {Γ : StaticStack} {s : Stmt} {name : Token}
    (declaring : Declaring V Γ scope s name) {k : Class} (hk : k.Scoped A V)
    {methods : List FunctionDecl} (wellFormed : FunctionDecl.WellFormedAll methods)
    {enclosing : ClassContext} (accepted : Accepted A none
      (Walk.functions enclosing ((Γ.introduce name).inheriting name methods) methods)) :
    ScopedRun A D V scope (fun V' _ => Stands V' none (Γ.introduce name) scope)
      (EvalM.declareClass name (some k) methods) (ofClass s name (some k) methods) := by
  have present := declaring.stands
  refine mono (P := fun V' _ => V'.holds scope.frame name.lexeme) ?_
    fun V' _ le held => (present.mono le).introduce held
  refine get_bind fun m stored hscope => ?_
  subst hscope
  refine opening_keeping (.superclass name methods) (ofClassIn s name (some k) methods)
    (fun key member => List.mem_singleton.mpr (contains_insert_empty.mp member))
    (fun key v => insert_empty_scoped (u := .callable (.ofClass k)) hk)
    (fun m stored => present.made stored) (fun V' f le keeps entered held => ?_) m stored rfl
  refine defineClass (declaring.step le keeps) (fun V'' le' held' => ?_)
    (fun k' same => Option.mem_some_iff.mp same ▸ hk.mono le) wellFormed accepted
  have outer := (present.mono (Known.le_trans le le')).introduce held'
  refine .inside (le'.1 _ _ entered) (fun key member _ => le'.2 _ _ ((held key).mpr ?_)) outer
  simpa [TreeMap.contains_insert] using member

end ScopedRun

theorem Value.IsConstant.isScoped {v : Value} (h : v.IsConstant) : v.Scoped A V := by
  cases v with
  | callable c => cases h
  | object o => cases h
  | _ => trivial

structure ScopedSteps (A : Expr → StaticStack → Prop) (w : Surroundings) (bound : Nat) : Prop where
  expr : ∀ {V scope missing Γ enclosing e}, Awaiting V missing Γ scope →
    Accepted A missing (Walk.expr enclosing Γ e) →
    ScopedRun A w.distances V scope (fun V' v => v.Scoped A V' ∧ V.Keeps scope.frame [] V')
      (evalExpr w bound e) (Event.ofExpr w bound e)
  /-- A variable does not assign anything, and the missing name may be any. -/
  named : ∀ {V scope missing Γ enclosing id name}, Stands V missing Γ scope →
    Accepted A missing (Walk.expr enclosing Γ (.variable id name)) →
    ScopedRun A w.distances V scope (fun V' v => v.Scoped A V' ∧ V.Keeps scope.frame [] V')
      (evalExpr w bound (.variable id name)) (Event.ofExpr w bound (.variable id name))
  exprs : ∀ {V scope missing Γ enclosing es}, Awaiting V missing Γ scope →
    Accepted A missing (Walk.exprs enclosing Γ es) →
    ScopedRun A w.distances V scope (fun V' vs => vs.length = es.length ∧ ∀ v ∈ vs, v.Scoped A V')
      (evalExprs w bound es) (Event.ofExprs w bound es)
  apply : ∀ {V scope c args}, (Value.callable c).Scoped A V → (∀ v ∈ args, v.Scoped A V) →
    args.length = c.arity →
    ScopedRun A w.distances V scope (Value.Scoped A) (applyCallable w bound c args)
      (Event.ofApply w bound c args)
  invoke : ∀ {V scope c args}, c.Scoped A V → (∀ v ∈ args, v.Scoped A V) → args.length = c.arity →
    ScopedRun A w.distances V scope (Value.Scoped A) (invokeClosure w bound c args)
      (Event.ofInvoke w bound c args)
  stmt : ∀ {V scope Γ context s}, Settled V Γ scope → s.WellFormed →
    (s.declaresNothing = false → Γ.Owns s) → Accepted A none (Walk.stmt context Γ s) →
    ScopedRun A w.distances V scope (fun V' _ => Settled V' (Walk.after Γ s) scope)
      (execStmt w bound s) (Event.ofStmt w bound s)
  option : ∀ {V scope missing Γ enclosing e}, Awaiting V missing Γ scope →
    Accepted A missing (Walk.expr? enclosing Γ e) →
    ScopedRun A w.distances V scope (fun V' v => v.Scoped A V' ∧ V.Keeps scope.frame [] V')
      (evalOption w bound e) (Event.ofOption w bound e)
  stmts : ∀ {V scope Γ context ss}, Settled V Γ scope → Stmt.WellFormedAll ss →
    (∀ s ∈ ss, Γ.Owns s) → Accepted A none (Walk.stmts context Γ ss) →
    ScopedRun A w.distances V scope (fun _ _ => True) (execStmts w bound ss)
      (Event.ofStmts w bound ss)
  loop : ∀ {V scope Γ context c s}, Settled V Γ scope → s.WellFormed → s.declaresNothing →
    Accepted A none (Walk.expr context.enclosing Γ c) → Accepted A none (Walk.stmt context Γ s) →
    ScopedRun A w.distances V scope (fun _ _ => True) (execLoop w bound c s)
      (Event.ofLoop w bound c s)

namespace ScopedSteps

open EvalM Event ScopedRun

variable {w : Surroundings} {bound : Nat}

private theorem zero : ScopedSteps A w 0 := by
  constructor
  all_goals
    intros
    exact failure _

private theorem value (h : ScopedSteps A w bound) {missing : Option String} {Γ : StaticStack}
    {enclosing : ClassContext} {e : Expr} (awaiting : Awaiting V missing Γ scope)
    (accepted : Accepted A missing (Walk.expr enclosing Γ e)) :
    ScopedRun A w.distances V scope (Value.Scoped A) (evalExpr w bound e)
      (Event.ofExpr w bound e) :=
  (h.expr awaiting accepted).mono fun _ _ _ hv => hv.1

private theorem expr_succ (h : ScopedSteps A w bound) (foreseen : Foreseen A w.distances)
    {missing : Option String} {Γ : StaticStack} {enclosing : ClassContext} {e : Expr}
    (awaiting : Awaiting V missing Γ scope)
    (accepted : Accepted A missing (Walk.expr enclosing Γ e)) :
    ScopedRun A w.distances V scope (Value.Scoped A) (evalExpr w (bound + 1) e)
      (Event.ofExpr w (bound + 1) e) := by
  unfold evalExpr Event.ofExpr
  refine evaluated
    (fun m stored hscope => ⟨awaiting.stands.evaluated foreseen accepted stored hscope,
      awaiting.stands.situated foreseen accepted stored hscope⟩) ?_
  cases e with
  | literal l => cases l <;> exact .pure trivial
  | grouping inner => exact h.value awaiting accepted
  | unary operator operand =>
    have inner : Accepted A missing (Walk.expr enclosing Γ operand) := accepted
    exact (h.expr awaiting inner).bind_silent
      fun V' v _ _ => ofResult fun u same => (applyUnary_constant same).isScoped
  | binary operator left right =>
    refine (h.expr awaiting accepted.left).bind fun V₁ a le₁ ha => ?_
    exact (h.expr (awaiting.step le₁ ha.2) accepted.right).bind_silent
      fun V₂ b le₂ _ => ofResult fun u same => (applyBinary_constant same).isScoped
  | logical operator left right =>
    refine (h.expr awaiting accepted.left).bind fun V₁ a le₁ ha => ?_
    generalize (if operator.kind = .orWord then a.truthy else !a.truthy) = decided
    cases decided with
    | true => exact .pure ha.1
    | false => exact h.value (awaiting.step le₁ ha.2) accepted.right
  | «variable» id name => exact lookUp id name
  | assign id name value =>
    refine (h.expr awaiting accepted.left).bind fun V₁ v le₁ hv => ?_
    have met : A (.assign id name value) Γ := (accepted.right _ List.mem_cons_self).1
    have assigned := assign (D := w.distances) id name value hv.1
      fun m stored hscope => (awaiting.step le₁ hv.2).assigns foreseen met stored hscope
    exact assigned.bind_silent fun V₂ _ le₂ _ => .pure (hv.1.mono le₂)
  | call callee paren args =>
    refine (h.expr awaiting accepted.left).bind fun V₁ f le₁ hf => ?_
    refine (h.exprs (awaiting.step le₁ hf.2) accepted.right).bind fun V₂ args le₂ hargs => ?_
    refine (expectCallable _ (hf.1.mono le₂) _ paren).silent_bind fun V₃ c le₃ hc => ?_
    exact asCall paren (h.apply hc.1 (fun v hv => (hargs.2 v hv).mono le₃) hc.2)
  | get object name =>
    have inner : Accepted A missing (Walk.expr enclosing Γ object) := accepted
    exact (h.expr awaiting inner).bind fun V₁ v _ hv => getProperty hv.1 name
  | set object name value =>
    refine (h.expr awaiting accepted.right).bind fun V₁ v le₁ hv => ?_
    refine ((expectObject hv.1 name).keeping [] (TracedRun.expectObject v name)
      fun m stored => (awaiting.stands.mono le₁).made stored).silent_bind fun V₂ o le₂ ho => ?_
    have later := (awaiting.step le₁ hv.2).step le₂ ho.2
    refine (h.expr later accepted.left).bind fun V₃ u le₃ hu => ?_
    exact (setField o name hu.1).bind_silent fun V₄ _ le₄ _ => .pure (hu.1.mono le₄)
  | this id keyword => exact lookUp id keyword
  | super id keyword method => exact superMethod id keyword method

private theorem named_succ (foreseen : Foreseen A w.distances) {missing : Option String}
    {Γ : StaticStack} {enclosing : ClassContext} {id : ExprId} {name : Token}
    (stands : Stands V missing Γ scope)
    (accepted : Accepted A missing (Walk.expr enclosing Γ (.variable id name))) :
    ScopedRun A w.distances V scope (Value.Scoped A) (evalExpr w (bound + 1) (.variable id name))
      (Event.ofExpr w (bound + 1) (.variable id name)) := by
  unfold evalExpr Event.ofExpr
  exact evaluated (fun m stored hscope => ⟨stands.evaluated foreseen accepted stored hscope,
    stands.situated foreseen accepted stored hscope⟩)
    (lookUp id name)

private theorem exprs_succ (h : ScopedSteps A w bound) {missing : Option String} {Γ : StaticStack}
    {enclosing : ClassContext} {es : List Expr} (awaiting : Awaiting V missing Γ scope)
    (accepted : Accepted A missing (Walk.exprs enclosing Γ es)) :
    ScopedRun A w.distances V scope (fun V' vs => vs.length = es.length ∧ ∀ v ∈ vs, v.Scoped A V')
      (evalExprs w (bound + 1) es) (Event.ofExprs w (bound + 1) es) := by
  unfold evalExprs Event.ofExprs
  cases es with
  | nil => exact .pure ⟨rfl, by simp⟩
  | cons e es =>
    refine (h.expr awaiting accepted.left).bind fun V₁ v le₁ hv => ?_
    refine (h.exprs (awaiting.step le₁ hv.2) accepted.right).bind_silent
      fun V₂ vs le₂ hvs => .pure ?_
    refine ⟨congrArg Nat.succ hvs.1, fun u hu => ?_⟩
    rcases List.mem_cons.mp hu with rfl | hu
    · exact hv.1.mono le₂
    · exact hvs.2 u hu

private theorem apply_succ (h : ScopedSteps A w bound) {c : Callable} {args : List Value}
    (hc : (Value.callable c).Scoped A V) (hargs : ∀ v ∈ args, v.Scoped A V)
    (arity : args.length = c.arity) :
    ScopedRun A w.distances V scope (Value.Scoped A) (applyCallable w (bound + 1) c args)
      (Event.ofApply w (bound + 1) c args) := by
  unfold applyCallable Event.ofApply
  cases c with
  | native f =>
    cases f
    exact readClock _
  | function c => exact h.invoke hc hargs arity
  | ofClass k =>
    refine (newObject hc).silent_bind fun V₁ o le₁ ho => ?_
    cases found : k.method? initializerName with
    | none => exact .pure ho
    | some initializer =>
      have count : args.length = initializer.arity := by
        rw [arity, Callable.arity, Class.arity, found]
      have hi := (Class.Scoped.method? hc found).mono le₁
      refine (bindTo hi ho).bind fun V₂ f le₂ hf => ?_
      have later := Known.le_trans le₁ le₂
      have arity' : args.length = f.arity := by rw [count, Closure.arity, Closure.arity, hf.2]
      exact (h.invoke hf.1 (fun v hv => (hargs v hv).mono later) arity').bind_silent
        fun V₃ _ le₃ _ => .pure (Class.Scoped.mono ho (Known.le_trans le₂ le₃))

private theorem invoke_succ (h : ScopedSteps A w bound) {c : Closure} {args : List Value}
    (hc : c.Scoped A V) (hargs : ∀ v ∈ args, v.Scoped A V) (arity : args.length = c.arity) :
    ScopedRun A w.distances V scope (Value.Scoped A) (invokeClosure w (bound + 1) c args)
      (Event.ofInvoke w (bound + 1) c args) := by
  unfold invokeClosure Event.ofInvoke
  obtain ⟨decl, s, initializer⟩ := c
  obtain ⟨site, name, params, body⟩ := decl
  obtain ⟨Γ, enclosing, context, stands, wellFormed, accepted⟩ := hc
  have count : args.length = (params.map Token.lexeme).length := by
    rw [List.length_map]
    exact arity
  have params_only : ∀ key : String, (((params.map Token.lexeme).zip args).foldl
      (fun b (name, v) => b.insert name v) (∅ : Bindings)).contains key ↔
        key ∈ params.map Token.lexeme := by
    refine fun key => ⟨fun held => ?_, fun member => contains_bindAll count (.inl member)⟩
    exact (mem_of_bindAll held).resolve_right (by simp)
  refine opening (.call (.mk site name params body))
    (fun t m => Event.ofStmts w bound body { m with scope := t })
    (fun key held => (params_only key).mp held)
    (fun key v found => bindAll_scoped hargs (b := ∅) (by simp) found) fun V₁ f le₁ opened held => ?_
  have fresh : Stands V₁ none (⟨.call (.mk site name params body), ∅⟩ :: Γ) ⟨f, s.frames⟩ :=
    .inside opened (by simp) (stands.mono le₁)
  have declared := StaticStack.has_introduceAll
    (Γ := ⟨.call (.mk site name params body), ∅⟩ :: Γ) (by simp) params
  have around : Settled V₁ (Γ.calling (.mk site name params body)) ⟨f, s.frames⟩ := {
    stands := fresh.introduceAll fun p hp =>
      (held p.lexeme).mpr ((params_only _).mpr (List.mem_map_of_mem hp))
    complete := (StaticStack.complete_cons_empty _ Γ).introduceAll params
    exact := fun _ key present =>
      (declared.2 key).mpr (.inl ((params_only key).mp ((held key).mp present))) }
  have owned : ∀ s ∈ body, (Γ.calling (.mk site name params body)).Owns s := by
    intro s member o innermost
    rw [StaticStack.calling, StaticStack.origin?_introduceAll] at innermost
    obtain rfl := Option.mem_some_iff.mp innermost
    exact member
  have run := h.stmts around wellFormed.2.2 owned accepted.right
  refine (inScope (catchReturn run)).bind_silent fun V₂ r le₂ hr => ?_
  split
  · refine fun m stored hscope => ?_
    simp only [outcome_bind, outcome_store, outcome_pure]
    refine .refl ?_ stored hscope
    cases found : m.store.getAt? s 0 "this" with
    | none => trivial
    | some v => exact stored.getAt? found
  · cases r with
    | none => exact .pure trivial
    | some v => exact .pure (hr v rfl)

private theorem option_succ (h : ScopedSteps A w bound) {missing : Option String} {Γ : StaticStack}
    {enclosing : ClassContext} {e : Option Expr} (awaiting : Awaiting V missing Γ scope)
    (accepted : Accepted A missing (Walk.expr? enclosing Γ e)) :
    ScopedRun A w.distances V scope (Value.Scoped A) (evalOption w (bound + 1) e)
      (Event.ofOption w (bound + 1) e) := by
  unfold evalOption Event.ofOption
  cases e with
  | none => exact .pure trivial
  | some e => exact h.value awaiting accepted

private theorem stmts_succ (h : ScopedSteps A w bound) {Γ : StaticStack} {context : BindingContext}
    {ss : List Stmt} (settled : Settled V Γ scope) (wellFormed : Stmt.WellFormedAll ss)
    (owned : ∀ s ∈ ss, Γ.Owns s) (accepted : Accepted A none (Walk.stmts context Γ ss)) :
    ScopedRun A w.distances V scope (fun _ _ => True) (execStmts w (bound + 1) ss)
      (Event.ofStmts w (bound + 1) ss) := by
  unfold execStmts Event.ofStmts
  cases ss with
  | nil => exact .pure trivial
  | cons s ss =>
    have first := owned s List.mem_cons_self
    refine (h.stmt settled wellFormed.1 (fun _ => first) accepted.left).bind fun V₁ _ _ behind => ?_
    refine h.stmts behind wellFormed.2 (fun s' member o innermost => ?_) accepted.right
    rw [Walk.origin?_after] at innermost
    exact owned s' (List.mem_cons_of_mem _ member) o innermost

private theorem loop_succ (h : ScopedSteps A w bound) {Γ : StaticStack} {context : BindingContext}
    {c : Expr} {s : Stmt} (settled : Settled V Γ scope) (wellFormed : s.WellFormed)
    (nothing : s.declaresNothing) (condition : Accepted A none (Walk.expr context.enclosing Γ c))
    (accepted : Accepted A none (Walk.stmt context Γ s)) :
    ScopedRun A w.distances V scope (fun _ _ => True) (execLoop w (bound + 1) c s)
      (Event.ofLoop w (bound + 1) c s) := by
  unfold execLoop Event.ofLoop
  refine (h.expr settled.awaiting condition).bind fun V₁ v le₁ hv => ?_
  cases v.truthy with
  | false => exact .pure trivial
  | true =>
    have again := settled.step le₁ hv.2
    refine (h.stmt again wellFormed (by simp [nothing]) accepted).bind fun V₂ _ le₂ behind => ?_
    rw [Walk.after_eq Γ s wellFormed nothing] at behind
    exact h.loop behind wellFormed nothing condition accepted

private theorem var_succ (h : ScopedSteps A w bound) {Γ : StaticStack} {context : BindingContext}
    {name : Token} {initializer : Option Expr} (settled : Settled V Γ scope)
    (wellFormed : (Stmt.var name initializer).WellFormed)
    (owned : Γ.Owns (.var name initializer))
    (accepted : Accepted A none (Walk.stmt context Γ (.var name initializer))) :
    ScopedRun A w.distances V scope (fun V' _ => Stands V' none (Γ.introduce name) scope)
      (execStmt w (bound + 1) (.var name initializer))
      (Event.ofStmt w (bound + 1) (.var name initializer)) := by
  have value : ScopedRun A w.distances V scope
      (fun V' v => v.Scoped A V' ∧ V.Keeps scope.frame [] V') (evalOption w bound initializer)
      (Event.ofOption w bound initializer) := by
    have inner : Accepted A none (Walk.expr? context.enclosing (Γ.declare name) initializer) :=
      accepted.right
    cases Γ with
    | nil => exact h.option settled.awaiting inner
    | cons σ Γ =>
      have new := accepted.new
      have around : StaticStack.declare name (σ :: Γ) =
          { σ with names := σ.names.insert name.lexeme false } :: Γ := if_neg new
      have outer := settled.declaring (by simp) new
      rw [around] at inner outer
      have avoided : Accepted A (some name.lexeme) (Walk.expr? context.enclosing
          ({ σ with names := σ.names.insert name.lexeme false } :: Γ) initializer) := by
        cases initializer with
        | none => exact fun _ member => absurd member List.not_mem_nil
        | some e => exact Accepted.avoiding wellFormed.1 (by simp) e wellFormed.2 inner
      exact h.option outer avoided
  unfold execStmt Event.ofStmt
  refine value.bind fun V₁ v le₁ hv => ?_
  have declaring := (settled.declares rfl owned accepted).step le₁ hv.2
  refine (define (fun m stored => declaring.stands.made stored)
    (fun m stored hscope => declaring.declares stored hscope) fun V₂ le₂ _ => hv.1.mono le₂).mono ?_
  exact fun V₂ _ le₂ held => (declaring.stands.mono le₂).introduce held

private theorem block_succ (h : ScopedSteps A w bound) {Γ : StaticStack} {context : BindingContext}
    {body : List Stmt} (settled : Settled V Γ scope) (wellFormed : Stmt.WellFormedAll body)
    (accepted : Accepted A none (Walk.stmts context (⟨.block body, ∅⟩ :: Γ) body)) :
    ScopedRun A w.distances V scope (fun _ _ => True) (execStmt w (bound + 1) (.block body))
      (Event.ofStmt w (bound + 1) (.block body)) := by
  unfold execStmt Event.ofStmt
  refine get_bind fun m stored hscope => ?_
  rw [hscope]
  refine opening (.block body) (fun t m => Event.ofStmts w bound body { m with scope := t })
    (by simp) (by simp) (fun V₁ f le₁ opened held => ?_) m stored hscope
  have around : Settled V₁ (⟨.block body, ∅⟩ :: Γ) ⟨f, scope.frames⟩ := {
    stands := .inside opened (by simp) (settled.stands.mono le₁)
    complete := StaticStack.complete_cons_empty _ Γ
    exact := fun _ key present => absurd ((held key).mp present) (by simp) }
  have owned : ∀ s ∈ body, StaticStack.Owns (⟨.block body, ∅⟩ :: Γ) s := by
    intro s member o innermost
    obtain rfl := Option.mem_some_iff.mp innermost
    exact member
  exact (inScope (h.stmts around wellFormed owned accepted)).mono fun _ _ _ _ => trivial

private theorem branch_succ (h : ScopedSteps A w bound) {Γ : StaticStack} {context : BindingContext}
    {condition : Expr} {thenBranch : Stmt} {elseBranch : Option Stmt} (settled : Settled V Γ scope)
    (wellFormed : (Stmt.branch condition thenBranch elseBranch).WellFormed)
    (accepted : Accepted A none (Walk.stmt context Γ (.branch condition thenBranch elseBranch))) :
    ScopedRun A w.distances V scope (fun _ _ => True)
      (execStmt w (bound + 1) (.branch condition thenBranch elseBranch))
      (Event.ofStmt w (bound + 1) (.branch condition thenBranch elseBranch)) := by
  obtain ⟨_, thenFormed, elseFormed⟩ := wellFormed
  have last : Accepted A none (Walk.stmt? context (Walk.after Γ thenBranch) elseBranch) :=
    accepted.right
  rw [Walk.after_eq Γ _ thenFormed.1 thenFormed.2] at last
  unfold execStmt Event.ofStmt
  refine (h.expr settled.awaiting accepted.left.left).bind fun V₁ v le₁ hv => ?_
  have there := settled.step le₁ hv.2
  cases v.truthy with
  | true =>
    exact (h.stmt there thenFormed.1 (by simp [thenFormed.2]) accepted.left.right).mono
      fun _ _ _ _ => trivial
  | false =>
    cases elseBranch with
    | none => exact .pure trivial
    | some s =>
      have inner : Accepted A none (Walk.stmt context Γ s) := last
      exact (h.stmt there elseFormed.1 (by simp [elseFormed.2]) inner).mono
        fun _ _ _ _ => trivial

private theorem subclass_succ (h : ScopedSteps A w bound) {Γ : StaticStack}
    {context : BindingContext}
    {name : Token} {e : Expr} {methods : List FunctionDecl} (settled : Settled V Γ scope)
    (wellFormed : (Stmt.classDecl name (some e) methods).WellFormed)
    (owned : Γ.Owns (.classDecl name (some e) methods))
    (accepted : Accepted A none (Walk.stmt context Γ (.classDecl name (some e) methods))) :
    ScopedRun A w.distances V scope (fun V' _ => Stands V' none (Γ.introduce name) scope)
      (execStmt w (bound + 1) (.classDecl name (some e) methods))
      (Event.ofStmt w (bound + 1) (.classDecl name (some e) methods)) := by
  obtain ⟨isName, superFormed, methodsFormed⟩ := wellFormed
  obtain ⟨_, id, superName, rfl⟩ := superFormed e rfl
  have other : some superName.lexeme ≠ some name.lexeme := by
    intro same
    refine accepted.left.left.right.not_fault (e := ⟨superName, .inheritsFromItself⟩) ?_
    simp [Walk.inherited, Expr.variableName?, Option.some.inj same]
  have inner : Accepted A (some name.lexeme)
      (Walk.expr .derived (Γ.introduce name) (.variable id superName)) :=
    accepted.left.right.variable_other other
  have declaring := settled.declares rfl owned accepted.left.left
  unfold execStmt Event.ofStmt
  refine (h.named (settled.stands.introducing name) inner).bind fun V₁ v le₁ hv => ?_
  cases v with
  | callable c =>
    cases c with
    | ofClass k =>
      exact declareSubclass (declaring.step le₁ hv.2) hv.1 methodsFormed accepted.right
    | _ => exact fault _ _
  | _ => exact fault _ _

private theorem stmt_succ (h : ScopedSteps A w bound) {Γ : StaticStack} {context : BindingContext}
    {s : Stmt} (settled : Settled V Γ scope) (wellFormed : s.WellFormed)
    (owned : s.declaresNothing = false → Γ.Owns s)
    (accepted : Accepted A none (Walk.stmt context Γ s)) :
    ScopedRun A w.distances V scope (fun V' _ => Stands V' none (Walk.after Γ s) scope)
      (execStmt w (bound + 1) s) (Event.ofStmt w (bound + 1) s) := by
  have stands := settled.stands
  cases s with
  | expression e =>
    have inner : Accepted A none (Walk.expr context.enclosing Γ e) := accepted
    unfold execStmt Event.ofStmt
    exact (h.expr settled.awaiting inner).bind_silent fun V₁ v le₁ _ => .pure (stands.mono le₁)
  | print e =>
    have inner : Accepted A none (Walk.expr context.enclosing Γ e) := accepted
    unfold execStmt Event.ofStmt
    refine (h.expr settled.awaiting inner).bind fun V₁ v le₁ _ => ?_
    exact (ScopedRun.print _ _).mono fun V₂ _ le₂ _ => stands.mono (Known.le_trans le₁ le₂)
  | var name initializer => exact h.var_succ settled wellFormed (owned rfl) accepted
  | block body =>
    exact (h.block_succ settled wellFormed accepted).mono fun _ _ le _ => stands.mono le
  | branch condition thenBranch elseBranch =>
    rw [Walk.after_eq Γ _ wellFormed rfl]
    exact (h.branch_succ settled wellFormed accepted).mono fun _ _ le _ => stands.mono le
  | loop condition body =>
    rw [Walk.after_eq Γ _ wellFormed rfl]
    unfold execStmt Event.ofStmt
    exact (h.loop settled wellFormed.2.1 wellFormed.2.2 accepted.left accepted.right).mono
      fun _ _ le _ => stands.mono le
  | function decl =>
    unfold execStmt Event.ofStmt
    refine get_bind fun m stored hscope => ?_
    rw [hscope]
    have declaring := settled.declares rfl (owned rfl) accepted
    refine (define (fun m stored => stands.made stored)
      (fun m stored hscope => declaring.declares stored hscope) fun V₁ le₁ held => ?_).mono
      (fun V₂ _ le₂ held => (stands.mono le₂).introduce held) m stored hscope
    exact ⟨Γ.introduce decl.name, context.enclosing, .function, (stands.mono le₁).introduce held,
      wellFormed, accepted.right⟩
  | ret keyword value =>
    have inner : Accepted A none (Walk.expr? context.enclosing Γ value) := accepted.right
    unfold execStmt Event.ofStmt
    exact (h.option settled.awaiting inner).bind_silent fun V₁ v le₁ hv => .returned hv.1
  | classDecl name superclass methods =>
    cases superclass with
    | none =>
      have inner : Accepted A none (Walk.functions .plain (Γ.introduce name) methods) :=
        accepted.right
      unfold execStmt Event.ofStmt
      exact declareClass (settled.declares rfl (owned rfl) accepted) wellFormed.2.2 inner
    | some e => exact h.subclass_succ settled wellFormed (owned rfl) accepted

theorem all (foreseen : Foreseen A w.distances) (bound : Nat) : ScopedSteps A w bound := by
  induction bound with
  | zero => exact zero
  | succ bound ih =>
    exact {
      expr := fun awaiting accepted => (ih.expr_succ foreseen awaiting accepted).keeping []
        (.expr w (bound + 1) _) fun _ stored => awaiting.stands.made stored
      named := fun stands accepted => (named_succ foreseen stands accepted).keeping []
        (.expr w (bound + 1) _) fun _ stored => stands.made stored
      exprs := ih.exprs_succ
      apply := ih.apply_succ
      invoke := ih.invoke_succ
      stmt := fun {V scope Γ context s} settled wellFormed owned accepted =>
        ((ih.stmt_succ settled wellFormed owned accepted).keeping s.declared (.stmt w (bound + 1) s)
          fun _ stored => settled.stands.made stored).mono
            fun _ _ _ behind => settled.after behind.2 behind.1
      option := fun awaiting accepted => (ih.option_succ awaiting accepted).keeping []
        (.option w (bound + 1) _) fun _ stored => awaiting.stands.made stored
      stmts := ih.stmts_succ
      loop := ih.loop_succ }

end ScopedSteps

end

end LoxLang
