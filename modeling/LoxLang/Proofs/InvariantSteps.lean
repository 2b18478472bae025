import LoxLang.Proofs.Invariants

/-!
Every execution keeps an invariant that each single step keeps, with any bound on nested steps.  The
walk over the evaluator is made here, once for all invariants.
-/

set_option autoImplicit false
set_option relaxedAutoImplicit false

namespace LoxLang

namespace Invariant

open EvalM Event

namespace Kept

variable {I : Invariant} {w : Surroundings} (K : I.Kept w) {own : List String} {m : Machine}

include K

/-! Single steps. -/

private theorem ofOption {α : Type} {P : Store → α → Prop} (token : Token) {f : RuntimeFault}
    (ordinary : f.isOrdinary) {r : Option α}
    (given : ∀ a, r = some a → I.Stored m.store → P m.store a) :
    I.Keeps own P (EvalM.ofOption token f r) m [] := by
  cases r with
  | none => exact K.fault token ordinary
  | some a => exact K.pure (given a rfl)

private theorem ofResult {token : Token} {r : Except RuntimeFault Value}
    (constant : ∀ v, r = .ok v → v.IsConstant)
    (failed : ∀ f, r = .error f → I.failure (.fault ⟨token.line, f⟩)) :
    I.Keeps own I.value (EvalM.ofResult token r) m [] := by
  cases r with
  | error f => exact K.failing rfl (failed f rfl)
  | ok v => exact K.pure fun _ => K.constant (constant v rfl)

private theorem lookUp (id : ExprId) (name : Token) :
    I.Keeps own I.value (EvalM.lookUp w.distances id name) m [] := by
  refine .get_bind ?_
  split
  · exact K.ofOption name rfl fun v held stored => stored.getAt? held
  · exact K.ofOption name rfl fun v held stored => stored.get? held

private theorem assign {id : ExprId} {name : Token} {value : Expr} {v : Value}
    (given : I.value m.store v) :
    I.Keeps own (fun _ _ => True) (EvalM.assign w.distances id name v) m
      [.assigns w.distances (.assign id name value) v m] := by
  intro stored _
  rw [outcome_assign]
  cases target : m.target? w.distances id name with
  | none =>
    refine ⟨K.misses stored given target, stored, K.ordinary ?_⟩
    split <;> rfl
  | some f =>
    have path : I.path own m [.assigns w.distances (.assign id name value) v m] _ :=
      K.assigns stored given target
    exact ⟨path, K.storedWith stored path given fun _ => Store.keeps_setLocal, trivial⟩

private theorem define {s : Stmt} {name : Token} {v : Value} (given : I.value m.store v)
    (declaration : Declaration s name v m) (mine : name.lexeme ∈ own) :
    I.Keeps own (fun _ _ => True) (EvalM.define name.lexeme v) m [.declares s v m] := by
  intro stored _
  have path := K.declares stored given declaration mine
  exact ⟨path, K.storedWith stored path given fun _ => Store.keeps_setLocal, trivial⟩

private theorem setField {o : Object} {name : Token} {v : Value}
    (object : I.value m.store (.object o))
    (given : I.value m.store v) :
    I.Keeps own (fun _ _ => True) (EvalM.setField o name.lexeme v) m [.sets o name v m] := by
  intro stored _
  have path : I.path own m [.sets o name v m] _ := K.sets stored object given
  exact ⟨path, K.storedWith stored path given fun _ => Store.keeps_setField, trivial⟩

private theorem print (line : String) :
    I.Keeps own (fun _ _ => True) (EvalM.print w.config.sink line) m [.prints line m] := by
  intro stored _
  cases sink : w.config.sink with
  | working => exact ⟨K.prints stored fun _ => rfl, stored, trivial⟩
  | broken text =>
    have path : I.path own m [.prints line m] { m with printed := m.printed } :=
      K.prints stored fun working => by cases sink.symm.trans working
    exact ⟨path, stored, K.sink sink⟩

private theorem expectObject {v : Value} (name : Token) (given : I.value m.store v) :
    I.Keeps own (fun m o => I.value m (.object o)) (EvalM.expectObject v name) m [] := by
  cases v with
  | object o => exact K.pure fun _ => given
  | _ => exact K.fault name rfl

theorem makeObject {k : Class} (given : I.value m.store (.callable (.ofClass k))) :
    I.Keeps own (fun m o => I.value m (.object o)) (onStore (·.newObject k)) m [] := by
  intro stored _
  obtain ⟨path, made⟩ : I.path own m [] _ ∧ _ := K.newObject stored given
  exact ⟨path, K.stored stored path fun _ keeps => .inl (Store.keeps_newObject (k := k) keeps), made⟩

theorem bindTo {f : Closure} {o : Object} (object : I.value m.store (.object o))
    (text : I.tree.decl f.decl) (binding : Binding I w f o m) :
    I.Keeps own (fun m f => I.value m (.callable (.function f))) (onStore (·.bind f o)) m
      (ofBind f o m) := by
  intro stored known
  obtain ⟨path, given⟩ := K.binds stored object text binding known
  refine ⟨path, K.stored stored path fun u keeps => ?_, given⟩
  refine (Store.keeps_newScope (s := some f.scope) keeps).imp_right fun ⟨x, held⟩ => ?_
  exact eq_of_getElem?_insert_empty held ▸ K.later path object

private theorem bindMethod {f : Closure} {o : Object} (object : I.value m.store (.object o))
    (text : I.tree.decl f.decl) (binding : Binding I w f o m) :
    I.Keeps own I.value (EvalM.bindMethod f o) m (ofBind f o m) :=
  K.andThen (K.bindTo object text binding) fun _ _ _ _ given => K.pure fun _ => given

private theorem getProperty {bound : Nat} {e : Expr} {name : Token} {v : Value} {before : Machine}
    (value : (evalExpr w bound e).outcome before = (.ok v, m)) (given : I.value m.store v)
    (known : I.event (ofExpr w (bound + 1) (.get e name) before)) :
    I.Keeps own I.value (EvalM.getProperty v name) m (ofProperty v name m) := by
  cases v with
  | object o =>
    refine .store_bind ?_
    simp only [ofProperty]
    cases unset : m.store.field? o name.lexeme with
    | some u => exact K.pure fun stored => stored.field? unset
    | none =>
      cases found : o.kind.method? name.lexeme with
      | none => exact K.failing rfl (K.ordinary (f := .undefinedProperty name.lexeme) rfl)
      | some f =>
        simp only [EvalM.ofOption, pure_bind]
        exact K.bindMethod given (K.method (K.kind given) found)
          (.property value unset found known)
  | _ => exact K.fault name rfl

private theorem taking {α : Type} {P : Store → α → Prop} {act : EvalM α} {evs : List Event}
    {v : Value} (name : Token) (given : I.value m.store v) (h : I.Keeps own P act m evs) :
    I.Keeps own P act m (.takes v name m :: evs) := by
  intro stored known
  obtain ⟨path, stored', ends⟩ := h stored (K.right [.takes v name m] known)
  exact ⟨K.trans (K.takes stored given) path, stored', ends⟩

private theorem superMethod {bound : Nat} {id : ExprId} {keyword method : Token}
    (known : I.event (ofExpr w (bound + 1) (.super id keyword method) m)) :
    I.Keeps own I.value (EvalM.superMethod w.distances id keyword method) m
      (ofSuper w.distances id method m) := by
  refine .get_bind ?_
  unfold ofSuper
  cases distance : w.distances[id]? with
  | none => exact K.failing rfl (K.ordinary rfl)
  | some d =>
    simp only [EvalM.ofOption, pure_bind]
    cases d with
    | zero =>
      split <;> exact K.fault keyword rfl
    | succ inner =>
      dsimp only
      cases superclass : m.store.getAt? m.scope (inner + 1) "super" with
      | none => exact K.fault keyword rfl
      | some v =>
        rcases v with _ | _ | _ | _ | (_ | _ | c) | _
        case callable.ofClass =>
          dsimp only
          cases receiver : m.store.getAt? m.scope inner "this" with
          | none => exact K.fault keyword rfl
          | some v =>
            cases v with
            | object o =>
              dsimp only
              cases found : c.method? method.lexeme with
              | none =>
                exact K.failing rfl (K.ordinary (f := .undefinedProperty method.lexeme) rfl)
              | some f =>
                simp only [pure_bind]
                exact fun stored => K.bindMethod (stored.getAt? receiver)
                  (K.method (stored.getAt? superclass) found)
                  (.super distance superclass receiver found known) stored
            | _ => exact K.fault keyword rfl
        all_goals exact K.fault keyword rfl

/-! Declarations of classes. -/

private theorem nameClass {name : Token} {clause : Option Expr} {superclass : Option Class}
    {methods : List FunctionDecl} {scope : Scope}
    (above : ∀ k ∈ superclass, I.value m.store (.callable (.ofClass k)))
    (text : ∀ d ∈ methods, I.tree.decl d) (mine : name.lexeme ∈ own)
    (naming : Naming I w name methods clause superclass scope m) :
    I.Keeps own (fun _ _ => True) (EvalM.nameClass name superclass methods scope) m
      (ofClassIn (.classDecl name clause methods) name superclass methods scope m) := by
  intro stored _
  obtain ⟨path, given⟩ := K.names stored above text mine naming
  refine ⟨path, K.stored stored path fun u keeps => ?_, trivial⟩
  refine (Store.keeps_setLocal keeps).imp_right ?_
  rintro rfl
  exact given

private theorem declareRoot {name : Token} {methods : List FunctionDecl}
    (text : ∀ d ∈ methods, I.tree.decl d) (mine : name.lexeme ∈ own) :
    I.Keeps own (fun _ _ => True) (declareClass name none methods) m
      (ofClass (.classDecl name none methods) name none methods m) := by
  refine .knowing fun known => ?_
  unfold Keeps
  rw [outcome_declareClass_none]
  exact K.nameClass nofun text mine (.root known)

private theorem declareBelow {bound : Nat} {e : Expr} {name : Token} {c : Class}
    {methods : List FunctionDecl} {before : Machine}
    (value : (evalExpr w bound e).outcome before = (.ok (.callable (.ofClass c)), m))
    (superclass : I.value m.store (.callable (.ofClass c))) (text : ∀ d ∈ methods, I.tree.decl d)
    (mine : name.lexeme ∈ own)
    (known : I.event (ofExpr w bound e before ++
      ofClass (.classDecl name (some e) methods) name (some c) methods m)) :
    I.Keeps own (fun _ _ => True) (declareClass name (some c) methods) m
      (ofClass (.classDecl name (some e) methods) name (some c) methods m) := by
  intro stored part
  have enters : I.path own m _ _ := K.inherits stored superclass value known
  have there := K.stored stored enters fun u keeps =>
    (Store.keeps_newScope (s := some m.scope) keeps).imp_right fun ⟨x, held⟩ =>
      eq_of_getElem?_insert_empty held ▸ K.later enters superclass
  rw [ofClass_some] at part ⊢
  rw [outcome_declareClass_some, outcome_bind, outcome_onStore]
  have above : ∀ k ∈ some c, I.value (m.store.newScope (inheriting c) (some m.scope)).2
      (.callable (.ofClass k)) := by
    intro k same
    obtain rfl := Option.mem_some_iff.mp same
    exact K.later enters superclass
  obtain ⟨path, stored', ends⟩ :=
    K.nameClass above text mine (.below value known) there (K.right _ part)
  exact ⟨K.trans enters path, stored', ends⟩

end Kept

structure Steps (I : Invariant) (w : Surroundings) (bound : Nat) : Prop where
  expr : ∀ own m {e}, I.tree.expr e →
    I.Keeps own I.value (evalExpr w bound e) m (ofExpr w bound e m)
  exprs : ∀ own m {es}, (∀ e ∈ es, I.tree.expr e) →
    I.Keeps own (fun m vs => ∀ v ∈ vs, I.value m v) (evalExprs w bound es) m (ofExprs w bound es m)
  apply : ∀ own m {c args}, I.value m.store (.callable c) → (∀ v ∈ args, I.value m.store v) →
    I.Keeps own I.value (applyCallable w bound c args) m (ofApply w bound c args m)
  invoke : ∀ own m {f args}, I.tree.decl f.decl → (∀ v ∈ args, I.value m.store v) →
    I.Keeps own I.value (invokeClosure w bound f args) m (ofInvoke w bound f args m)
  stmt : ∀ m {s}, I.tree.stmt s →
    I.Keeps s.declared (fun _ _ => True) (execStmt w bound s) m (ofStmt w bound s m)
  option : ∀ own m {e}, (∀ e' ∈ e.toList, I.tree.expr e') →
    I.Keeps own I.value (evalOption w bound e) m (ofOption w bound e m)
  stmts : ∀ m {ss}, I.tree.stmts ss →
    I.Keeps (Stmt.declaredAll ss) (fun _ _ => True) (execStmts w bound ss) m (ofStmts w bound ss m)
  loop : ∀ m {e s}, I.tree.expr e → I.tree.stmt s →
    I.Keeps s.declared (fun _ _ => True) (execLoop w bound e s) m (ofLoop w bound e s m)

namespace Steps

variable {I : Invariant} {w : Surroundings} (K : I.Kept w) {bound : Nat}

include K

private theorem zero : I.Steps w 0 := by
  constructor
  all_goals
    intros
    exact K.failing rfl K.exhausted

variable (ih : I.Steps w bound) {own : List String} {m : Machine}

include ih

private theorem call {f : Value} {args : List Value} {paren : Token} (called : I.value m.store f)
    (given : ∀ v ∈ args, I.value m.store v) :
    I.Keeps own I.value
      (expectCallable w.config.callLimit f args.length paren >>= fun c =>
        asCall (applyCallable w bound c args)) m
      (behind (expectCallable w.config.callLimit f args.length paren) (fun c m =>
        let begun := { m with depth := m.depth + 1 }
        .begins paren begun :: (ofApply w bound c args begun ++
          [.ends ((asCall (applyCallable w bound c args)).outcome m).2])) m) := by
  unfold Keeps behind
  rw [outcome_bind]
  rcases outcome_expectCallable w.config.callLimit f args.length paren m with
    ⟨c, rfl, below, outcome⟩ | ⟨error, limited, known, outcome⟩
  · rw [outcome]
    exact K.calling below (ih.apply _ _ called given)
  · rw [outcome]
    refine fun stored _ => ⟨K.still rfl rfl rfl rfl, stored, ?_⟩
    rcases known with rfl | ordinary
    · exact K.overflow (limited rfl)
    · exact K.ordinary ordinary

private theorem expr_succ {e : Expr} (text : I.tree.expr e) :
    I.Keeps own I.value (evalExpr w (bound + 1) e) m (ofExpr w (bound + 1) e m) := by
  have inner := I.tree.inner text
  refine .knowing fun known => ?_
  unfold evalExpr
  rw [ofExpr]
  refine K.evaluating text ?_
  cases e with
  | literal l => exact K.pure fun _ => K.constant l.value_constant
  | grouping e => exact ih.expr _ m (inner e List.mem_cons_self)
  | unary operator operand =>
    refine K.andThen (ih.expr _ m (inner operand List.mem_cons_self)) fun v m₁ _ _ _ => ?_
    exact K.ofResult (fun _ => applyUnary_constant) fun f failed => K.unary text failed
  | binary operator left right =>
    refine K.bind (ih.expr _ m (inner left List.mem_cons_self)) fun a m₁ _ _ _ _ => ?_
    refine K.andThen (ih.expr _ m₁ (inner right (List.mem_cons_of_mem _ List.mem_cons_self)))
      fun b m₂ _ _ _ => ?_
    exact K.ofResult (fun _ => applyBinary_constant) fun f failed => K.binary text failed
  | logical operator left right =>
    refine K.bind (ih.expr _ m (inner left List.mem_cons_self)) fun a m₁ _ _ given _ => ?_
    dsimp only
    generalize (if operator.kind = .orWord then a.truthy else !a.truthy) = decided
    cases decided with
    | true => exact K.pure fun _ => given
    | false => exact ih.expr _ m₁ (inner right (List.mem_cons_of_mem _ List.mem_cons_self))
  | «variable» id name => exact K.lookUp id name
  | assign id name value =>
    refine K.bind (ih.expr _ m (inner value List.mem_cons_self)) fun v m₁ _ _ given _ => ?_
    exact K.andThen (K.assign given) fun _ m₂ _ path _ => K.pure fun _ => K.later path given
  | call callee paren args =>
    refine K.bind (ih.expr _ m (inner callee List.mem_cons_self)) fun f m₁ _ _ called _ => ?_
    refine K.bind (ih.exprs _ m₁ fun e member => inner e (List.mem_cons_of_mem _ member))
      fun args m₂ _ path given _ => ?_
    exact ih.call K (K.later path called) given
  | get object name =>
    refine K.bind (ih.expr _ m (inner object List.mem_cons_self)) fun v m₁ value _ given _ => ?_
    exact K.taking name given (K.getProperty value given known)
  | set object name value =>
    refine K.bind (ih.expr _ m (inner object List.mem_cons_self)) fun v m₁ _ _ given _ => ?_
    refine K.after (K.expectObject name given) fun o m₂ _ _ object _ => ?_
    refine K.bind (ih.expr _ m₂ (inner value (List.mem_cons_of_mem _ List.mem_cons_self)))
      fun u m₃ _ path given _ => ?_
    exact K.andThen (K.setField (K.later path object) given) fun _ m₄ _ path _ =>
      K.pure fun _ => K.later path given
  | this id keyword => exact K.lookUp id keyword
  | super id keyword method => exact K.superMethod known

private theorem exprs_succ {es : List Expr} (text : ∀ e ∈ es, I.tree.expr e) :
    I.Keeps own (fun m vs => ∀ v ∈ vs, I.value m v) (evalExprs w (bound + 1) es) m
      (ofExprs w (bound + 1) es m) := by
  unfold evalExprs ofExprs
  cases es with
  | nil => exact K.pure fun _ => List.forall_mem_nil _
  | cons e es =>
    obtain ⟨here, behind⟩ := List.forall_mem_cons.mp text
    refine K.bind (ih.expr _ m here) fun v m₁ _ _ given _ => ?_
    refine K.andThen (ih.exprs _ m₁ behind) fun vs m₂ _ path all => K.pure fun _ => ?_
    exact List.forall_mem_cons.mpr ⟨K.later path given, all⟩

private theorem apply_succ {c : Callable} {args : List Value}
    (called : I.value m.store (.callable c))
    (given : ∀ v ∈ args, I.value m.store v) :
    I.Keeps own I.value (applyCallable w (bound + 1) c args) m (ofApply w (bound + 1) c args m) := by
  refine .knowing fun known => ?_
  unfold applyCallable
  rw [ofApply]
  cases c with
  | native f =>
    cases f
    exact K.look rfl rfl rfl rfl rfl fun _ => K.constant trivial
  | function f => exact ih.invoke _ m (K.closure called) given
  | ofClass k =>
    refine K.after (K.makeObject called) fun o m₁ made path object _ => ?_
    cases made
    cases found : k.method? initializerName with
    | none => exact K.pure fun _ => object
    | some initializer =>
      refine K.bind (K.bindTo object (K.method called found) (.construction found known))
        fun f m₂ _ path' bound _ => ?_
      refine K.andThen (ih.invoke _ m₂ (K.closure bound) fun v member =>
        K.later path' (K.later path (given v member))) fun _ m₃ _ path'' _ => ?_
      exact K.pure fun _ => K.later path'' (K.later path' object)

private theorem invoke_succ {f : Closure} {args : List Value} (text : I.tree.decl f.decl)
    (given : ∀ v ∈ args, I.value m.store v) :
    I.Keeps own I.value (invokeClosure w (bound + 1) f args) m
      (ofInvoke w (bound + 1) f args m) := by
  unfold invokeClosure ofInvoke
  dsimp only
  rw [← bind_assoc]
  refine K.andThen (K.entering (.call f.decl) rfl (I.tree.body text) (fun x v held => ?_)
    f.scope fun _ => (ih.stmts _ (I.tree.body text)).catchReturn) fun r m₁ _ _ ends => ?_
  · rcases mem_of_getElem?_bindAll held with member | absent
    · exact given v member
    · simp at absent
  · split
    · refine .store_bind (K.pure fun stored => ?_)
      cases held : m₁.store.getAt? f.scope 0 "this" with
      | none => exact K.constant trivial
      | some v => exact stored.getAt? held
    · refine K.pure fun _ => ?_
      cases r with
      | none => exact K.constant trivial
      | some v => exact ends v rfl

private theorem option_succ {e : Option Expr} (text : ∀ e' ∈ e.toList, I.tree.expr e') :
    I.Keeps own I.value (evalOption w (bound + 1) e) m (Event.ofOption w (bound + 1) e m) := by
  unfold evalOption Event.ofOption
  cases e with
  | none => exact K.pure fun _ => K.constant trivial
  | some e => exact ih.expr _ m (text e (List.mem_singleton_self e))

private theorem stmts_succ {ss : List Stmt} (text : I.tree.stmts ss) :
    I.Keeps (Stmt.declaredAll ss) (fun _ _ => True) (execStmts w (bound + 1) ss) m
      (ofStmts w (bound + 1) ss m) := by
  unfold execStmts ofStmts
  cases ss with
  | nil => exact K.pure fun _ => trivial
  | cons s ss =>
    obtain ⟨here, behind⟩ := I.tree.cons text
    rw [Stmt.declaredAll_cons]
    refine K.bind (K.wider (ih.stmt m here) (List.subset_append_left _ _)) fun _ m₁ _ _ _ _ => ?_
    exact K.wider (ih.stmts m₁ behind) (List.subset_append_right _ _)

private theorem loop_succ {e : Expr} {s : Stmt} (condition : I.tree.expr e) (body : I.tree.stmt s) :
    I.Keeps s.declared (fun _ _ => True) (execLoop w (bound + 1) e s) m
      (ofLoop w (bound + 1) e s m) := by
  unfold execLoop ofLoop
  refine K.bind (ih.expr _ m condition) fun v m₁ _ _ _ _ => ?_
  cases v.truthy with
  | true => exact K.bind (ih.stmt m₁ body) fun _ m₂ _ _ _ _ => ih.loop m₂ condition body
  | false => exact K.pure fun _ => trivial

private theorem stmt_succ {s : Stmt} (text : I.tree.stmt s) :
    I.Keeps s.declared (fun _ _ => True) (execStmt w (bound + 1) s) m
      (ofStmt w (bound + 1) s m) := by
  have exprs := I.tree.exprs text
  have parts := I.tree.parts text
  have decls := I.tree.decls text
  refine .knowing fun known => ?_
  unfold execStmt
  rw [ofStmt]
  cases s with
  | expression e =>
    exact K.andThen (ih.expr _ m (exprs e List.mem_cons_self)) fun _ m₁ _ _ _ =>
      K.pure fun _ => trivial
  | print e =>
    exact K.bind (ih.expr _ m (exprs e List.mem_cons_self)) fun v m₁ _ _ _ _ => K.print v.text
  | var name initializer =>
    refine K.bind (ih.option _ m exprs) fun v m₁ _ _ given _ => ?_
    exact K.define given (.var name initializer v m₁) (List.mem_singleton_self _)
  | block body =>
    refine .get_bind ?_
    exact K.entering (.block body) rfl (I.tree.block text) (by simp) m.scope fun _ =>
      ih.stmts _ (I.tree.block text)
  | branch condition thenBranch elseBranch =>
    refine K.bind (ih.expr _ m (exprs condition List.mem_cons_self)) fun v m₁ _ _ _ _ => ?_
    cases v.truthy with
    | true =>
      exact K.wider (ih.stmt m₁ (parts thenBranch List.mem_cons_self))
        (List.subset_append_left _ _)
    | false =>
      cases elseBranch with
      | none => exact K.pure fun _ => trivial
      | some s =>
        exact K.wider (ih.stmt m₁ (parts s (List.mem_cons_of_mem _ List.mem_cons_self)))
          (List.subset_append_right _ _)
  | loop condition body =>
    exact ih.loop m (exprs condition List.mem_cons_self) (parts body List.mem_cons_self)
  | function decl =>
    rw [ofStmt] at known
    refine .get_bind ?_
    exact K.define (K.function (decls decl List.mem_cons_self) known) (.function decl m)
      (List.mem_singleton_self _)
  | ret keyword value =>
    exact K.andThen (ih.option _ m exprs) fun v m₁ _ _ given =>
      K.look rfl rfl rfl rfl rfl fun _ => given
  | classDecl name superclass methods =>
    have mine : name.lexeme ∈ (Stmt.classDecl name superclass methods).declared :=
      List.mem_singleton_self _
    cases superclass with
    | none => exact K.declareRoot decls mine
    | some e =>
      refine K.bind (ih.expr _ m (exprs e List.mem_cons_self)) fun v m₁ value _ given known => ?_
      cases v with
      | callable c =>
        cases c with
        | ofClass k => exact K.declareBelow value given decls mine known
        | _ => exact K.fault _ rfl
      | _ => exact K.fault _ rfl

end Steps

/-- An invariant that each single step keeps is one of all executions, whatever the bound. -/
theorem Kept.all {I : Invariant} {w : Surroundings} (K : I.Kept w) (bound : Nat) :
    I.Steps w bound := by
  induction bound with
  | zero => exact .zero K
  | succ bound ih =>
    exact {
      expr := fun _ _ => ih.expr_succ K
      exprs := fun _ _ => ih.exprs_succ K
      apply := fun _ _ => ih.apply_succ K
      invoke := fun _ _ => ih.invoke_succ K
      stmt := fun _ => ih.stmt_succ K
      option := fun _ _ => ih.option_succ K
      stmts := fun _ => ih.stmts_succ K
      loop := fun _ => ih.loop_succ K }

end Invariant

end LoxLang
