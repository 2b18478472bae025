import LoxLang.Proofs.EnclosedSteps

/-!
Trees executed with one more frame.  Whatever the bound on nested steps, a tree that meets only
names which both sides find does the same on both sides.  Inside of blocks and calls nothing else is
to be said; outside of them a declaration puts its name into the global frame on one side and into
the frame of the block on the other one.
-/

set_option autoImplicit false
set_option relaxedAutoImplicit false

namespace LoxLang

structure Defines (R : Rebinding) (N N' : List String) (scope : Scope) (name : String) : Prop where
  more : N ⊆ N'
  define : ∀ {v v'}, ValueEnclosed R N' v v' →
    Enclosed R N N' scope (fun _ _ => True) (EvalM.define name v) (EvalM.define name v')

section

variable {R : Rebinding} {N : List String} {scope : Scope}

private theorem Defines.inner {Γ : StaticStack} (stands : Stands .apart none Γ scope)
    (inside : Γ ≠ [])
    (name : String) : Defines R N N scope name where
  more := List.Subset.refl N
  define hv := by
    have apart : scope.frame ≠ 0 := by
      cases stands with
      | globals => exact absurd rfl inside
      | inside opened _ _ => exact opened
    refine Enclosed.modifyStore fun m m' hm hscope => ?_
    have stored := hm.store.setLocal scope.frame name hv
    rw [home_inner apart] at stored
    rw [hm.scope, hscope]
    exact stored

/-- A name that is defined outside of all blocks is a global one or belongs to the block. -/
theorem Defines.outer {name : String} (declared : name ∈ R.declared) :
    Defines R N (name :: N) .globals name where
  more := List.subset_cons_self name N
  define hv := by
    refine Enclosed.modifyStore fun m m' hm hscope => ?_
    rw [hm.scope, hscope]
    exact hm.store.declare declared hv

end

structure EnclosedSteps (R : Rebinding) (N : List String) (w w' : Surroundings) (bound : Nat) :
    Prop where
  expr : ∀ {scope Γ enclosing e}, Stands .apart none Γ scope →
    Accepted (R.Meets N) none (Walk.expr enclosing Γ e) →
    Enclosed R N N scope (ValueEnclosed R N) (evalExpr w bound e) (evalExpr w' bound e)
  exprs : ∀ {scope Γ enclosing es}, Stands .apart none Γ scope →
    Accepted (R.Meets N) none (Walk.exprs enclosing Γ es) →
    Enclosed R N N scope (List.Forall₂ (ValueEnclosed R N)) (evalExprs w bound es)
      (evalExprs w' bound es)
  apply : ∀ {scope c c' args args'}, ValueEnclosed R N (.callable c) (.callable c') →
    List.Forall₂ (ValueEnclosed R N) args args' →
    Enclosed R N N scope (ValueEnclosed R N) (applyCallable w bound c args)
      (applyCallable w' bound c' args')
  invoke : ∀ {scope c c' args args'}, FunctionEnclosed R N c c' →
    List.Forall₂ (ValueEnclosed R N) args args' →
    Enclosed R N N scope (ValueEnclosed R N) (invokeClosure w bound c args)
      (invokeClosure w' bound c' args')
  stmt : ∀ {scope Γ context s}, Stands .apart none Γ scope → s.WellFormed →
    (Γ = [] → s.declaresNothing) → Accepted (R.Meets N) none (Walk.stmt context Γ s) →
    Enclosed R N N scope (fun _ _ => True) (execStmt w bound s) (execStmt w' bound s)
  option : ∀ {scope Γ enclosing e}, Stands .apart none Γ scope →
    Accepted (R.Meets N) none (Walk.expr? enclosing Γ e) →
    Enclosed R N N scope (ValueEnclosed R N) (evalOption w bound e) (evalOption w' bound e)
  stmts : ∀ {scope Γ context ss}, Stands .apart none Γ scope → Γ ≠ [] → Stmt.WellFormedAll ss →
    Accepted (R.Meets N) none (Walk.stmts context Γ ss) →
    Enclosed R N N scope (fun _ _ => True) (execStmts w bound ss) (execStmts w' bound ss)
  loop : ∀ {scope Γ context c s}, Stands .apart none Γ scope → s.WellFormed → s.declaresNothing →
    Accepted (R.Meets N) none (Walk.expr context.enclosing Γ c) →
    Accepted (R.Meets N) none (Walk.stmt context Γ s) →
    Enclosed R N N scope (fun _ _ => True) (execLoop w bound c s) (execLoop w' bound c s)

structure Rebinding.Surrounds (R : Rebinding) (w w' : Surroundings) : Prop where
  config : w'.config = w.config
  plain : w.distances = R.plain
  braced : w'.distances = R.braced

namespace EnclosedSteps

open EvalM Enclosed

variable {R : Rebinding} {N N' : List String} {w w' : Surroundings} {bound : Nat} {scope : Scope}
  {Γ : StaticStack}

private theorem zero : EnclosedSteps R N w w' 0 := by
  constructor
  all_goals
    intros
    exact failure _

private theorem expr_succ (h : EnclosedSteps R N w w' bound) (around : R.Surrounds w w')
    {enclosing : ClassContext} {e : Expr} (stands : Stands .apart none Γ scope)
    (accepted : Accepted (R.Meets N) none (Walk.expr enclosing Γ e)) :
    Enclosed R N N scope (ValueEnclosed R N) (evalExpr w (bound + 1) e)
      (evalExpr w' (bound + 1) e) := by
  unfold evalExpr
  rw [around.config, around.plain, around.braced]
  cases e with
  | literal l =>
    exact .pure l.value_constant.enclosed
  | grouping inner => exact h.expr stands accepted
  | unary operator operand =>
    have inner : Accepted (R.Meets N) none (Walk.expr enclosing Γ operand) := accepted
    refine (h.expr stands inner).bind fun v v' hv => ?_
    rw [hv.same, applyUnary_alike _ v.alike_enclosed]
    exact ofResult fun u result => applyUnary_constant result
  | binary operator left right =>
    refine (h.expr stands accepted.left).bind fun a a' ha => ?_
    refine (h.expr stands accepted.right).bind fun b b' hb => ?_
    rw [ha.same, hb.same,
      applyBinary_alike _ a.alike_enclosed b.alike_enclosed (a.same_enclosed b)]
    exact ofResult fun u result => applyBinary_constant result
  | logical operator left right =>
    refine (h.expr stands accepted.left).bind fun a a' ha => ?_
    rw [ha.same, a.alike_enclosed.truthy_eq, ← ha.same]
    generalize (if operator.kind = .orWord then a.truthy else !a.truthy) = decided
    cases decided with
    | true => exact .pure ha
    | false => exact h.expr stands accepted.right
  | «variable» id name =>
    exact lookUp stands ((accepted.right _ List.mem_cons_self).1.binds id name rfl)
  | assign id name value =>
    refine (h.expr stands accepted.left).bind fun v v' hv => ?_
    have binds := (accepted.right _ List.mem_cons_self).1.binds id name rfl
    exact (assign stands binds hv).bind fun _ _ _ => .pure hv
  | call callee paren args =>
    refine (h.expr stands accepted.left).bind fun f f' hf => ?_
    refine (h.exprs stands accepted.right).bind fun args args' hargs => ?_
    rw [hargs.length_eq]
    exact (expectCallable _ hf _ paren).bind fun c c' hc => asCall (h.apply hc hargs)
  | get object name =>
    have inner : Accepted (R.Meets N) none (Walk.expr enclosing Γ object) := accepted
    exact (h.expr stands inner).bind fun v v' hv => getProperty hv name
  | set object name value =>
    refine (h.expr stands accepted.right).bind fun v v' hv => ?_
    refine (expectObject hv name).bind fun o o' same => ?_
    refine (h.expr stands accepted.left).bind fun u u' hu => ?_
    rw [same]
    exact (modifyStore fun m m' hm _ => hm.store.setField o name.lexeme hu).bind
      fun _ _ _ => .pure hu
  | this id keyword =>
    have read := Walk.met_of_read (Γ := Γ) (e := .this id keyword) rfl
      fun _ => accepted.not_fault
    exact lookUp stands ((accepted _ read).1.binds id keyword rfl)
  | super id keyword method =>
    exact superMethod stands (accepted.right _ List.mem_cons_self).1

private theorem exprs_succ (h : EnclosedSteps R N w w' bound) {enclosing : ClassContext}
    {es : List Expr} (stands : Stands .apart none Γ scope)
    (accepted : Accepted (R.Meets N) none (Walk.exprs enclosing Γ es)) :
    Enclosed R N N scope (List.Forall₂ (ValueEnclosed R N)) (evalExprs w (bound + 1) es)
      (evalExprs w' (bound + 1) es) := by
  unfold evalExprs
  cases es with
  | nil => exact .pure .nil
  | cons e es =>
    refine (h.expr stands accepted.left).bind fun v v' hv => ?_
    exact (h.exprs stands accepted.right).bind fun vs vs' hvs => .pure (.cons hv hvs)

private theorem apply_succ (h : EnclosedSteps R N w w' bound) (around : R.Surrounds w w')
    {c c' : Callable} {args args' : List Value}
    (hc : ValueEnclosed R N (.callable c) (.callable c'))
    (hargs : List.Forall₂ (ValueEnclosed R N) args args') :
    Enclosed R N N scope (ValueEnclosed R N) (applyCallable w (bound + 1) c args)
      (applyCallable w' (bound + 1) c' args') := by
  unfold applyCallable
  obtain rfl : c' = c.enclosed := Value.callable.inj hc.same
  cases c with
  | native f =>
    cases f
    rw [around.config]
    exact readClock _
  | function c => exact h.invoke hc hargs
  | ofClass k =>
    refine (newObject k).bind fun o o' ⟨same, kind⟩ => ?_
    have hk : k.Scoped (R.Meets N) .apart := hc.closed
    have ho : o.kind.Scoped (R.Meets N) .apart := kind ▸ hk
    rw [same, k.method?_enclosed]
    cases found : k.method? initializerName with
    | none => exact .pure (.object ho)
    | some initializer =>
      refine (bindTo (hk.method? found) ho).bind fun f f' hf => ?_
      exact (h.invoke hf hargs).bind fun _ _ _ => .pure (.object ho)

private theorem invoke_succ (h : EnclosedSteps R N w w' bound) {c c' : Closure}
    {args args' : List Value}
    (hc : FunctionEnclosed R N c c') (hargs : List.Forall₂ (ValueEnclosed R N) args args') :
    Enclosed R N N scope (ValueEnclosed R N) (invokeClosure w (bound + 1) c args)
      (invokeClosure w' (bound + 1) c' args') := by
  unfold invokeClosure
  obtain ⟨same, ⟨Γ, enclosing, context, stands, wellFormed, accepted⟩, apart⟩ := hc
  obtain rfl : c' = c.enclosed := Callable.function.inj (Value.callable.inj same)
  have initializer := apart c rfl
  obtain ⟨⟨site, name, params, body⟩, s, isInitializer⟩ := c
  have hb := (BindingsEnclosed.empty (R := R) (N := N)).bindAll (params.map Token.lexeme) hargs
  refine (opening stands ⟨.call (.mk site name params body), ∅⟩ hb).bind
    fun t t' ⟨same, fresh⟩ => ?_
  have inside : Stands .apart none (Γ.calling (.mk site name params body)) t :=
    fresh.introduceAll fun _ _ => trivial
  have around := (StaticStack.has_introduceAll
    (Γ := ⟨.call (.mk site name params body), ∅⟩ :: Γ) (by simp) params).1
  rw [same]
  refine (inScope (catchReturn (h.stmts inside around wellFormed.2.2 accepted.right))).bind
    fun r r' hr => ?_
  dsimp only [Closure.enclosed]
  cases isInitializer with
  | true =>
    refine store_bind fun m m' hm => .pure ?_
    have length : 0 < Γ.length := by
      cases stands with
      | globals => exact absurd rfl (initializer rfl)
      | inside _ _ _ => exact Nat.succ_pos _
    have object := hm.getInner? stands length "this"
    generalize m.getAt? s 0 "this" = o, m'.getAt? s.enclosed 0 "this" = o' at object
    cases object with
    | none => exact Value.IsConstant.enclosed (v := .nil) trivial
    | some ho => exact ho
  | false =>
    cases hr with
    | none => exact .pure (Value.IsConstant.enclosed (v := .nil) trivial)
    | some hv => exact .pure hv

private theorem option_succ (h : EnclosedSteps R N w w' bound) {enclosing : ClassContext}
    {e : Option Expr} (stands : Stands .apart none Γ scope)
    (accepted : Accepted (R.Meets N) none (Walk.expr? enclosing Γ e)) :
    Enclosed R N N scope (ValueEnclosed R N) (evalOption w (bound + 1) e)
      (evalOption w' (bound + 1) e) := by
  unfold evalOption
  cases e with
  | none => exact .pure (Value.IsConstant.enclosed (v := .nil) trivial)
  | some e => exact h.expr stands accepted

private theorem stmts_succ (h : EnclosedSteps R N w w' bound) {context : BindingContext}
    {ss : List Stmt}
    (stands : Stands .apart none Γ scope) (inside : Γ ≠ []) (wellFormed : Stmt.WellFormedAll ss)
    (accepted : Accepted (R.Meets N) none (Walk.stmts context Γ ss)) :
    Enclosed R N N scope (fun _ _ => True) (execStmts w (bound + 1) ss)
      (execStmts w' (bound + 1) ss) := by
  unfold execStmts
  cases ss with
  | nil => exact .pure trivial
  | cons s ss =>
    refine (h.stmt stands wellFormed.1 (absurd · inside) accepted.left).bind fun _ _ _ => ?_
    exact h.stmts (stands.after s) (Walk.has_after inside s).1 wellFormed.2 accepted.right

private theorem loop_succ (h : EnclosedSteps R N w w' bound) {context : BindingContext} {c : Expr}
    {s : Stmt} (stands : Stands .apart none Γ scope) (wellFormed : s.WellFormed)
    (nothing : s.declaresNothing)
    (condition : Accepted (R.Meets N) none (Walk.expr context.enclosing Γ c))
    (accepted : Accepted (R.Meets N) none (Walk.stmt context Γ s)) :
    Enclosed R N N scope (fun _ _ => True) (execLoop w (bound + 1) c s)
      (execLoop w' (bound + 1) c s) := by
  unfold execLoop
  refine (h.expr stands condition).bind fun v v' hv => ?_
  rw [hv.same, v.alike_enclosed.truthy_eq]
  split
  · refine (h.stmt stands wellFormed (fun _ => nothing) accepted).bind fun _ _ _ => ?_
    exact h.loop stands wellFormed nothing condition accepted
  · exact .pure trivial

/-! Declarations.  Wherever the name is defined, the rest is the same. -/

theorem var_succ (h : EnclosedSteps R N w w' bound) {enclosing : ClassContext} {name : Token}
    {initializer : Option Expr} (stands : Stands .apart none Γ scope)
    (defines : Defines R N N' scope name.lexeme)
    (accepted : Accepted (R.Meets N) none (Walk.expr? enclosing (Γ.declare name) initializer)) :
    Enclosed R N N' scope (fun _ _ => True) (execStmt w (bound + 1) (.var name initializer))
      (execStmt w' (bound + 1) (.var name initializer)) := by
  unfold execStmt
  have declared : Stands .apart none (Γ.declare name) scope := by
    unfold StaticStack.declare
    split
    · exact stands
    · exact stands.mark false fun _ => trivial
  exact (h.option declared accepted).bind fun v v' hv => defines.define (hv.grow defines.more)

theorem function_succ {enclosing : ClassContext} {decl : FunctionDecl}
    (stands : Stands .apart none Γ scope) (defines : Defines R N N' scope decl.name.lexeme)
    (wellFormed : decl.WellFormed)
    (accepted : Accepted (R.Meets N') none
      (Walk.function enclosing .function (Γ.introduce decl.name) decl)) :
    Enclosed R N N' scope (fun _ _ => True) (execStmt w (bound + 1) (.function decl))
      (execStmt w' (bound + 1) (.function decl)) := by
  unfold execStmt
  refine get_bind fun m m' hm hscope => ?_
  rw [hm.scope, hscope]
  have closed : Closure.Scoped (R.Meets N') .apart ⟨decl, scope, false⟩ :=
    ⟨Γ.introduce decl.name, enclosing, .function, stands.introduce trivial, wellFormed, accepted⟩
  exact defines.define ⟨rfl, closed, by rintro _ ⟨⟩ ⟨⟩⟩

private theorem defineClass {Γ' : StaticStack} {t : Scope} (stands : Stands .apart none Γ' t)
    {name : Token} (defines : Defines R N N' scope name.lexeme) {superclass : Option Class}
    (hsuper : ∀ k ∈ superclass, k.Scoped (R.Meets N) .apart) {methods : List FunctionDecl}
    (wellFormed : FunctionDecl.WellFormedAll methods) {enclosing : ClassContext}
    (accepted : Accepted (R.Meets N') none (Walk.functions enclosing Γ' methods)) :
    Enclosed R N N' scope (fun _ _ => True)
      (do
        let id ← onStore (·.newClass)
        let closures := methods.map fun decl =>
          Closure.mk decl t (decl.name.lexeme = initializerName)
        EvalM.define name.lexeme
          (.callable (.ofClass (.below ⟨id, name.lexeme, closures⟩ superclass))))
      (do
        let id ← onStore (·.newClass)
        let closures := methods.map fun decl =>
          Closure.mk decl t.enclosed (decl.name.lexeme = initializerName)
        EvalM.define name.lexeme (.callable (.ofClass
          (.below ⟨id, name.lexeme, closures⟩ (superclass.map Class.enclosed))))) := by
  refine newClass.bind fun id id' same => defines.define ?_
  have more : ∀ k ∈ superclass, k.Scoped (R.Meets N') .apart := fun k member =>
    (hsuper k member).widen fun _ _ => Rebinding.Meets.grow defines.more
  have closed : Class.Scoped (R.Meets N') .apart (.below ⟨id, name.lexeme, methods.map fun decl =>
      ⟨decl, t, decl.name.lexeme = initializerName⟩⟩ superclass) :=
    .below (closures_scoped stands wellFormed accepted) more
  have both := ValueEnclosed.ofClass closed
  rw [Class.below_enclosed, ClassBody.enclosed, List.map_map] at both
  rw [same]
  exact both

theorem class_succ {name : Token} {methods : List FunctionDecl}
    (stands : Stands .apart none Γ scope) (defines : Defines R N N' scope name.lexeme)
    (wellFormed : FunctionDecl.WellFormedAll methods) {enclosing : ClassContext}
    (accepted : Accepted (R.Meets N') none (Walk.functions enclosing (Γ.introduce name) methods)) :
    Enclosed R N N' scope (fun _ _ => True) (execStmt w (bound + 1) (.classDecl name none methods))
      (execStmt w' (bound + 1) (.classDecl name none methods)) := by
  unfold execStmt
  refine get_bind fun m m' hm hscope => ?_
  rw [hm.scope, hscope]
  have inside : Stands .apart none (Γ.introduce name) scope := stands.introduce trivial
  exact defineClass inside defines (by simp) wellFormed accepted

theorem subclass_succ (h : EnclosedSteps R N w w' bound) {name : Token} {e : Expr}
    {methods : List FunctionDecl} (stands : Stands .apart none Γ scope)
    (defines : Defines R N N' scope name.lexeme) (wellFormed : FunctionDecl.WellFormedAll methods)
    {enclosing : ClassContext}
    (superclass : Accepted (R.Meets N) none (Walk.expr enclosing (Γ.introduce name) e))
    (accepted : Accepted (R.Meets N') none
      (Walk.functions enclosing ((Γ.introduce name).inheriting name methods) methods)) :
    Enclosed R N N' scope (fun _ _ => True)
      (execStmt w (bound + 1) (.classDecl name (some e) methods))
      (execStmt w' (bound + 1) (.classDecl name (some e) methods)) := by
  unfold execStmt
  have inside : Stands .apart none (Γ.introduce name) scope := stands.introduce trivial
  refine (h.expr inside superclass).bind fun v v' ⟨same, hv, _⟩ => ?_
  subst same
  cases v with
  | callable c =>
    cases c with
    | ofClass k =>
      refine get_bind fun m m' hm hscope => ?_
      rw [hm.scope, hscope]
      have hb := (BindingsEnclosed.empty (R := R) (N := N)).insert "super" (.ofClass hv)
      refine (opening inside ⟨.superclass name methods, (∅ : StaticScope).insert "super" true⟩
        hb).bind fun t t' ⟨same, made⟩ => ?_
      rw [same]
      have same : ∀ k' ∈ some k, k'.Scoped (R.Meets N) .apart := fun k' member =>
        Option.mem_some_iff.mp member ▸ hv
      exact defineClass made defines same wellFormed accepted
    | _ => exact fault _ _
  | _ => exact fault _ _

theorem stmt_succ (h : EnclosedSteps R N w w' bound) (around : R.Surrounds w w')
    {context : BindingContext} {s : Stmt} (stands : Stands .apart none Γ scope)
    (wellFormed : s.WellFormed) (global : Γ = [] → s.declaresNothing)
    (accepted : Accepted (R.Meets N) none (Walk.stmt context Γ s)) :
    Enclosed R N N scope (fun _ _ => True) (execStmt w (bound + 1) s)
      (execStmt w' (bound + 1) s) := by
  have defines : s.declaresNothing = false → ∀ name, Defines R N N scope name :=
    fun declares => Defines.inner stands fun none => by simp [global none] at declares
  cases s with
  | expression e =>
    have inner : Accepted (R.Meets N) none (Walk.expr context.enclosing Γ e) := accepted
    unfold execStmt
    exact (h.expr stands inner).bind fun _ _ _ => .pure trivial
  | print e =>
    have inner : Accepted (R.Meets N) none (Walk.expr context.enclosing Γ e) := accepted
    unfold execStmt
    refine (h.expr stands inner).bind fun v v' hv => ?_
    rw [hv.same, v.text_enclosed, around.config]
    exact Enclosed.print _ _
  | var name initializer => exact h.var_succ stands (defines rfl _) accepted.right
  | block body =>
    unfold execStmt
    refine get_bind fun m m' hm hscope => ?_
    rw [hm.scope, hscope]
    refine (opening stands ⟨.block body, ∅⟩ .empty).bind fun t t' ⟨same, made⟩ => ?_
    exact same ▸ inScope (h.stmts made (by simp) wellFormed accepted)
  | branch condition thenBranch elseBranch =>
    obtain ⟨_, thenFormed, elseFormed⟩ := wellFormed
    unfold execStmt
    refine (h.expr stands accepted.left.left).bind fun v v' hv => ?_
    rw [hv.same, v.alike_enclosed.truthy_eq]
    split
    · exact h.stmt stands thenFormed.1 (fun _ => thenFormed.2) accepted.left.right
    · cases elseBranch with
      | none => exact .pure trivial
      | some other =>
        have inner : Accepted (R.Meets N) none
            (Walk.stmt context (Walk.after Γ thenBranch) other) := accepted.right
        exact h.stmt (stands.after thenBranch) elseFormed.1 (fun _ => elseFormed.2) inner
  | loop condition body =>
    unfold execStmt
    exact h.loop stands wellFormed.2.1 wellFormed.2.2 accepted.left accepted.right
  | function decl => exact function_succ stands (defines rfl _) wellFormed accepted.right
  | ret keyword value =>
    have inner : Accepted (R.Meets N) none (Walk.expr? context.enclosing Γ value) := accepted.right
    unfold execStmt
    exact (h.option stands inner).bind fun _ _ hv => .returned hv
  | classDecl name superclass methods =>
    cases superclass with
    | none => exact class_succ stands (defines rfl _) wellFormed.2.2 accepted.right
    | some e =>
      exact h.subclass_succ stands (defines rfl _) wellFormed.2.2 accepted.left.right
        accepted.right

theorem all (around : R.Surrounds w w') (bound : Nat) : EnclosedSteps R N w w' bound := by
  induction bound with
  | zero => exact zero
  | succ bound ih =>
    exact {
      expr := ih.expr_succ around
      exprs := ih.exprs_succ
      apply := ih.apply_succ around
      invoke := ih.invoke_succ
      stmt := ih.stmt_succ around
      option := ih.option_succ
      stmts := ih.stmts_succ
      loop := ih.loop_succ }

end EnclosedSteps

end LoxLang
