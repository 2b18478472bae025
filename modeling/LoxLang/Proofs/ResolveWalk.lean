import LoxLang.Proofs.ResolveRuns
import LoxLang.Proofs.StaticScopes

/-!
The resolver follows the walk: from scopes with some names it goes to those that the walk leaves
behind, records the distances of the expressions met, and notes the faults, in order.
-/

set_option autoImplicit false
set_option relaxedAutoImplicit false

namespace LoxLang

open Std (TreeMap)

private theorem Distances.record_nil (D : Distances) : D.record [] = D := rfl

theorem Distances.record_append (D : Distances) (notes notes' : List Note) :
    D.record (notes ++ notes') = (D.record notes).record notes' := by
  simp only [record, List.filterMap_append, List.foldl_append]

def StaticStack.scopes (Γ : StaticStack) : List StaticScope := Γ.map StaticFrame.names

namespace Resolve

def Follows (walk : ResolveM Unit) (Γ Γ' : StaticStack) (notes : List Note) : Prop :=
  ∀ D errors, after walk ⟨Γ.scopes, D, errors⟩ =
    ⟨Γ'.scopes, D.record notes, errors ++ notes.filterMap Note.fault?⟩

namespace Follows

variable {Γ Γ₁ Γ₂ : StaticStack} {notes notes' : List Note} {first second walk : ResolveM Unit}

private theorem pure : Follows (pure ()) Γ Γ [] := by
  intro D errors
  simp [after_pure, Distances.record_nil]

private theorem bind (h : Follows first Γ Γ₁ notes) (h' : Follows second Γ₁ Γ₂ notes') :
    Follows (first >>= fun _ => second) Γ Γ₂ (notes ++ notes') := by
  intro D errors
  rw [after_bind, h, h', Distances.record_append, List.filterMap_append, List.append_assoc]

private theorem get {next : ResolveState → ResolveM Unit}
    (h : ∀ s : ResolveState, s.scopes = Γ.scopes → Follows (next s) Γ Γ₁ notes) :
    Follows (get >>= next) Γ Γ₁ notes := by
  intro D errors
  rw [after_get_bind]
  exact h _ rfl D errors

private theorem report (token : Token) (fault : BindingFault) :
    Follows (report token fault) Γ Γ [.fault ⟨token, fault⟩] := fun _ _ => rfl

private theorem mark (name : String) (complete : Bool) :
    Follows (mark name complete) Γ (Γ.mark name complete) [] := by
  intro D errors
  cases Γ with
  | nil => exact congrArg (ResolveState.mk [] D) (List.append_nil errors).symm
  | cons σ Γ => exact congrArg (ResolveState.mk _ D) (List.append_nil errors).symm

private theorem declare (name : Token) :
    Follows (declare name) Γ (Γ.declare name) (Walk.declared Γ name) := by
  refine get fun s same => ?_
  have has : (s.scopes.head?.any (·.contains name.lexeme)) = Γ.has name.lexeme := by
    rw [same]
    cases Γ <;> rfl
  unfold StaticStack.declare Walk.declared
  rw [has]
  split
  · exact report _ _
  · exact mark _ _

private theorem introduce (name : Token) :
    Follows (introduce name) Γ (Γ.introduce name) (Walk.declared Γ name) := by
  have both := (declare (Γ := Γ) name).bind (mark name.lexeme true)
  rw [List.append_nil] at both
  exact both

private theorem introduceAll (names : List Token) :
    Follows (introduceAll names) Γ (Γ.introduceAll names) (Walk.declaredAll names Γ) := by
  induction names generalizing Γ with
  | nil => exact pure
  | cons name names ih => exact (introduce name).bind ih

private theorem inScope (σ : StaticFrame) (fresh : σ.names = ∅) (tail : Γ₁.tail = Γ)
    (h : Follows walk (σ :: Γ) Γ₁ notes) : Follows (inScope walk) Γ Γ notes := by
  intro D errors
  have entered : (∅ : StaticScope) :: Γ.scopes = StaticStack.scopes (σ :: Γ) := by
    rw [← fresh]
    rfl
  have left : Γ₁.scopes.tail = Γ.scopes := by
    rw [StaticStack.scopes, ← List.map_tail, tail]
    rfl
  rw [after_inScope]
  simp only [entered, h D errors, left]

private theorem met {e : Expr} {id : ExprId} {name : Token}
    (refers : e.reference? = some (id, name)) :
    Follows (Resolve.bind id name) Γ Γ [.met e Γ] := by
  intro D errors
  have found : Γ.scopes.findIdx? (·.contains name.lexeme) = Γ.distance? name.lexeme := by
    rw [StaticStack.scopes, List.findIdx?_map]
    rfl
  have binding : Note.binding? (.met e Γ) = (Γ.distance? name.lexeme).map (id, ·) := by
    rw [Note.binding?, refers]
    cases h : Γ.distance? name.lexeme <;> simp [h]
  rw [Resolve.after_record, Distances.record]
  simp only [found, List.filterMap_cons, List.filterMap_nil, binding]
  cases Γ.distance? name.lexeme <;> simp [Note.fault?]

end Follows

variable {Γ : StaticStack}

private theorem read_follows (name : Token) {e : Expr} {id : ExprId}
    (refers : e.reference? = some (id, name)) :
    Follows (do
      if (← get).scopes.head?.any (·[name.lexeme]? = some false) then
        report name .readInInitializer
      bind id name) Γ Γ (Walk.read Γ name ++ [.met e Γ]) := by
  refine Follows.get fun s same => ?_
  have incomplete : s.scopes.head?.any (·[name.lexeme]? = some false) =
      Γ.head?.any (·.names[name.lexeme]? = some false) := by
    rw [same]
    cases Γ <;> rfl
  unfold Walk.read
  rw [incomplete]
  split
  · exact (Follows.report _ _).bind (.met refers)
  · exact Follows.pure.bind (.met refers)

/-! Only the innermost scope changes in a walk, and it stays the same but for its names. -/

private theorem tail_mark (Γ : StaticStack) (name : String) (complete : Bool) :
    (Γ.mark name complete).tail = Γ.tail := by
  cases Γ <;> rfl

private theorem tail_introduce (Γ : StaticStack) (name : Token) :
    (Γ.introduce name).tail = Γ.tail := by
  unfold StaticStack.introduce StaticStack.define StaticStack.declare
  rw [tail_mark]
  split
  · rfl
  · exact tail_mark _ _ _

private theorem tail_introduceAll (names : List Token) (Γ : StaticStack) :
    (Γ.introduceAll names).tail = Γ.tail := by
  induction names generalizing Γ with
  | nil => rfl
  | cons name names ih => exact (ih _).trans (tail_introduce Γ name)

mutual

theorem tail_after : ∀ (Γ : StaticStack) (s : Stmt), (Walk.after Γ s).tail = Γ.tail
  | Γ, .var name _ => tail_introduce Γ name
  | Γ, .function decl => tail_introduce Γ decl.name
  | Γ, .classDecl name _ _ => tail_introduce Γ name
  | Γ, .branch _ thenBranch elseBranch =>
    (tail_after? (Walk.after Γ thenBranch) elseBranch).trans (tail_after Γ thenBranch)
  | Γ, .loop _ body => tail_after Γ body
  | _, .expression _ | _, .print _ | _, .block _ | _, .ret _ _ => rfl

private theorem tail_after? : ∀ (Γ : StaticStack) (s : Option Stmt), (Walk.after? Γ s).tail = Γ.tail
  | _, none => rfl
  | Γ, some s => tail_after Γ s

end

private theorem tail_afterAll (Γ : StaticStack) (ss : List Stmt) :
    (Walk.afterAll Γ ss).tail = Γ.tail := by
  induction ss generalizing Γ with
  | nil => rfl
  | cons s ss ih => exact (ih _).trans (tail_after Γ s)

mutual

private theorem expr_follows (enclosing : ClassContext) :
    ∀ e, Follows (expr enclosing e) Γ Γ (Walk.expr enclosing Γ e)
  | .literal _ => .pure
  | .grouping inner => expr_follows enclosing inner
  | .unary _ operand => expr_follows enclosing operand
  | .binary _ left right | .logical _ left right =>
    (expr_follows enclosing left).bind (expr_follows enclosing right)
  | .variable _ name => read_follows name rfl
  | .assign _ _ value => (expr_follows enclosing value).bind (.met rfl)
  | .call callee _ args => (expr_follows enclosing callee).bind (exprs_follows enclosing args)
  | .get object _ => expr_follows enclosing object
  | .set object _ value => (expr_follows enclosing value).bind (expr_follows enclosing object)
  | .this id keyword => by
    cases enclosing with
    | outside => exact .report _ _
    | plain => exact .met rfl
    | derived => exact .met rfl
  | .super id keyword method => by
    cases enclosing with
    | outside => exact (Follows.report _ _).bind (.met rfl)
    | plain => exact (Follows.report _ _).bind (.met rfl)
    | derived => exact Follows.pure.bind (.met rfl)

private theorem exprs_follows (enclosing : ClassContext) :
    ∀ es, Follows (exprs enclosing es) Γ Γ (Walk.exprs enclosing Γ es)
  | [] => .pure
  | e :: es => (expr_follows enclosing e).bind (exprs_follows enclosing es)

end

private theorem expr?_follows (enclosing : ClassContext) (e : Option Expr) :
    Follows (expr? enclosing e) Γ Γ (Walk.expr? enclosing Γ e) := by
  cases e with
  | none => exact .pure
  | some e => exact expr_follows enclosing e

private theorem checkReturn_follows (context : FunctionContext) (keyword : Token)
    (hasValue : Bool) :
    Follows (checkReturn context keyword hasValue) Γ Γ
      (Walk.returned context keyword hasValue) := by
  unfold checkReturn Walk.returned
  dsimp only
  split
  · refine (Follows.report _ _).bind ?_
    split
    · exact .report _ _
    · exact .pure
  · split
    · exact .report _ _
    · exact .pure

private theorem checkSuperclass_follows (name : Token) (e : Expr) :
    Follows (checkSuperclass name e) Γ Γ (Walk.inherited name e) := by
  unfold checkSuperclass Walk.inherited
  cases e.variableName? with
  | none => exact .pure
  | some superName =>
    dsimp only
    split
    · exact .report _ _
    · exact .pure

private def anyMethod : FunctionDecl := .mk 0 ⟨.identifier, "", 0⟩ [] []

mutual

private theorem stmt_follows (context : BindingContext) : ∀ (Γ : StaticStack) (s : Stmt),
    Follows (stmt context s) Γ (Walk.after Γ s) (Walk.stmt context Γ s)
  | _, .expression e | _, .print e => expr_follows context.enclosing e
  | Γ, .var name initializer => by
    have h := (Follows.declare (Γ := Γ) name).bind
      ((expr?_follows context.enclosing initializer).bind (.mark name.lexeme true))
    rw [List.append_nil] at h
    exact h
  | Γ, .block body =>
    .inScope ⟨.block body, ∅⟩ rfl (tail_afterAll _ body) (stmts_follows context _ body)
  | Γ, .branch condition thenBranch elseBranch => by
    have h := (expr_follows context.enclosing condition).bind
      ((stmt_follows context Γ thenBranch).bind (stmt?_follows context _ elseBranch))
    rw [← List.append_assoc] at h
    exact h
  | Γ, .loop condition body =>
    (expr_follows context.enclosing condition).bind (stmt_follows context Γ body)
  | Γ, .function (.mk site name params body) =>
    (Follows.introduce name).bind
      (function_follows context.enclosing .function _ (.mk site name params body))
  | _, .ret keyword value =>
    (checkReturn_follows context.function keyword value.isSome).bind
      (expr?_follows context.enclosing value)
  | Γ, .classDecl name none methods => by
    have inner := (Follows.mark (Γ := ⟨.receiver anyMethod, ∅⟩ :: Γ.introduce name) "this" true).bind
      (functions_follows .plain (Γ.introduce name) anyMethod methods)
    exact (Follows.introduce name).bind (.inScope _ rfl rfl inner)
  | Γ, .classDecl name (some e) methods => by
    have inner := (Follows.mark
      (Γ := ⟨.receiver anyMethod, ∅⟩ :: (Γ.introduce name).inheriting name methods) "this" true).bind
      (functions_follows .derived ((Γ.introduce name).inheriting name methods) anyMethod methods)
    have outer := (Follows.mark (Γ := ⟨.superclass name methods, ∅⟩ :: Γ.introduce name)
      "super" true).bind (.inScope _ rfl rfl inner)
    have h := (Follows.introduce name).bind ((checkSuperclass_follows name e).bind
      ((expr_follows .derived e).bind (.inScope _ rfl rfl outer)))
    simp only [← List.append_assoc, List.append_nil] at h
    exact h

private theorem stmt?_follows (context : BindingContext) : ∀ (Γ : StaticStack) (s : Option Stmt),
    Follows (stmt? context s) Γ (Walk.after? Γ s) (Walk.stmt? context Γ s)
  | _, none => .pure
  | Γ, some s => stmt_follows context Γ s

private theorem stmts_follows (context : BindingContext) : ∀ (Γ : StaticStack) (ss : List Stmt),
    Follows (stmts context ss) Γ (Walk.afterAll Γ ss) (Walk.stmts context Γ ss)
  | _, [] => .pure
  | Γ, s :: ss => (stmt_follows context Γ s).bind (stmts_follows context _ ss)

private theorem function_follows (enclosing : ClassContext) (context : FunctionContext) :
    ∀ (Γ : StaticStack) (decl : FunctionDecl),
      Follows (function enclosing context decl) Γ Γ (Walk.function enclosing context Γ decl)
  | _, .mk site name params body =>
    .inScope ⟨.call (.mk site name params body), ∅⟩ rfl
      ((tail_afterAll _ body).trans (tail_introduceAll params _))
      ((Follows.introduceAll params).bind (stmts_follows _ _ body))

private theorem functions_follows (enclosing : ClassContext) :
    ∀ (Γ : StaticStack) (method : FunctionDecl) (decls : List FunctionDecl),
      Follows (functions enclosing decls) (Γ.receiving method) (Γ.receiving method)
        (Walk.functions enclosing Γ decls)
  | _, _, [] => .pure
  | Γ, method, .mk site name params body :: decls => by
    have first : Follows (function enclosing (methodContext name.lexeme) (.mk site name params body))
        (Γ.receiving method) (Γ.receiving method) _ :=
      function_follows enclosing _ (Γ.receiving (.mk site name params body)) _
    exact first.bind (functions_follows enclosing Γ method decls)

end

end Resolve

/-- The resolver records the distances of the expressions that the walk meets, and its errors are
the faults of the walk. -/
theorem resolve_eq (D : Distances) (program : List Stmt) :
    resolve D program =
      ⟨D.record (Walk.program program), (Walk.program program).filterMap Note.fault?⟩ := by
  have walk := Resolve.stmts_follows .top [] program D []
  rw [List.nil_append] at walk
  exact congrArg (fun s : ResolveState => Resolved.mk s.distances s.errors) walk

/-- At a program that breaks no rule of binding the walk notes no fault. -/
theorem Walk.not_fault_program {D : Distances} {program : List Stmt}
    (bound : (resolve D program).errors = []) (e : BindingError) :
    .fault e ∉ Walk.program program := by
  intro fault
  have none : (Walk.program program).filterMap Note.fault? = [] :=
    (congrArg Resolved.errors (resolve_eq D program)).symm.trans bound
  exact Option.some_ne_none e (List.filterMap_eq_nil_iff.mp none _ fault)

end LoxLang
