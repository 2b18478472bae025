import LoxLang.Proofs.LaterLines

/-!
Trees whose numbers are changed twice, or once and their lines as well.  Two changes of the numbers
come to one, which is told by the numbers that the tree carries; and it does not matter whether the
numbers or the lines are changed first.
-/

set_option autoImplicit false
set_option relaxedAutoImplicit false

namespace LoxLang

section

variable (f₁ f₂ f : ExprId → ExprId) (g₁ g₂ g : SiteId → SiteId)

def Label.Composes : Label → Prop
  | .expr id => f₂ (f₁ id) = f id
  | .site id => g₂ (g₁ id) = g id

def ComposesOn (ls : List Label) : Prop := ∀ l ∈ ls, l.Composes f₁ f₂ f g₁ g₂ g

end

section

variable {f₁ f₂ f : ExprId → ExprId} {g₁ g₂ g : SiteId → SiteId} (line : Nat → Nat)

private theorem ComposesOn.left {ls ls' : List Label} (h : ComposesOn f₁ f₂ f g₁ g₂ g (ls ++ ls')) :
    ComposesOn f₁ f₂ f g₁ g₂ g ls :=
  fun l hl => h l (List.mem_append_left _ hl)

private theorem ComposesOn.right {ls ls' : List Label}
    (h : ComposesOn f₁ f₂ f g₁ g₂ g (ls ++ ls')) :
    ComposesOn f₁ f₂ f g₁ g₂ g ls' :=
  fun l hl => h l (List.mem_append_right _ hl)

/-- One change behind another one comes to their composition. -/
theorem ComposesOn.comp (f₁ f₂ : ExprId → ExprId) (g₁ g₂ : SiteId → SiteId) (ls : List Label) :
    ComposesOn f₁ f₂ (f₂ ∘ f₁) g₁ g₂ (g₂ ∘ g₁) ls := by
  rintro (_ | _) _ <;> rfl

mutual

private theorem Expr.renumber_reline_renumber : ∀ e : Expr, ComposesOn f₁ f₂ f g₁ g₂ g e.labels →
    ((e.renumber f₁).reline line).renumber f₂ = (e.reline line).renumber f
  | .literal _, _ => rfl
  | .grouping inner, h => congrArg Expr.grouping (renumber_reline_renumber inner h)
  | .unary _ operand, h => congrArg (Expr.unary _) (renumber_reline_renumber operand h)
  | .binary _ left right, h =>
    congrArg₂ (Expr.binary _) (renumber_reline_renumber left h.left)
      (renumber_reline_renumber right h.right)
  | .logical _ left right, h =>
    congrArg₂ (Expr.logical _) (renumber_reline_renumber left h.left)
      (renumber_reline_renumber right h.right)
  | .variable _ _, h => congrArg (Expr.variable · _) (h _ List.mem_cons_self)
  | .assign _ _ value, h =>
    congrArg₂ (Expr.assign · _ ·) (h.right _ List.mem_cons_self)
      (renumber_reline_renumber value h.left)
  | .call callee _ args, h =>
    congrArg₂ (Expr.call · _ ·) (renumber_reline_renumber callee h.left)
      (renumberAll_relineAll_renumberAll args h.right)
  | .get object _, h => congrArg (Expr.get · _) (renumber_reline_renumber object h)
  | .set object _ value, h =>
    congrArg₂ (Expr.set · _ ·) (renumber_reline_renumber object h.left)
      (renumber_reline_renumber value h.right)
  | .this _ _, h => congrArg (Expr.this · _) (h _ List.mem_cons_self)
  | .super _ _ _, h => congrArg (Expr.super · _ _) (h _ List.mem_cons_self)

private theorem Expr.renumberAll_relineAll_renumberAll : ∀ es : List Expr,
    ComposesOn f₁ f₂ f g₁ g₂ g (Expr.labelsAll es) →
    Expr.renumberAll f₂ (Expr.relineAll line (Expr.renumberAll f₁ es)) =
      Expr.renumberAll f (Expr.relineAll line es)
  | [], _ => rfl
  | e :: es, h =>
    congrArg₂ List.cons (Expr.renumber_reline_renumber e h.left)
      (Expr.renumberAll_relineAll_renumberAll es h.right)

end

private theorem Expr.map_renumber_reline_renumber (e : Option Expr)
    (h : ComposesOn f₁ f₂ f g₁ g₂ g (Expr.labelsOption e)) :
    ((e.map (Expr.renumber f₁)).map (Expr.reline line)).map (Expr.renumber f₂) =
      (e.map (Expr.reline line)).map (Expr.renumber f) := by
  cases e with
  | none => rfl
  | some e => exact congrArg some (e.renumber_reline_renumber line h)

mutual

private theorem FunctionDecl.renumber_reline_renumber : ∀ decl : FunctionDecl,
    ComposesOn f₁ f₂ f g₁ g₂ g decl.labels →
    ((decl.renumber f₁ g₁).reline line).renumber f₂ g₂ = (decl.reline line).renumber f g
  | .mk site _ params body, h =>
    congrArg₂ (FunctionDecl.mk · _ (params.map (Token.reline line)) ·)
      (h.right (.site site) List.mem_cons_self)
      (Stmt.renumberAll_relineAll_renumberAll body h.left)

private theorem FunctionDecl.renumberAll_relineAll_renumberAll : ∀ decls : List FunctionDecl,
    ComposesOn f₁ f₂ f g₁ g₂ g (FunctionDecl.labelsAll decls) →
    FunctionDecl.renumberAll f₂ g₂
        (FunctionDecl.relineAll line (FunctionDecl.renumberAll f₁ g₁ decls)) =
      FunctionDecl.renumberAll f g (FunctionDecl.relineAll line decls)
  | [], _ => rfl
  | decl :: decls, h =>
    congrArg₂ List.cons (FunctionDecl.renumber_reline_renumber decl h.left)
      (FunctionDecl.renumberAll_relineAll_renumberAll decls h.right)

private theorem Stmt.renumber_reline_renumber : ∀ s : Stmt, ComposesOn f₁ f₂ f g₁ g₂ g s.labels →
    ((s.renumber f₁ g₁).reline line).renumber f₂ g₂ = (s.reline line).renumber f g
  | .expression e, h => congrArg Stmt.expression (e.renumber_reline_renumber line h)
  | .print e, h => congrArg Stmt.print (e.renumber_reline_renumber line h)
  | .var _ initializer, h =>
    congrArg (Stmt.var _) (Expr.map_renumber_reline_renumber line initializer h)
  | .block body, h => congrArg Stmt.block (Stmt.renumberAll_relineAll_renumberAll body h)
  | .branch condition thenBranch elseBranch, h => by
    have first := condition.renumber_reline_renumber line h.left.left
    have second := Stmt.renumber_reline_renumber thenBranch h.left.right
    have third := Stmt.renumberOption_relineOption_renumberOption elseBranch h.right
    simp only [Stmt.renumber, Stmt.reline, first, second, third]
  | .loop condition body, h =>
    congrArg₂ Stmt.loop (condition.renumber_reline_renumber line h.left)
      (Stmt.renumber_reline_renumber body h.right)
  | .function decl, h => congrArg Stmt.function (FunctionDecl.renumber_reline_renumber decl h)
  | .ret _ value, h => congrArg (Stmt.ret _) (Expr.map_renumber_reline_renumber line value h)
  | .classDecl _ superclass methods, h =>
    congrArg₂ (Stmt.classDecl _) (Expr.map_renumber_reline_renumber line superclass h.left)
      (FunctionDecl.renumberAll_relineAll_renumberAll methods h.right)

private theorem Stmt.renumberOption_relineOption_renumberOption : ∀ s : Option Stmt,
    ComposesOn f₁ f₂ f g₁ g₂ g (Stmt.labelsOption s) →
    Stmt.renumberOption f₂ g₂ (Stmt.relineOption line (Stmt.renumberOption f₁ g₁ s)) =
      Stmt.renumberOption f g (Stmt.relineOption line s)
  | none, _ => rfl
  | some s, h => congrArg some (Stmt.renumber_reline_renumber s h)

private theorem Stmt.renumberAll_relineAll_renumberAll : ∀ ss : List Stmt,
    ComposesOn f₁ f₂ f g₁ g₂ g (Stmt.labelsAll ss) →
    Stmt.renumberAll f₂ g₂ (Stmt.relineAll line (Stmt.renumberAll f₁ g₁ ss)) =
      Stmt.renumberAll f g (Stmt.relineAll line ss)
  | [], _ => rfl
  | s :: ss, h =>
    congrArg₂ List.cons (Stmt.renumber_reline_renumber s h.left)
      (Stmt.renumberAll_relineAll_renumberAll ss h.right)

end

theorem FunctionDecl.renumber_renumber (decl : FunctionDecl)
    (h : ComposesOn f₁ f₂ f g₁ g₂ g decl.labels) :
    (decl.renumber f₁ g₁).renumber f₂ g₂ = decl.renumber f g := by
  have both := decl.renumber_reline_renumber id h
  rwa [reline_id, reline_id] at both

theorem Stmt.relineAll_renumberAll (f : ExprId → ExprId) (g : SiteId → SiteId) (ss : List Stmt) :
    Stmt.relineAll line (Stmt.renumberAll f g ss) =
      Stmt.renumberAll f g (Stmt.relineAll line ss) := by
  have both := Stmt.renumberAll_relineAll_renumberAll line ss
    (ComposesOn.comp f id g id _)
  rwa [Stmt.renumberAll_id] at both

theorem Stmt.renumberAll_congr {ss : List Stmt}
    (h : ComposesOn id f₁ f id g₁ g (Stmt.labelsAll ss)) :
    Stmt.renumberAll f₁ g₁ ss = Stmt.renumberAll f g ss := by
  have same := Stmt.renumberAll_relineAll_renumberAll id ss h
  rwa [renumberAll_id, relineAll_id] at same

end

end LoxLang
