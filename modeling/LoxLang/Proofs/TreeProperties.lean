import LoxLang.Proofs.Numbering
import Mathlib.Data.List.Nodup

/-!
Properties of trees that all parts of a tree have with it.  Whatever is executed of a tree, and
whatever functions are made from it, has such a property as well.  One of them is that no two parts
of a tree carry the same number.
-/

set_option autoImplicit false
set_option relaxedAutoImplicit false

namespace LoxLang

def Expr.inner : Expr → List Expr
  | .literal _ | .variable _ _ | .this _ _ | .super _ _ _ => []
  | .grouping e | .unary _ e | .assign _ _ e | .get e _ => [e]
  | .binary _ left right | .logical _ left right => [left, right]
  | .call callee _ args => callee :: args
  | .set object _ value => [object, value]

def Stmt.exprs : Stmt → List Expr
  | .expression e | .print e => [e]
  | .var _ e | .ret _ e | .classDecl _ e _ => e.toList
  | .branch condition _ _ | .loop condition _ => [condition]
  | .block _ | .function _ => []

def Stmt.inner : Stmt → List Stmt
  | .branch _ thenBranch elseBranch => thenBranch :: elseBranch.toList
  | .loop _ body => [body]
  | _ => []

def Stmt.decls : Stmt → List FunctionDecl
  | .function decl => [decl]
  | .classDecl _ _ methods => methods
  | _ => []

/-- A property of trees that all parts of a tree have with it. -/
structure TreeProperty where
  expr : Expr → Prop
  stmt : Stmt → Prop
  stmts : List Stmt → Prop
  decl : FunctionDecl → Prop
  inner : ∀ {e}, expr e → ∀ e' ∈ e.inner, expr e'
  exprs : ∀ {s}, stmt s → ∀ e ∈ s.exprs, expr e
  parts : ∀ {s}, stmt s → ∀ s' ∈ s.inner, stmt s'
  decls : ∀ {s}, stmt s → ∀ d ∈ s.decls, decl d
  block : ∀ {body}, stmt (.block body) → stmts body
  body : ∀ {d}, decl d → stmts d.body
  nil : stmts []
  cons : ∀ {s ss}, stmts (s :: ss) → stmt s ∧ stmts ss

/-- Nothing is asked of trees. -/
def TreeProperty.any : TreeProperty where
  expr _ := True
  stmt _ := True
  stmts _ := True
  decl _ := True
  inner _ _ _ := trivial
  exprs _ _ _ := trivial
  parts _ _ _ := trivial
  decls _ _ _ := trivial
  block _ := trivial
  body _ := trivial
  nil := trivial
  cons _ := ⟨trivial, trivial⟩

/-! Properties of every expression and every statement. -/

def Stmt.within : Stmt → List Stmt
  | .expression _ | .print _ | .var _ _ | .ret _ _ => []
  | .block body => body
  | .branch _ thenBranch elseBranch => thenBranch :: elseBranch.toList
  | .loop _ body => [body]
  | .function decl => decl.body
  | .classDecl _ _ methods => methods.flatMap FunctionDecl.body

/-- An expression with a property that all expressions inside of it have with it. -/
inductive Expr.Everywhere (P : Expr → Prop) : Expr → Prop where
  | intro {e : Expr} : P e → (∀ e' ∈ e.inner, Expr.Everywhere P e') → Expr.Everywhere P e

/-- A statement with a property that all statements inside of it have with it, while all expressions
inside of it have another one. -/
inductive Stmt.Everywhere (P : Expr → Prop) (Q : Stmt → Prop) : Stmt → Prop where
  | intro {s : Stmt} : Q s → (∀ e ∈ s.exprs, e.Everywhere P) →
    (∀ s' ∈ s.within, Stmt.Everywhere P Q s') → Stmt.Everywhere P Q s

section

variable {P : Expr → Prop} {Q : Stmt → Prop}

theorem Expr.Everywhere.here {e : Expr} : e.Everywhere P → P e
  | .intro here _ => here

private theorem Expr.Everywhere.inner {e : Expr} : e.Everywhere P → ∀ e' ∈ e.inner, e'.Everywhere P
  | .intro _ inner => inner

private theorem Stmt.Everywhere.exprs {s : Stmt} : s.Everywhere P Q → ∀ e ∈ s.exprs, e.Everywhere P
  | .intro _ exprs _ => exprs

private theorem Stmt.Everywhere.within {s : Stmt} :
    s.Everywhere P Q → ∀ s' ∈ s.within, s'.Everywhere P Q
  | .intro _ _ within => within

end

private theorem Stmt.inner_subset_within (s : Stmt) : s.inner ⊆ s.within := by
  cases s with
  | branch _ _ _ | loop _ _ => exact List.Subset.refl _
  | _ => exact List.nil_subset _

private theorem Stmt.body_subset_within {s : Stmt} {d : FunctionDecl} (part : d ∈ s.decls) :
    d.body ⊆ s.within := by
  cases s with
  | function decl =>
    obtain rfl := List.mem_singleton.mp part
    exact List.Subset.refl _
  | classDecl name superclass methods =>
    intro s' member
    exact List.mem_flatMap.mpr ⟨d, part, member⟩
  | _ => cases part

def TreeProperty.everywhere (P : Expr → Prop) (Q : Stmt → Prop) : TreeProperty where
  expr := Expr.Everywhere P
  stmt := Stmt.Everywhere P Q
  stmts ss := ∀ s ∈ ss, s.Everywhere P Q
  decl d := ∀ s ∈ d.body, s.Everywhere P Q
  inner h := h.inner
  exprs h := h.exprs
  parts h s' part := h.within s' (Stmt.inner_subset_within _ part)
  decls h _ part s' member := h.within s' (Stmt.body_subset_within part member)
  block h := h.within
  body h := h
  nil := List.forall_mem_nil _
  cons := List.forall_mem_cons.mp

/-! Distinct numbers. -/

theorem FunctionDecl.labels_eq (d : FunctionDecl) :
    d.labels = Stmt.labelsAll d.body ++ [.site d.site] := by
  cases d
  rfl

private theorem FunctionDecl.labels_sublist {d : FunctionDecl} {ds : List FunctionDecl}
    (member : d ∈ ds) :
    d.labels.Sublist (FunctionDecl.labelsAll ds) := by
  induction ds with
  | nil => cases member
  | cons d' ds ih =>
    rcases List.mem_cons.mp member with rfl | later
    · exact List.sublist_append_left _ _
    · exact (ih later).trans (List.sublist_append_right _ _)

private theorem Stmt.inner_labels {s s' : Stmt} (part : s' ∈ s.inner) :
    s'.labels.Sublist s.labels := by
  cases s with
  | branch condition thenBranch elseBranch =>
    rcases List.mem_cons.mp part with rfl | member
    · exact (List.sublist_append_right _ _).trans (List.sublist_append_left _ _)
    · obtain rfl := Option.mem_toList.mp member
      exact List.sublist_append_right _ _
  | loop condition body =>
    obtain rfl := List.mem_singleton.mp part
    exact List.sublist_append_right _ _
  | _ => cases part

private theorem Stmt.decls_labels {s : Stmt} {d : FunctionDecl} (part : d ∈ s.decls) :
    d.labels.Sublist s.labels := by
  cases s with
  | function decl =>
    obtain rfl := List.mem_singleton.mp part
    exact List.Sublist.refl _
  | classDecl name superclass methods =>
    exact (FunctionDecl.labels_sublist part).trans (List.sublist_append_right _ _)
  | _ => cases part

def TreeProperty.distinct : TreeProperty where
  expr _ := True
  stmt s := s.labels.Nodup
  stmts ss := (Stmt.labelsAll ss).Nodup
  decl d := d.labels.Nodup
  inner _ _ _ := trivial
  exprs _ _ _ := trivial
  parts h _ part := h.sublist (Stmt.inner_labels part)
  decls h _ part := h.sublist (Stmt.decls_labels part)
  block h := h
  body h := (FunctionDecl.labels_eq _ ▸ h).of_append_left
  nil := List.nodup_nil
  cons h := ⟨h.of_append_left, h.of_append_right⟩

end LoxLang
