import LoxLang.Proofs.Numbering
import Mathlib.Logic.Basic

/-!
Tokens and trees on other lines: a function tells for every line which one takes its place, and
nothing else differs.  Trees that come to be the same once all lines are taken for one differ in
nothing but the layout of their texts.
-/

set_option autoImplicit false
set_option relaxedAutoImplicit false

namespace LoxLang

/-- All lines are taken for one. -/
def oneLine : Nat → Nat := fun _ => 0

def Token.reline (f : Nat → Nat) (t : Token) : Token := { t with line := f t.line }

section

variable (f : Nat → Nat)

mutual

def Expr.reline : Expr → Expr
  | .literal v => .literal v
  | .grouping inner => .grouping inner.reline
  | .unary operator operand => .unary (operator.reline f) operand.reline
  | .binary operator left right => .binary (operator.reline f) left.reline right.reline
  | .logical operator left right => .logical (operator.reline f) left.reline right.reline
  | .variable id name => .variable id (name.reline f)
  | .assign id name value => .assign id (name.reline f) value.reline
  | .call callee paren args => .call callee.reline (paren.reline f) (Expr.relineAll args)
  | .get object name => .get object.reline (name.reline f)
  | .set object name value => .set object.reline (name.reline f) value.reline
  | .this id keyword => .this id (keyword.reline f)
  | .super id keyword method => .super id (keyword.reline f) (method.reline f)

def Expr.relineAll : List Expr → List Expr
  | [] => []
  | e :: es => e.reline :: Expr.relineAll es

end

mutual

def FunctionDecl.reline : FunctionDecl → FunctionDecl
  | .mk site name params body =>
    .mk site (name.reline f) (params.map (Token.reline f)) (Stmt.relineAll body)

def FunctionDecl.relineAll : List FunctionDecl → List FunctionDecl
  | [] => []
  | decl :: decls => decl.reline :: FunctionDecl.relineAll decls

def Stmt.reline : Stmt → Stmt
  | .expression e => .expression (e.reline f)
  | .print e => .print (e.reline f)
  | .var name initializer => .var (name.reline f) (initializer.map (Expr.reline f))
  | .block body => .block (Stmt.relineAll body)
  | .branch condition thenBranch elseBranch =>
    .branch (condition.reline f) thenBranch.reline (Stmt.relineOption elseBranch)
  | .loop condition body => .loop (condition.reline f) body.reline
  | .function decl => .function decl.reline
  | .ret keyword value => .ret (keyword.reline f) (value.map (Expr.reline f))
  | .classDecl name superclass methods =>
    .classDecl (name.reline f) (superclass.map (Expr.reline f)) (FunctionDecl.relineAll methods)

def Stmt.relineOption : Option Stmt → Option Stmt
  | none => none
  | some s => some s.reline

def Stmt.relineAll : List Stmt → List Stmt
  | [] => []
  | s :: ss => s.reline :: Stmt.relineAll ss

end

end

/-- A kind of tree whose lines can be changed. -/
class Relinable (α : Type) where
  reline : (Nat → Nat) → α → α

instance : Relinable Expr := ⟨Expr.reline⟩
instance : Relinable (List Expr) := ⟨Expr.relineAll⟩
instance : Relinable (Option Expr) := ⟨fun f => Option.map (Expr.reline f)⟩
instance : Relinable Stmt := ⟨Stmt.reline⟩
instance : Relinable (Option Stmt) := ⟨Stmt.relineOption⟩
instance : Relinable (List Stmt) := ⟨Stmt.relineAll⟩
instance : Relinable FunctionDecl := ⟨FunctionDecl.reline⟩
instance : Relinable (List FunctionDecl) := ⟨FunctionDecl.relineAll⟩

def relined {α : Type} [Relinable α] (f : Nat → Nat) (a : α) : α := Relinable.reline f a

@[simp] theorem Token.reline_kind (f : Nat → Nat) (t : Token) : (t.reline f).kind = t.kind := rfl

@[simp] theorem Token.reline_lexeme (f : Nat → Nat) (t : Token) :
    (t.reline f).lexeme = t.lexeme := rfl

/-! A tree on its own lines is the same. -/

theorem Token.reline_id (t : Token) : t.reline id = t := rfl

theorem Token.reline_id_eq_id : Token.reline id = id := rfl

mutual

theorem Expr.reline_id : ∀ e : Expr, e.reline id = e
  | .literal _ => rfl
  | .grouping inner => congrArg Expr.grouping (reline_id inner)
  | .unary operator operand => congrArg (Expr.unary operator) (reline_id operand)
  | .binary operator left right =>
    congrArg₂ (Expr.binary operator) (reline_id left) (reline_id right)
  | .logical operator left right =>
    congrArg₂ (Expr.logical operator) (reline_id left) (reline_id right)
  | .variable _ _ | .this _ _ | .super _ _ _ => rfl
  | .assign id name value => congrArg (Expr.assign id name) (reline_id value)
  | .call callee paren args =>
    congrArg₂ (Expr.call · paren ·) (reline_id callee) (relineAll_id args)
  | .get object name => congrArg (Expr.get · name) (reline_id object)
  | .set object name value =>
    congrArg₂ (Expr.set · name ·) (reline_id object) (reline_id value)

private theorem Expr.relineAll_id : ∀ es : List Expr, Expr.relineAll id es = es
  | [] => rfl
  | e :: es => congrArg₂ List.cons (Expr.reline_id e) (Expr.relineAll_id es)

end

private theorem Expr.map_reline_id (e : Option Expr) : e.map (Expr.reline id) = e := by
  cases e with
  | none => rfl
  | some e => exact congrArg some e.reline_id

mutual

theorem FunctionDecl.reline_id : ∀ decl : FunctionDecl, decl.reline id = decl
  | .mk site name params body => by
    rw [FunctionDecl.reline, Stmt.relineAll_id body, Token.reline_id, Token.reline_id_eq_id,
      List.map_id]

private theorem FunctionDecl.relineAll_id : ∀ decls : List FunctionDecl,
    FunctionDecl.relineAll id decls = decls
  | [] => rfl
  | decl :: decls =>
    congrArg₂ List.cons (FunctionDecl.reline_id decl) (FunctionDecl.relineAll_id decls)

theorem Stmt.reline_id : ∀ s : Stmt, s.reline id = s
  | .expression e => congrArg Stmt.expression e.reline_id
  | .print e => congrArg Stmt.print e.reline_id
  | .var name initializer => congrArg (Stmt.var name) (Expr.map_reline_id initializer)
  | .block body => congrArg Stmt.block (Stmt.relineAll_id body)
  | .branch condition thenBranch elseBranch => by
    rw [Stmt.reline, condition.reline_id, Stmt.reline_id thenBranch,
      Stmt.relineOption_id elseBranch]
  | .loop condition body => congrArg₂ Stmt.loop condition.reline_id (Stmt.reline_id body)
  | .function decl => congrArg Stmt.function (FunctionDecl.reline_id decl)
  | .ret keyword value => congrArg (Stmt.ret keyword) (Expr.map_reline_id value)
  | .classDecl name superclass methods =>
    congrArg₂ (Stmt.classDecl name) (Expr.map_reline_id superclass)
      (FunctionDecl.relineAll_id methods)

private theorem Stmt.relineOption_id : ∀ s : Option Stmt, Stmt.relineOption id s = s
  | none => rfl
  | some s => congrArg some (Stmt.reline_id s)

theorem Stmt.relineAll_id : ∀ ss : List Stmt, Stmt.relineAll id ss = ss
  | [] => rfl
  | s :: ss => congrArg₂ List.cons (Stmt.reline_id s) (Stmt.relineAll_id ss)

end

end LoxLang
