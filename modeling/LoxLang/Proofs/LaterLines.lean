import LoxLang.Proofs.RelinedTrees

/-!
Tokens and trees further down in a text: the line of every token is greater by some count, and
nothing else differs.
-/

set_option autoImplicit false
set_option relaxedAutoImplicit false

namespace LoxLang

/-- A token some lines further down. -/
def Token.later (k : Nat) (t : Token) : Token := { t with line := t.line + k }

section

variable (k : Nat)

mutual

def Expr.later : Expr → Expr
  | .literal v => .literal v
  | .grouping inner => .grouping inner.later
  | .unary operator operand => .unary (operator.later k) operand.later
  | .binary operator left right => .binary (operator.later k) left.later right.later
  | .logical operator left right => .logical (operator.later k) left.later right.later
  | .variable id name => .variable id (name.later k)
  | .assign id name value => .assign id (name.later k) value.later
  | .call callee paren args => .call callee.later (paren.later k) (Expr.laterAll args)
  | .get object name => .get object.later (name.later k)
  | .set object name value => .set object.later (name.later k) value.later
  | .this id keyword => .this id (keyword.later k)
  | .super id keyword method => .super id (keyword.later k) (method.later k)

def Expr.laterAll : List Expr → List Expr
  | [] => []
  | e :: es => e.later :: Expr.laterAll es

end

mutual

def FunctionDecl.later : FunctionDecl → FunctionDecl
  | .mk site name params body =>
    .mk site (name.later k) (params.map (Token.later k)) (Stmt.laterAll body)

def FunctionDecl.laterAll : List FunctionDecl → List FunctionDecl
  | [] => []
  | decl :: decls => decl.later :: FunctionDecl.laterAll decls

def Stmt.later : Stmt → Stmt
  | .expression e => .expression (e.later k)
  | .print e => .print (e.later k)
  | .var name initializer => .var (name.later k) (initializer.map (Expr.later k))
  | .block body => .block (Stmt.laterAll body)
  | .branch condition thenBranch elseBranch =>
    .branch (condition.later k) thenBranch.later (Stmt.laterOption elseBranch)
  | .loop condition body => .loop (condition.later k) body.later
  | .function decl => .function decl.later
  | .ret keyword value => .ret (keyword.later k) (value.map (Expr.later k))
  | .classDecl name superclass methods =>
    .classDecl (name.later k) (superclass.map (Expr.later k)) (FunctionDecl.laterAll methods)

def Stmt.laterOption : Option Stmt → Option Stmt
  | none => none
  | some s => some s.later

def Stmt.laterAll : List Stmt → List Stmt
  | [] => []
  | s :: ss => s.later :: Stmt.laterAll ss

end

end

@[simp] theorem Token.later_kind (k : Nat) (t : Token) : (t.later k).kind = t.kind := rfl

@[simp] theorem Token.later_lexeme (k : Nat) (t : Token) : (t.later k).lexeme = t.lexeme := rfl

/-! Some lines further down a tree is on other lines. -/

section

variable (k : Nat)

mutual

private theorem Expr.later_eq : ∀ e : Expr, e.later k = e.reline (· + k)
  | .literal _ => rfl
  | .grouping inner => congrArg Expr.grouping (later_eq inner)
  | .unary operator operand => congrArg (Expr.unary (operator.later k)) (later_eq operand)
  | .binary operator left right =>
    congrArg₂ (Expr.binary (operator.later k)) (later_eq left) (later_eq right)
  | .logical operator left right =>
    congrArg₂ (Expr.logical (operator.later k)) (later_eq left) (later_eq right)
  | .variable _ _ | .this _ _ | .super _ _ _ => rfl
  | .assign id name value => congrArg (Expr.assign id (name.later k)) (later_eq value)
  | .call callee paren args =>
    congrArg₂ (Expr.call · (paren.later k) ·) (later_eq callee) (laterAll_eq args)
  | .get object name => congrArg (Expr.get · (name.later k)) (later_eq object)
  | .set object name value =>
    congrArg₂ (Expr.set · (name.later k) ·) (later_eq object) (later_eq value)

private theorem Expr.laterAll_eq : ∀ es : List Expr, Expr.laterAll k es = Expr.relineAll (· + k) es
  | [] => rfl
  | e :: es => congrArg₂ List.cons (Expr.later_eq e) (Expr.laterAll_eq es)

end

private theorem Expr.map_later_eq (e : Option Expr) :
    e.map (Expr.later k) = e.map (Expr.reline (· + k)) := by
  cases e with
  | none => rfl
  | some e => exact congrArg some (e.later_eq k)

mutual

private theorem FunctionDecl.later_eq : ∀ decl : FunctionDecl, decl.later k = decl.reline (· + k)
  | .mk site _ _ body => congrArg (FunctionDecl.mk site _ _) (Stmt.laterAll_eq body)

private theorem FunctionDecl.laterAll_eq : ∀ decls : List FunctionDecl,
    FunctionDecl.laterAll k decls = FunctionDecl.relineAll (· + k) decls
  | [] => rfl
  | decl :: decls =>
    congrArg₂ List.cons (FunctionDecl.later_eq decl) (FunctionDecl.laterAll_eq decls)

private theorem Stmt.later_eq : ∀ s : Stmt, s.later k = s.reline (· + k)
  | .expression e => congrArg Stmt.expression (e.later_eq k)
  | .print e => congrArg Stmt.print (e.later_eq k)
  | .var name initializer =>
    congrArg (Stmt.var (name.later k)) (Expr.map_later_eq k initializer)
  | .block body => congrArg Stmt.block (Stmt.laterAll_eq body)
  | .branch condition thenBranch elseBranch => by
    rw [Stmt.later, Stmt.reline, condition.later_eq, Stmt.later_eq thenBranch,
      Stmt.laterOption_eq elseBranch]
  | .loop condition body => congrArg₂ Stmt.loop (condition.later_eq k) (Stmt.later_eq body)
  | .function decl => congrArg Stmt.function (FunctionDecl.later_eq decl)
  | .ret keyword value => congrArg (Stmt.ret (keyword.later k)) (Expr.map_later_eq k value)
  | .classDecl name superclass methods =>
    congrArg₂ (Stmt.classDecl (name.later k)) (Expr.map_later_eq k superclass)
      (FunctionDecl.laterAll_eq methods)

private theorem Stmt.laterOption_eq : ∀ s : Option Stmt,
    Stmt.laterOption k s = Stmt.relineOption (· + k) s
  | none => rfl
  | some s => congrArg some (Stmt.later_eq s)

theorem Stmt.laterAll_eq : ∀ ss : List Stmt, Stmt.laterAll k ss = Stmt.relineAll (· + k) ss
  | [] => rfl
  | s :: ss => congrArg₂ List.cons (Stmt.later_eq s) (Stmt.laterAll_eq ss)

end

end

/-! A tree no lines further down is the same. -/

theorem Token.later_zero (t : Token) : t.later 0 = t := rfl

theorem Token.later_zero_eq_id : Token.later 0 = id := rfl

theorem Expr.later_zero (e : Expr) : e.later 0 = e := (e.later_eq 0).trans e.reline_id

theorem FunctionDecl.later_zero (decl : FunctionDecl) : decl.later 0 = decl :=
  (decl.later_eq 0).trans decl.reline_id

theorem Stmt.later_zero (s : Stmt) : s.later 0 = s := (s.later_eq 0).trans s.reline_id

theorem Stmt.laterAll_zero (ss : List Stmt) : Stmt.laterAll 0 ss = ss :=
  (Stmt.laterAll_eq 0 ss).trans (Stmt.relineAll_id ss)

/-! A tree with the numbers it has is the same. -/

mutual

theorem Expr.renumber_id : ∀ e : Expr, e.renumber id = e
  | .literal _ => rfl
  | .grouping inner => congrArg Expr.grouping (renumber_id inner)
  | .unary operator operand => congrArg (Expr.unary operator) (renumber_id operand)
  | .binary operator left right =>
    congrArg₂ (Expr.binary operator) (renumber_id left) (renumber_id right)
  | .logical operator left right =>
    congrArg₂ (Expr.logical operator) (renumber_id left) (renumber_id right)
  | .variable _ _ | .this _ _ | .super _ _ _ => rfl
  | .assign id name value => congrArg (Expr.assign id name) (renumber_id value)
  | .call callee paren args =>
    congrArg₂ (Expr.call · paren ·) (renumber_id callee) (renumberAll_id args)
  | .get object name => congrArg (Expr.get · name) (renumber_id object)
  | .set object name value =>
    congrArg₂ (Expr.set · name ·) (renumber_id object) (renumber_id value)

private theorem Expr.renumberAll_id : ∀ es : List Expr, Expr.renumberAll id es = es
  | [] => rfl
  | e :: es => congrArg₂ List.cons (Expr.renumber_id e) (Expr.renumberAll_id es)

end

private theorem Expr.map_renumber_id (e : Option Expr) : e.map (Expr.renumber id) = e := by
  cases e with
  | none => rfl
  | some e => exact congrArg some e.renumber_id

mutual

theorem FunctionDecl.renumber_id : ∀ decl : FunctionDecl, decl.renumber id id = decl
  | .mk site name params body =>
    congrArg (FunctionDecl.mk site name params) (Stmt.renumberAll_id body)

private theorem FunctionDecl.renumberAll_id : ∀ decls : List FunctionDecl,
    FunctionDecl.renumberAll id id decls = decls
  | [] => rfl
  | decl :: decls =>
    congrArg₂ List.cons (FunctionDecl.renumber_id decl) (FunctionDecl.renumberAll_id decls)

private theorem Stmt.renumber_id : ∀ s : Stmt, s.renumber id id = s
  | .expression e => congrArg Stmt.expression e.renumber_id
  | .print e => congrArg Stmt.print e.renumber_id
  | .var name initializer => congrArg (Stmt.var name) (Expr.map_renumber_id initializer)
  | .block body => congrArg Stmt.block (Stmt.renumberAll_id body)
  | .branch condition thenBranch elseBranch => by
    rw [Stmt.renumber, condition.renumber_id, Stmt.renumber_id thenBranch,
      Stmt.renumberOption_id elseBranch]
  | .loop condition body =>
    congrArg₂ Stmt.loop condition.renumber_id (Stmt.renumber_id body)
  | .function decl => congrArg Stmt.function (FunctionDecl.renumber_id decl)
  | .ret keyword value => congrArg (Stmt.ret keyword) (Expr.map_renumber_id value)
  | .classDecl name superclass methods =>
    congrArg₂ (Stmt.classDecl name) (Expr.map_renumber_id superclass)
      (FunctionDecl.renumberAll_id methods)

private theorem Stmt.renumberOption_id : ∀ s : Option Stmt, Stmt.renumberOption id id s = s
  | none => rfl
  | some s => congrArg some (Stmt.renumber_id s)

theorem Stmt.renumberAll_id : ∀ ss : List Stmt, Stmt.renumberAll id id ss = ss
  | [] => rfl
  | s :: ss => congrArg₂ List.cons (Stmt.renumber_id s) (Stmt.renumberAll_id ss)

end

end LoxLang
