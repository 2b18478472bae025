import LoxLang.Parse

/-!
The numbers that a tree carries.  Trees that differ in nothing else agree once all numbers are
erased; a tree is numbered between two marks when its numbers are distinct and lie between them.
-/

set_option autoImplicit false
set_option relaxedAutoImplicit false

namespace LoxLang

mutual

/-- An expression with other numbers. -/
def Expr.renumber (f : ExprId → ExprId) : Expr → Expr
  | .literal v => .literal v
  | .grouping inner => .grouping (inner.renumber f)
  | .unary operator operand => .unary operator (operand.renumber f)
  | .binary operator left right => .binary operator (left.renumber f) (right.renumber f)
  | .logical operator left right => .logical operator (left.renumber f) (right.renumber f)
  | .variable id name => .variable (f id) name
  | .assign id name value => .assign (f id) name (value.renumber f)
  | .call callee paren args => .call (callee.renumber f) paren (Expr.renumberAll f args)
  | .get object name => .get (object.renumber f) name
  | .set object name value => .set (object.renumber f) name (value.renumber f)
  | .this id keyword => .this (f id) keyword
  | .super id keyword method => .super (f id) keyword method

def Expr.renumberAll (f : ExprId → ExprId) : List Expr → List Expr
  | [] => []
  | e :: es => e.renumber f :: Expr.renumberAll f es

end

section

variable (f : ExprId → ExprId) (g : SiteId → SiteId)

mutual

def FunctionDecl.renumber : FunctionDecl → FunctionDecl
  | .mk site name params body => .mk (g site) name params (Stmt.renumberAll body)

def FunctionDecl.renumberAll : List FunctionDecl → List FunctionDecl
  | [] => []
  | decl :: decls => decl.renumber :: FunctionDecl.renumberAll decls

def Stmt.renumber : Stmt → Stmt
  | .expression e => .expression (e.renumber f)
  | .print e => .print (e.renumber f)
  | .var name initializer => .var name (initializer.map (Expr.renumber f))
  | .block body => .block (Stmt.renumberAll body)
  | .branch condition thenBranch elseBranch =>
    .branch (condition.renumber f) thenBranch.renumber (Stmt.renumberOption elseBranch)
  | .loop condition body => .loop (condition.renumber f) body.renumber
  | .function decl => .function decl.renumber
  | .ret keyword value => .ret keyword (value.map (Expr.renumber f))
  | .classDecl name superclass methods =>
    .classDecl name (superclass.map (Expr.renumber f)) (FunctionDecl.renumberAll methods)

def Stmt.renumberOption : Option Stmt → Option Stmt
  | none => none
  | some s => some s.renumber

def Stmt.renumberAll : List Stmt → List Stmt
  | [] => []
  | s :: ss => s.renumber :: Stmt.renumberAll ss

end

end

/-- A kind of tree whose numbers can be changed. -/
class Renumberable (α : Type) where
  renumber : (ExprId → ExprId) → (SiteId → SiteId) → α → α

instance : Renumberable Expr := ⟨fun f _ => Expr.renumber f⟩
instance : Renumberable (List Expr) := ⟨fun f _ => Expr.renumberAll f⟩
instance : Renumberable (Option Expr) := ⟨fun f _ => Option.map (Expr.renumber f)⟩
instance : Renumberable Stmt := ⟨Stmt.renumber⟩
instance : Renumberable (Option Stmt) := ⟨Stmt.renumberOption⟩
instance : Renumberable (List Stmt) := ⟨Stmt.renumberAll⟩
instance : Renumberable FunctionDecl := ⟨FunctionDecl.renumber⟩
instance : Renumberable (List FunctionDecl) := ⟨FunctionDecl.renumberAll⟩

/-- A tree with all numbers set to zero. -/
def erased {α : Type} [Renumberable α] (a : α) : α :=
  Renumberable.renumber (fun _ => 0) (fun _ => 0) a

def Same {α : Type} [Renumberable α] (a b : α) : Prop := erased b = erased a

/-- A number in a tree: that of an expression or that of a declaration. -/
inductive Label where
  | expr (id : ExprId)
  | site (id : SiteId)
  deriving DecidableEq

/-- Whether a number lies between two marks. -/
def Label.Within (lo hi : Labels) : Label → Prop
  | expr id => lo.expr ≤ id ∧ id < hi.expr
  | site id => lo.site ≤ id ∧ id < hi.site

mutual

/-- The numbers in an expression. -/
def Expr.labels : Expr → List Label
  | .literal _ => []
  | .grouping inner => inner.labels
  | .unary _ operand => operand.labels
  | .binary _ left right | .logical _ left right => left.labels ++ right.labels
  | .variable id _ | .this id _ | .super id _ _ => [.expr id]
  | .assign id _ value => value.labels ++ [.expr id]
  | .call callee _ args => callee.labels ++ Expr.labelsAll args
  | .get object _ => object.labels
  | .set object _ value => object.labels ++ value.labels

def Expr.labelsAll : List Expr → List Label
  | [] => []
  | e :: es => e.labels ++ Expr.labelsAll es

end

def Expr.labelsOption : Option Expr → List Label
  | none => []
  | some e => e.labels

mutual

def FunctionDecl.labels : FunctionDecl → List Label
  | .mk site _ _ body => Stmt.labelsAll body ++ [.site site]

def FunctionDecl.labelsAll : List FunctionDecl → List Label
  | [] => []
  | decl :: decls => decl.labels ++ FunctionDecl.labelsAll decls

def Stmt.labels : Stmt → List Label
  | .expression e | .print e => e.labels
  | .var _ initializer => Expr.labelsOption initializer
  | .block body => Stmt.labelsAll body
  | .branch condition thenBranch elseBranch =>
    condition.labels ++ thenBranch.labels ++ Stmt.labelsOption elseBranch
  | .loop condition body => condition.labels ++ body.labels
  | .function decl => decl.labels
  | .ret _ value => Expr.labelsOption value
  | .classDecl _ superclass methods =>
    Expr.labelsOption superclass ++ FunctionDecl.labelsAll methods

def Stmt.labelsOption : Option Stmt → List Label
  | none => []
  | some s => s.labels

def Stmt.labelsAll : List Stmt → List Label
  | [] => []
  | s :: ss => s.labels ++ Stmt.labelsAll ss

end

/-- A kind of tree that carries numbers. -/
class Labelled (α : Type) where
  labels : α → List Label

instance : Labelled Expr := ⟨Expr.labels⟩
instance : Labelled (List Expr) := ⟨Expr.labelsAll⟩
instance : Labelled (Option Expr) := ⟨Expr.labelsOption⟩
instance : Labelled Stmt := ⟨Stmt.labels⟩
instance : Labelled (Option Stmt) := ⟨Stmt.labelsOption⟩
instance : Labelled (List Stmt) := ⟨Stmt.labelsAll⟩
instance : Labelled FunctionDecl := ⟨FunctionDecl.labels⟩
instance : Labelled (List FunctionDecl) := ⟨FunctionDecl.labelsAll⟩
instance : Labelled (List Token) := ⟨fun _ => []⟩

instance : LE Labels := ⟨fun lo hi => lo.expr ≤ hi.expr ∧ lo.site ≤ hi.site⟩

namespace Labels

variable {lo mid hi : Labels}

theorem le_rfl : lo ≤ lo := ⟨Nat.le_refl _, Nat.le_refl _⟩

theorem le_trans (h : lo ≤ mid) (h' : mid ≤ hi) : lo ≤ hi :=
  ⟨Nat.le_trans h.1 h'.1, Nat.le_trans h.2 h'.2⟩

end Labels

theorem Label.Within.mono {lo lo' hi hi' : Labels} {l : Label} (h : l.Within lo hi)
    (hlo : lo' ≤ lo) (hhi : hi ≤ hi') : l.Within lo' hi' := by
  cases l with
  | expr id => exact ⟨Nat.le_trans hlo.1 h.1, Nat.lt_of_lt_of_le h.2 hhi.1⟩
  | site id => exact ⟨Nat.le_trans hlo.2 h.1, Nat.lt_of_lt_of_le h.2 hhi.2⟩

/-- Distinct numbers between two marks. -/
structure Numbered (lo : Labels) (ls : List Label) (hi : Labels) : Prop where
  le : lo ≤ hi
  nodup : ls.Nodup
  within : ∀ l ∈ ls, l.Within lo hi

namespace Numbered

variable {lo mid hi : Labels} {ls ls' : List Label}

theorem nil (h : lo ≤ hi) : Numbered lo [] hi := ⟨h, List.nodup_nil, by simp⟩

theorem append (h : Numbered lo ls mid) (h' : Numbered mid ls' hi) :
    Numbered lo (ls ++ ls') hi where
  le := Labels.le_trans h.le h'.le
  nodup := by
    refine List.nodup_append.mpr ⟨h.nodup, h'.nodup, ?_⟩
    rintro l hl _ hl' rfl
    have below := h.within l hl
    have above := h'.within l hl'
    cases l with
    | expr id => exact Nat.lt_irrefl _ (Nat.lt_of_lt_of_le below.2 above.1)
    | site id => exact Nat.lt_irrefl _ (Nat.lt_of_lt_of_le below.2 above.1)
  within l hl := by
    rcases List.mem_append.mp hl with hl | hl
    · exact (h.within l hl).mono Labels.le_rfl h'.le
    · exact (h'.within l hl).mono h.le Labels.le_rfl

theorem of_le (le : lo ≤ mid) (h : Numbered mid ls hi) : Numbered lo ls hi := by
  simpa using (nil le).append h

theorem perm (h : Numbered lo ls hi) (p : ls.Perm ls') : Numbered lo ls' hi :=
  ⟨h.le, p.nodup_iff.mp h.nodup, fun l hl => h.within l (p.mem_iff.mpr hl)⟩

end Numbered

end LoxLang
