import LoxLang.Machine
import LoxLang.Operator
import LoxLang.Proofs.LaterLines
import Mathlib.Data.List.Forall2

/-!
Two executions that mirror one another.  Their trees have the same form, but expressions and
declarations may carry other numbers, a tree may stand some lines further down, and the variables of
a frame may go by other names.  Which numbers correspond, and how many lines further down each
declaration stands, is fixed once; each frame has a renaming of its own, chosen when the frame is
made.
-/

set_option autoImplicit false
set_option relaxedAutoImplicit false

namespace LoxLang

/-- New names for the variables of a frame.  The names under which a frame holds the object of a
method or a superclass stay. -/
structure Renaming where
  apply : String → String
  injective : Function.Injective apply
  this : apply "this" = "this"
  super : apply "super" = "super"

/-- The renaming that changes nothing. -/
def Renaming.refl : Renaming := ⟨id, Function.injective_id, rfl, rfl⟩

/-- The new name of what an expression refers to, when the frames around it have some renamings:
that in the frame at a distance, or the old name for a global one. -/
def renamed (Γ : List Renaming) (distance : Option Nat) (name : String) : String :=
  match distance with
  | none => name
  | some k => (Γ[k]?.getD .refl).apply name

def Token.rename (t : Token) (name : String) : Token := { t with lexeme := name }

/-- What corresponds in two executions: the numbers of expressions and declarations, the lines by
which a declaration stands further down, the distances that an expression may have, the names that
faults may quote, and the renamings of frames. -/
structure Mirror where
  expr : ExprId → ExprId → Prop
  site : SiteId → SiteId → Prop
  drop : SiteId → Nat
  bound : ExprId → Option Nat → Prop
  quoted : String → String → Prop
  allowed : Renaming → Prop
  site_iff : ∀ {a a' b b'}, site a a' → site b b' → (a = b ↔ a' = b')
  allowed_refl : allowed .refl

section Trees

variable (M : Mirror) (k : Nat)

/-- The names of two expressions refer to the same variable of the frames around. -/
structure Refers (Γ : List Renaming) (id id' : ExprId) (old new : Token) : Prop where
  number : M.expr id id'
  name : ∀ d, M.bound id d → new = (old.rename (renamed Γ d old.lexeme)).later k
  quoted : M.quoted old.lexeme new.lexeme

mutual

/-- Expressions that mirror one another inside frames with some renamings, the second one some
lines further down. -/
inductive ExprRel (Γ : List Renaming) : Expr → Expr → Prop where
  | literal (l : Literal) : ExprRel Γ (.literal l) (.literal l)
  | grouping {e e' : Expr} : ExprRel Γ e e' → ExprRel Γ (.grouping e) (.grouping e')
  | unary (operator : Token) {e e' : Expr} :
      ExprRel Γ e e' → ExprRel Γ (.unary operator e) (.unary (operator.later k) e')
  | binary (operator : Token) {a a' b b' : Expr} :
      ExprRel Γ a a' → ExprRel Γ b b' →
      ExprRel Γ (.binary operator a b) (.binary (operator.later k) a' b')
  | logical (operator : Token) {a a' b b' : Expr} :
      ExprRel Γ a a' → ExprRel Γ b b' →
      ExprRel Γ (.logical operator a b) (.logical (operator.later k) a' b')
  | reference {id id' : ExprId} {name name' : Token} :
      Refers M k Γ id id' name name' → ExprRel Γ (.variable id name) (.variable id' name')
  | assign {id id' : ExprId} {name name' : Token} {e e' : Expr} :
      Refers M k Γ id id' name name' → ExprRel Γ e e' →
      ExprRel Γ (.assign id name e) (.assign id' name' e')
  | call (paren : Token) {e e' : Expr} {args args' : List Expr} :
      ExprRel Γ e e' → ExprsRel Γ args args' →
      ExprRel Γ (.call e paren args) (.call e' (paren.later k) args')
  | get (name : Token) {e e' : Expr} :
      ExprRel Γ e e' → ExprRel Γ (.get e name) (.get e' (name.later k))
  | set (name : Token) {a a' b b' : Expr} :
      ExprRel Γ a a' → ExprRel Γ b b' → ExprRel Γ (.set a name b) (.set a' (name.later k) b')
  | this {id id' : ExprId} {keyword : Token} :
      Refers M k Γ id id' keyword (keyword.later k) →
      ExprRel Γ (.this id keyword) (.this id' (keyword.later k))
  | super {id id' : ExprId} (keyword method : Token) :
      M.expr id id' →
      ExprRel Γ (.super id keyword method) (.super id' (keyword.later k) (method.later k))

/-- Lists of expressions that mirror one another. -/
inductive ExprsRel (Γ : List Renaming) : List Expr → List Expr → Prop where
  | nil : ExprsRel Γ [] []
  | cons {e e' : Expr} {es es' : List Expr} :
      ExprRel Γ e e' → ExprsRel Γ es es' → ExprsRel Γ (e :: es) (e' :: es')

end

def Kept (Γ : List Renaming) (name : String) : Prop := renamed Γ (some 0) name = name

mutual

/-- Statements that mirror one another inside frames with some renamings, the second one some lines
further down. -/
inductive StmtRel : List Renaming → Stmt → Stmt → Prop where
  | expression {Γ : List Renaming} {e e' : Expr} :
      ExprRel M k Γ e e' → StmtRel Γ (.expression e) (.expression e')
  | print {Γ : List Renaming} {e e' : Expr} :
      ExprRel M k Γ e e' → StmtRel Γ (.print e) (.print e')
  | var {Γ : List Renaming} (name : Token) {e e' : Option Expr} :
      Option.Rel (ExprRel M k Γ) e e' →
      StmtRel Γ (.var name e)
        (.var ((name.rename (renamed Γ (some 0) name.lexeme)).later k) e')
  | block {Γ : List Renaming} (ρ : Renaming) {body body' : List Stmt} :
      M.allowed ρ → StmtsRel (ρ :: Γ) body body' → StmtRel Γ (.block body) (.block body')
  | branch {Γ : List Renaming} {c c' : Expr} {s s' : Stmt} {other other' : Option Stmt} :
      ExprRel M k Γ c c' → StmtRel Γ s s' → OptionalRel Γ other other' →
      StmtRel Γ (.branch c s other) (.branch c' s' other')
  | loop {Γ : List Renaming} {c c' : Expr} {s s' : Stmt} :
      ExprRel M k Γ c c' → StmtRel Γ s s' → StmtRel Γ (.loop c s) (.loop c' s')
  | function {Γ : List Renaming} {decl decl' : FunctionDecl} :
      Kept Γ decl.name.lexeme → FunctionRel Γ decl decl' →
      StmtRel Γ (.function decl) (.function decl')
  | ret {Γ : List Renaming} (keyword : Token) {e e' : Option Expr} :
      Option.Rel (ExprRel M k Γ) e e' →
      StmtRel Γ (.ret keyword e) (.ret (keyword.later k) e')
  | classDecl {Γ : List Renaming} {name : Token} {methods methods' : List FunctionDecl} :
      Kept Γ name.lexeme → FunctionsRel (.refl :: Γ) methods methods' →
      StmtRel Γ (.classDecl name none methods) (.classDecl (name.later k) none methods')
  | subclass {Γ : List Renaming} {name : Token} {e e' : Expr} {methods methods' : List FunctionDecl} :
      Kept Γ name.lexeme → ExprRel M k Γ e e' →
      FunctionsRel (.refl :: .refl :: Γ) methods methods' →
      StmtRel Γ (.classDecl name (some e) methods) (.classDecl (name.later k) (some e') methods')

/-- Statements that may be missing and mirror one another. -/
inductive OptionalRel : List Renaming → Option Stmt → Option Stmt → Prop where
  | none {Γ : List Renaming} : OptionalRel Γ none none
  | some {Γ : List Renaming} {s s' : Stmt} : StmtRel Γ s s' → OptionalRel Γ (some s) (some s')

/-- Lists of statements that mirror one another. -/
inductive StmtsRel : List Renaming → List Stmt → List Stmt → Prop where
  | nil {Γ : List Renaming} : StmtsRel Γ [] []
  | cons {Γ : List Renaming} {s s' : Stmt} {ss ss' : List Stmt} :
      StmtRel Γ s s' → StmtsRel Γ ss ss' → StmtsRel Γ (s :: ss) (s' :: ss')

/-- Declarations of functions that mirror one another.  The parameters are variables of the frame
of a call; the name is that of the function and stays.  All declarations of a tree stand as many
lines further down as the tree. -/
inductive FunctionRel : List Renaming → FunctionDecl → FunctionDecl → Prop where
  | intro {Γ : List Renaming} (ρ : Renaming) {site site' : SiteId} (name : Token)
      (params : List Token) {body body' : List Stmt} :
      M.allowed ρ → M.site site site' → M.drop site = k → StmtsRel (ρ :: Γ) body body' →
      FunctionRel Γ (.mk site name params body)
        (.mk site' (name.later k) (params.map fun p => (p.rename (ρ.apply p.lexeme)).later k) body')

/-- Lists of methods that mirror one another. -/
inductive FunctionsRel : List Renaming → List FunctionDecl → List FunctionDecl → Prop where
  | nil {Γ : List Renaming} : FunctionsRel Γ [] []
  | cons {Γ : List Renaming} {decl decl' : FunctionDecl} {decls decls' : List FunctionDecl} :
      FunctionRel Γ decl decl' → FunctionsRel Γ decls decls' →
      FunctionsRel Γ (decl :: decls) (decl' :: decls')

end

end Trees

/-- The renamings of the frames made so far, by their addresses. -/
abbrev World := List Renaming

namespace World

def of (W : World) (f : FrameId) : Renaming := W[f]?.getD .refl

/-- The renamings of the frames of a scope, innermost first. -/
def around (W : World) (s : Scope) : List Renaming := s.frames.map W.of

def Has (W : World) (s : Scope) : Prop := ∀ f ∈ s.frames, f < W.length

end World

section Values

variable (M : Mirror) (W : World)

/-- Functions that mirror one another; `inner` are the renamings of frames that are still to be
made between a call and the scope of the function. -/
structure ClosureRel (inner : List Renaming) (c c' : Closure) : Prop where
  scope : c'.scope = c.scope
  has : W.Has c.scope
  initializer : c'.isInitializer = c.isInitializer
  decl : FunctionRel M (M.drop c.decl.site) (inner ++ W.around c.scope) c.decl c'.decl

/-- Class bodies that mirror one another.  Before a method is called it is bound to an object, in a
frame of its own. -/
structure BodyRel (b b' : ClassBody) : Prop where
  id : b'.id = b.id
  name : b'.name = b.name
  methods : List.Forall₂ (ClosureRel M W [.refl]) b.methods b'.methods

def ClassRel (c c' : Class) : Prop := List.Forall₂ (BodyRel M W) c.chain c'.chain

/-- Callables that mirror one another. -/
inductive CallableRel : Callable → Callable → Prop where
  | native (f : Native) : CallableRel (.native f) (.native f)
  | function {c c' : Closure} : ClosureRel M W [] c c' → CallableRel (.function c) (.function c')
  | ofClass {c c' : Class} : ClassRel M W c c' → CallableRel (.ofClass c) (.ofClass c')

/-- Objects that mirror one another. -/
structure ObjectRel (o o' : Object) : Prop where
  id : o'.id = o.id
  kind : ClassRel M W o.kind o'.kind

/-- Values that mirror one another. -/
inductive ValueRel : Value → Value → Prop where
  | nil : ValueRel .nil .nil
  | bool (b : Bool) : ValueRel (.bool b) (.bool b)
  | number (x : Float) : ValueRel (.number x) (.number x)
  | string (s : String) : ValueRel (.string s) (.string s)
  | callable {c c' : Callable} : CallableRel M W c c' → ValueRel (.callable c) (.callable c')
  | object {o o' : Object} : ObjectRel M W o o' → ValueRel (.object o) (.object o')

/-- Faults that differ at most in the name of a variable that they quote. -/
inductive FaultRel : RuntimeFault → RuntimeFault → Prop where
  | refl (f : RuntimeFault) : FaultRel f f
  | unboundLocal {name name' : String} :
      M.quoted name name' → FaultRel (.unboundLocal name) (.unboundLocal name')
  | unbound {name name' : String} :
      M.quoted name name' → FaultRel (.unbound name) (.unbound name')

/-- Failures that differ at most in the name of a variable that they quote, and in their lines as
those of some declaration do. -/
inductive FailureRel : Failure → Failure → Prop where
  | fault (line : Nat) (here : SiteId) {f f' : RuntimeFault} :
      FaultRel M f f' → FailureRel (.fault ⟨line, f⟩) (.fault ⟨line + M.drop here, f'⟩)
  | sink (text : String) : FailureRel (.sink text) (.sink text)
  | exhausted : FailureRel .exhausted .exhausted

/-- Interrupts that mirror one another. -/
inductive InterruptRel : Interrupt → Interrupt → Prop where
  | failure {f f' : Failure} : FailureRel M f f' → InterruptRel (.failure f) (.failure f')
  | returned {v v' : Value} : ValueRel M W v v' → InterruptRel (.returned v) (.returned v')

def BindingsRel (ρ : Renaming) (b b' : Bindings) : Prop :=
  ∀ name : String, Option.Rel (ValueRel M W) b[name]? b'[ρ.apply name]?

/-- What is stored mirrors one another. -/
structure StoreRel (m m' : Store) : Prop where
  size : m.frames.size = W.length
  size' : m'.frames.size = W.length
  globals : W[0]? = some .refl
  allowed : ∀ ρ ∈ W, M.allowed ρ
  named : ∀ f name,
    Option.Rel (ValueRel M W) (m.local? f name) (m'.local? f ((W.of f).apply name))
  objects : m'.objects.size = m.objects.size
  fields : ∀ (id : ObjectId) (name : String), Option.Rel (ValueRel M W)
    (m.objects[id]?.bind (·[name]?)) (m'.objects[id]?.bind (·[name]?))
  nextClass : m'.nextClass = m.nextClass

/-- States of an execution that mirror one another. -/
structure MachineRel (m m' : Machine) : Prop where
  store : StoreRel M W m.store m'.store
  scope : m'.scope = m.scope
  has : W.Has m.scope
  depth : m'.depth = m.depth
  printed : m'.printed = m.printed
  readings : m'.readings = m.readings

end Values

end LoxLang
