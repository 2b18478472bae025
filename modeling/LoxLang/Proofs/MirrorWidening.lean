import LoxLang.Proofs.MirrorValues

/-!
Mirrors in which more corresponds.  What mirrors under one still does under a wider one, so an
execution may be followed under the correspondence that it needs, and go on under another one.
-/

set_option autoImplicit false
set_option relaxedAutoImplicit false

namespace LoxLang

/-- What corresponds in one mirror corresponds in another one, and fewer distances need fit. -/
structure Mirror.Within (M N : Mirror) : Prop where
  expr : ∀ {a a'}, M.expr a a' → N.expr a a'
  site : ∀ {a a'}, M.site a a' → N.site a a'
  drop : ∀ {a a'}, M.site a a' → N.drop a = M.drop a
  bound : ∀ {id d}, N.bound id d → M.bound id d
  quoted : ∀ {a b}, M.quoted a b → N.quoted a b
  allowed : ∀ {ρ}, M.allowed ρ → N.allowed ρ

section

variable {M N : Mirror} {k : Nat}

private theorem Refers.widen (within : M.Within N) {Γ : List Renaming} {id id' : ExprId}
    {old new : Token} (h : Refers M k Γ id id' old new) : Refers N k Γ id id' old new where
  number := within.expr h.number
  name d hd := h.name d (within.bound hd)
  quoted := within.quoted h.quoted

mutual

private theorem ExprRel.widen (within : M.Within N) {Γ : List Renaming} :
    ∀ {e e' : Expr}, ExprRel M k Γ e e' → ExprRel N k Γ e e'
  | _, _, .literal l => .literal l
  | _, _, .grouping h => .grouping (ExprRel.widen within h)
  | _, _, .unary operator h => .unary operator (ExprRel.widen within h)
  | _, _, .binary operator h h' =>
    .binary operator (ExprRel.widen within h) (ExprRel.widen within h')
  | _, _, .logical operator h h' =>
    .logical operator (ExprRel.widen within h) (ExprRel.widen within h')
  | _, _, .reference h => .reference (h.widen within)
  | _, _, .assign h h' => .assign (h.widen within) (ExprRel.widen within h')
  | _, _, .call paren h h' => .call paren (ExprRel.widen within h) (ExprsRel.widen within h')
  | _, _, .get name h => .get name (ExprRel.widen within h)
  | _, _, .set name h h' => .set name (ExprRel.widen within h) (ExprRel.widen within h')
  | _, _, .this h => .this (h.widen within)
  | _, _, .super keyword method number => .super keyword method (within.expr number)

private theorem ExprsRel.widen (within : M.Within N) {Γ : List Renaming} :
    ∀ {es es' : List Expr}, ExprsRel M k Γ es es' → ExprsRel N k Γ es es'
  | _, _, .nil => .nil
  | _, _, .cons h h' => .cons (ExprRel.widen within h) (ExprsRel.widen within h')

end

private theorem optionalExpr_widen (within : M.Within N) {Γ : List Renaming} {e e' : Option Expr}
    (h : Option.Rel (ExprRel M k Γ) e e') : Option.Rel (ExprRel N k Γ) e e' := by
  cases h with
  | none => exact .none
  | some h => exact .some (h.widen within)

mutual

private theorem StmtRel.widen (within : M.Within N) :
    ∀ {Γ : List Renaming} {s s' : Stmt}, StmtRel M k Γ s s' → StmtRel N k Γ s s'
  | _, _, _, .expression h => .expression (h.widen within)
  | _, _, _, .print h => .print (h.widen within)
  | _, _, _, .var name h => .var name (optionalExpr_widen within h)
  | _, _, _, .block ρ allowed h => .block ρ (within.allowed allowed) (StmtsRel.widen within h)
  | _, _, _, .branch h h' h'' =>
    .branch (h.widen within) (StmtRel.widen within h') (OptionalRel.widen within h'')
  | _, _, _, .loop h h' => .loop (h.widen within) (StmtRel.widen within h')
  | _, _, _, .function kept h => .function kept (FunctionRel.widen within h)
  | _, _, _, .ret keyword h => .ret keyword (optionalExpr_widen within h)
  | _, _, _, .classDecl kept h => .classDecl kept (FunctionsRel.widen within h)
  | _, _, _, .subclass kept h h' => .subclass kept (h.widen within) (FunctionsRel.widen within h')

private theorem OptionalRel.widen (within : M.Within N) :
    ∀ {Γ : List Renaming} {s s' : Option Stmt}, OptionalRel M k Γ s s' → OptionalRel N k Γ s s'
  | _, _, _, .none => .none
  | _, _, _, .some h => .some (StmtRel.widen within h)

private theorem StmtsRel.widen (within : M.Within N) :
    ∀ {Γ : List Renaming} {ss ss' : List Stmt}, StmtsRel M k Γ ss ss' → StmtsRel N k Γ ss ss'
  | _, _, _, .nil => .nil
  | _, _, _, .cons h h' => .cons (StmtRel.widen within h) (StmtsRel.widen within h')

private theorem FunctionRel.widen (within : M.Within N) :
    ∀ {Γ : List Renaming} {decl decl' : FunctionDecl},
      FunctionRel M k Γ decl decl' → FunctionRel N k Γ decl decl'
  | _, _, _, .intro ρ name params allowed site drop h =>
    .intro ρ name params (within.allowed allowed) (within.site site)
      ((within.drop site).trans drop) (StmtsRel.widen within h)

private theorem FunctionsRel.widen (within : M.Within N) :
    ∀ {Γ : List Renaming} {decls decls' : List FunctionDecl},
      FunctionsRel M k Γ decls decls' → FunctionsRel N k Γ decls decls'
  | _, _, _, .nil => .nil
  | _, _, _, .cons h h' => .cons (FunctionRel.widen within h) (FunctionsRel.widen within h')

end

variable (within : M.Within N) {W : World}

include within

private theorem ClosureRel.widen {inner : List Renaming} {c c' : Closure}
    (h : ClosureRel M W inner c c') :
    ClosureRel N W inner c c' where
  scope := h.scope
  has := h.has
  initializer := h.initializer
  decl := (within.drop h.decl.site).symm ▸ h.decl.widen within

private theorem ClassRel.widen {c c' : Class} (h : ClassRel M W c c') : ClassRel N W c c' :=
  List.Forall₂.imp
    (fun _ _ b => ⟨b.id, b.name, b.methods.imp fun _ _ method => method.widen within⟩) h

private theorem ValueRel.widen {v v' : Value} (h : ValueRel M W v v') : ValueRel N W v v' := by
  cases h with
  | nil => exact .nil
  | bool b => exact .bool b
  | number x => exact .number x
  | string s => exact .string s
  | callable h =>
    cases h with
    | native f => exact .callable (.native f)
    | function h => exact .callable (.function (h.widen within))
    | ofClass h => exact .callable (.ofClass (h.widen within))
  | object h => exact .object ⟨h.id, h.kind.widen within⟩

private theorem optionalValue_widen {v v' : Option Value} (h : Option.Rel (ValueRel M W) v v') :
    Option.Rel (ValueRel N W) v v' := by
  cases h with
  | none => exact .none
  | some h => exact .some (h.widen within)

private theorem StoreRel.widen {m m' : Store} (h : StoreRel M W m m') : StoreRel N W m m' where
  size := h.size
  size' := h.size'
  globals := h.globals
  allowed ρ hρ := within.allowed (h.allowed ρ hρ)
  named f name := optionalValue_widen within (h.named f name)
  objects := h.objects
  fields id name := optionalValue_widen within (h.fields id name)
  nextClass := h.nextClass

/-- States that mirror one another do so in a wider mirror. -/
theorem MachineRel.widen {m m' : Machine} (h : MachineRel M W m m') : MachineRel N W m m' where
  store := h.store.widen within
  scope := h.scope
  has := h.has
  depth := h.depth
  printed := h.printed
  readings := h.readings

end

end LoxLang
