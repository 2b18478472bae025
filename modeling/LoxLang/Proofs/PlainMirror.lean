import LoxLang.Proofs.MirrorValues
import LoxLang.Proofs.Numbering

/-!
Mirrors in which nothing but numbers and lines differs.  A tree mirrors itself with other numbers,
some lines further down, provided that the old and the new ones correspond; and if the new numbers
are those under two maps, then nothing else mirrors it.
-/

set_option autoImplicit false
set_option relaxedAutoImplicit false

namespace LoxLang

/-- No name differs on the two sides, whatever the distances of expressions. -/
structure Mirror.Plain (M : Mirror) : Prop where
  allowed : ∀ {ρ}, M.allowed ρ → ρ = .refl
  bound : ∀ id d, M.bound id d
  quoted : ∀ {a b}, M.quoted a b ↔ b = a
  expr_iff : ∀ {a a' b b'}, M.expr a a' → M.expr b b' → (a = b ↔ a' = b')

def Unchanged (Γ : List Renaming) : Prop := ∀ ρ ∈ Γ, ρ = .refl

private theorem Unchanged.cons {Γ : List Renaming} (h : Unchanged Γ) : Unchanged (.refl :: Γ) := by
  intro ρ hρ
  rcases List.mem_cons.mp hρ with rfl | hρ
  · rfl
  · exact h ρ hρ

private theorem Unchanged.renamed_eq {Γ : List Renaming} (h : Unchanged Γ) (d : Option Nat)
    (name : String) : renamed Γ d name = name := by
  cases d with
  | none => rfl
  | some k =>
    have same : Γ[k]?.getD .refl = .refl := by
      cases found : Γ[k]? with
      | none => rfl
      | some ρ => exact h ρ (List.mem_of_getElem? found)
    simp only [renamed, same]
    rfl

def Mirror.Relates (M : Mirror) (f : ExprId → ExprId) (g : SiteId → SiteId) (k : Nat) :
    Label → Prop
  | .expr id => M.expr id (f id)
  | .site site => M.site site (g site) ∧ M.drop site = k

def Mirror.RelatesAll (M : Mirror) (f : ExprId → ExprId) (g : SiteId → SiteId) (k : Nat)
    (ls : List Label) : Prop :=
  ∀ l ∈ ls, M.Relates f g k l

section

variable {M : Mirror} {f : ExprId → ExprId} {g : SiteId → SiteId} {k : Nat} {ls ls' : List Label}

private theorem Mirror.RelatesAll.left (h : M.RelatesAll f g k (ls ++ ls')) :
    M.RelatesAll f g k ls :=
  fun l hl => h l (List.mem_append_left _ hl)

private theorem Mirror.RelatesAll.right (h : M.RelatesAll f g k (ls ++ ls')) :
    M.RelatesAll f g k ls' :=
  fun l hl => h l (List.mem_append_right _ hl)

private theorem Refers.renumber (plain : M.Plain) {Γ : List Renaming} (unchanged : Unchanged Γ)
    {id id' : ExprId} (number : M.expr id id') (name : Token) :
    Refers M k Γ id id' name (name.later k) where
  number := number
  name d _ := by
    rw [unchanged.renamed_eq]
    rfl
  quoted := plain.quoted.mpr rfl

mutual

theorem ExprRel.renumber (plain : M.Plain) {Γ : List Renaming} (unchanged : Unchanged Γ) :
    ∀ e : Expr, M.RelatesAll f g k e.labels → ExprRel M k Γ e ((e.later k).renumber f)
  | .literal l, _ => .literal l
  | .grouping inner, h => .grouping (ExprRel.renumber plain unchanged inner h)
  | .unary operator operand, h => .unary operator (ExprRel.renumber plain unchanged operand h)
  | .binary operator left right, h =>
    .binary operator (ExprRel.renumber plain unchanged left h.left)
      (ExprRel.renumber plain unchanged right h.right)
  | .logical operator left right, h =>
    .logical operator (ExprRel.renumber plain unchanged left h.left)
      (ExprRel.renumber plain unchanged right h.right)
  | .variable _ name, h => .reference (.renumber plain unchanged (h _ List.mem_cons_self) name)
  | .assign _ name value, h =>
    .assign (.renumber plain unchanged (h.right _ List.mem_cons_self) name)
      (ExprRel.renumber plain unchanged value h.left)
  | .call callee paren args, h =>
    .call paren (ExprRel.renumber plain unchanged callee h.left)
      (ExprsRel.renumber plain unchanged args h.right)
  | .get object name, h => .get name (ExprRel.renumber plain unchanged object h)
  | .set object name value, h =>
    .set name (ExprRel.renumber plain unchanged object h.left)
      (ExprRel.renumber plain unchanged value h.right)
  | .this _ keyword, h => .this (.renumber plain unchanged (h _ List.mem_cons_self) keyword)
  | .super _ keyword method, h => .super keyword method (h _ List.mem_cons_self)

private theorem ExprsRel.renumber (plain : M.Plain) {Γ : List Renaming} (unchanged : Unchanged Γ) :
    ∀ es : List Expr, M.RelatesAll f g k (Expr.labelsAll es) →
      ExprsRel M k Γ es (Expr.renumberAll f (Expr.laterAll k es))
  | [], _ => .nil
  | e :: es, h =>
    .cons (ExprRel.renumber plain unchanged e h.left) (ExprsRel.renumber plain unchanged es h.right)

end

private theorem optionalRel_renumber (plain : M.Plain) {Γ : List Renaming} (unchanged : Unchanged Γ)
    (e : Option Expr) (h : M.RelatesAll f g k (Expr.labelsOption e)) :
    Option.Rel (ExprRel M k Γ) e ((e.map (Expr.later k)).map (Expr.renumber f)) := by
  cases e with
  | none => exact .none
  | some e => exact .some (.renumber plain unchanged e h)

private theorem Kept.of_unchanged {Γ : List Renaming} (unchanged : Unchanged Γ) (name : String) :
    Kept Γ name :=
  unchanged.renamed_eq _ name

mutual

private theorem StmtRel.renumber (plain : M.Plain) {Γ : List Renaming} (unchanged : Unchanged Γ) :
    ∀ s : Stmt, M.RelatesAll f g k s.labels → StmtRel M k Γ s ((s.later k).renumber f g)
  | .expression e, h => .expression (.renumber plain unchanged e h)
  | .print e, h => .print (.renumber plain unchanged e h)
  | .var name e, h => by
    have var := StmtRel.var name (optionalRel_renumber plain unchanged e h)
    rw [unchanged.renamed_eq] at var
    exact var
  | .block body, h =>
    .block .refl M.allowed_refl (StmtsRel.renumber plain unchanged.cons body h)
  | .branch c s other, h =>
    .branch (.renumber plain unchanged c h.left.left)
      (StmtRel.renumber plain unchanged s h.left.right)
      (OptionalRel.renumber plain unchanged other h.right)
  | .loop c s, h =>
    .loop (.renumber plain unchanged c h.left) (StmtRel.renumber plain unchanged s h.right)
  | .function decl, h =>
    .function (.of_unchanged unchanged _) (FunctionRel.renumber plain unchanged decl h)
  | .ret keyword e, h => .ret keyword (optionalRel_renumber plain unchanged e h)
  | .classDecl _ none methods, h =>
    .classDecl (.of_unchanged unchanged _)
      (FunctionsRel.renumber plain unchanged.cons methods h.right)
  | .classDecl _ (some e) methods, h =>
    .subclass (.of_unchanged unchanged _) (.renumber plain unchanged e h.left)
      (FunctionsRel.renumber plain unchanged.cons.cons methods h.right)

private theorem OptionalRel.renumber (plain : M.Plain) {Γ : List Renaming}
    (unchanged : Unchanged Γ) :
    ∀ s : Option Stmt, M.RelatesAll f g k (Stmt.labelsOption s) →
      OptionalRel M k Γ s (Stmt.renumberOption f g (Stmt.laterOption k s))
  | none, _ => .none
  | some s, h => .some (StmtRel.renumber plain unchanged s h)

theorem StmtsRel.renumber (plain : M.Plain) {Γ : List Renaming} (unchanged : Unchanged Γ) :
    ∀ ss : List Stmt, M.RelatesAll f g k (Stmt.labelsAll ss) →
      StmtsRel M k Γ ss (Stmt.renumberAll f g (Stmt.laterAll k ss))
  | [], _ => .nil
  | s :: ss, h =>
    .cons (StmtRel.renumber plain unchanged s h.left) (StmtsRel.renumber plain unchanged ss h.right)

private theorem FunctionRel.renumber (plain : M.Plain) {Γ : List Renaming}
    (unchanged : Unchanged Γ) :
    ∀ decl : FunctionDecl, M.RelatesAll f g k decl.labels →
      FunctionRel M k Γ decl ((decl.later k).renumber f g)
  | .mk _ name params body, h => by
    obtain ⟨site, drop⟩ := h.right _ List.mem_cons_self
    exact FunctionRel.intro .refl name params M.allowed_refl site drop
      (StmtsRel.renumber plain unchanged.cons body h.left)

private theorem FunctionsRel.renumber (plain : M.Plain) {Γ : List Renaming}
    (unchanged : Unchanged Γ) :
    ∀ decls : List FunctionDecl, M.RelatesAll f g k (FunctionDecl.labelsAll decls) →
      FunctionsRel M k Γ decls (FunctionDecl.renumberAll f g (FunctionDecl.laterAll k decls))
  | [], _ => .nil
  | decl :: decls, h =>
    .cons (FunctionRel.renumber plain unchanged decl h.left)
      (FunctionsRel.renumber plain unchanged decls h.right)

end

end

/-! What mirrors is the same but for the numbers. -/

/-- Corresponding numbers are those under two maps. -/
structure Mirror.Maps (M : Mirror) (f : ExprId → ExprId) (g : SiteId → SiteId) : Prop where
  expr : ∀ {a a'}, M.expr a a' → a' = f a
  site : ∀ {a a'}, M.site a a' → a' = g a

section

variable {M : Mirror} {f : ExprId → ExprId} {g : SiteId → SiteId} {k : Nat}

private theorem Refers.name_eq (plain : M.Plain) {Γ : List Renaming} {id id' : ExprId}
    {name name' : Token} (h : Refers M k Γ id id' name name') : name' = name.later k :=
  h.name none (plain.bound id none)

mutual

private theorem ExprRel.eq_renumber (plain : M.Plain) (maps : M.Maps f g) {Γ : List Renaming} :
    ∀ {e e' : Expr}, ExprRel M k Γ e e' → e' = (e.later k).renumber f
  | _, _, .literal _ => rfl
  | _, _, .grouping h => congrArg Expr.grouping (ExprRel.eq_renumber plain maps h)
  | _, _, .unary operator h =>
    congrArg (Expr.unary _) (ExprRel.eq_renumber plain maps h)
  | _, _, .binary operator h h' =>
    congrArg₂ (Expr.binary _) (ExprRel.eq_renumber plain maps h)
      (ExprRel.eq_renumber plain maps h')
  | _, _, .logical operator h h' =>
    congrArg₂ (Expr.logical _) (ExprRel.eq_renumber plain maps h)
      (ExprRel.eq_renumber plain maps h')
  | _, _, .reference h => congrArg₂ Expr.variable (maps.expr h.number) (h.name_eq plain)
  | _, _, .assign h h' => by
    have number := maps.expr h.number
    have same := h.name_eq plain
    have value := ExprRel.eq_renumber plain maps h'
    rw [number, same, value, Expr.later, Expr.renumber]
  | _, _, .call paren h h' =>
    congrArg₂ (Expr.call · _ ·) (ExprRel.eq_renumber plain maps h)
      (ExprsRel.eq_renumber plain maps h')
  | _, _, .get name h => congrArg (Expr.get · _) (ExprRel.eq_renumber plain maps h)
  | _, _, .set name h h' =>
    congrArg₂ (Expr.set · _ ·) (ExprRel.eq_renumber plain maps h)
      (ExprRel.eq_renumber plain maps h')
  | _, _, .this h => congrArg (Expr.this · _) (maps.expr h.number)
  | _, _, .super keyword method number => congrArg (Expr.super · _ _) (maps.expr number)

private theorem ExprsRel.eq_renumber (plain : M.Plain) (maps : M.Maps f g) {Γ : List Renaming} :
    ∀ {es es' : List Expr}, ExprsRel M k Γ es es' →
      es' = Expr.renumberAll f (Expr.laterAll k es)
  | _, _, .nil => rfl
  | _, _, .cons h h' =>
    congrArg₂ List.cons (ExprRel.eq_renumber plain maps h) (ExprsRel.eq_renumber plain maps h')

end

private theorem optionalRel_eq_renumber (plain : M.Plain) (maps : M.Maps f g) {Γ : List Renaming}
    {e e' : Option Expr} (h : Option.Rel (ExprRel M k Γ) e e') :
    e' = (e.map (Expr.later k)).map (Expr.renumber f) := by
  cases h with
  | none => rfl
  | some h => exact congrArg some (h.eq_renumber plain maps)

mutual

private theorem StmtRel.eq_renumber (plain : M.Plain) (maps : M.Maps f g) :
    ∀ {Γ : List Renaming}, Unchanged Γ →
    ∀ {s s' : Stmt}, StmtRel M k Γ s s' → s' = (s.later k).renumber f g
  | _, _, _, _, .expression h => congrArg Stmt.expression (h.eq_renumber plain maps)
  | _, _, _, _, .print h => congrArg Stmt.print (h.eq_renumber plain maps)
  | _, unchanged, _, _, .var name h => by
    rw [unchanged.renamed_eq]
    exact congrArg (Stmt.var _) (optionalRel_eq_renumber plain maps h)
  | _, unchanged, _, _, .block _ allowed h => by
    obtain rfl := plain.allowed allowed
    exact congrArg Stmt.block (StmtsRel.eq_renumber plain maps unchanged.cons h)
  | _, unchanged, _, _, .branch h h' h'' => by
    have condition := h.eq_renumber plain maps
    have thenBranch := StmtRel.eq_renumber plain maps unchanged h'
    have elseBranch := OptionalRel.eq_renumber plain maps unchanged h''
    rw [condition, thenBranch, elseBranch, Stmt.later, Stmt.renumber]
  | _, unchanged, _, _, .loop h h' =>
    congrArg₂ Stmt.loop (h.eq_renumber plain maps) (StmtRel.eq_renumber plain maps unchanged h')
  | _, unchanged, _, _, .function _ h =>
    congrArg Stmt.function (FunctionRel.eq_renumber plain maps unchanged h)
  | _, _, _, _, .ret keyword h =>
    congrArg (Stmt.ret _) (optionalRel_eq_renumber plain maps h)
  | _, unchanged, _, _, .classDecl _ h =>
    congrArg (Stmt.classDecl _ none) (FunctionsRel.eq_renumber plain maps unchanged.cons h)
  | _, unchanged, _, _, .subclass _ h h' =>
    congrArg₂ (fun e => Stmt.classDecl _ (some e)) (h.eq_renumber plain maps)
      (FunctionsRel.eq_renumber plain maps unchanged.cons.cons h')

private theorem OptionalRel.eq_renumber (plain : M.Plain) (maps : M.Maps f g) :
    ∀ {Γ : List Renaming}, Unchanged Γ →
    ∀ {s s' : Option Stmt}, OptionalRel M k Γ s s' →
      s' = Stmt.renumberOption f g (Stmt.laterOption k s)
  | _, _, _, _, .none => rfl
  | _, unchanged, _, _, .some h => congrArg some (StmtRel.eq_renumber plain maps unchanged h)

private theorem StmtsRel.eq_renumber (plain : M.Plain) (maps : M.Maps f g) :
    ∀ {Γ : List Renaming}, Unchanged Γ →
    ∀ {ss ss' : List Stmt}, StmtsRel M k Γ ss ss' →
      ss' = Stmt.renumberAll f g (Stmt.laterAll k ss)
  | _, _, _, _, .nil => rfl
  | _, unchanged, _, _, .cons h h' =>
    congrArg₂ List.cons (StmtRel.eq_renumber plain maps unchanged h)
      (StmtsRel.eq_renumber plain maps unchanged h')

theorem FunctionRel.eq_renumber (plain : M.Plain) (maps : M.Maps f g) :
    ∀ {Γ : List Renaming}, Unchanged Γ →
    ∀ {decl decl' : FunctionDecl}, FunctionRel M k Γ decl decl' →
      decl' = (decl.later k).renumber f g
  | _, unchanged, _, _, .intro _ name params allowed place _ h => by
    obtain rfl := plain.allowed allowed
    have number := maps.site place
    have inner := StmtsRel.eq_renumber plain maps unchanged.cons h
    rw [number, inner, FunctionDecl.later, FunctionDecl.renumber]
    rfl

private theorem FunctionsRel.eq_renumber (plain : M.Plain) (maps : M.Maps f g) :
    ∀ {Γ : List Renaming}, Unchanged Γ →
    ∀ {decls decls' : List FunctionDecl}, FunctionsRel M k Γ decls decls' →
      decls' = FunctionDecl.renumberAll f g (FunctionDecl.laterAll k decls)
  | _, _, _, _, .nil => rfl
  | _, unchanged, _, _, .cons h h' =>
    congrArg₂ List.cons (FunctionRel.eq_renumber plain maps unchanged h)
      (FunctionsRel.eq_renumber plain maps unchanged h')

end

end

end LoxLang
