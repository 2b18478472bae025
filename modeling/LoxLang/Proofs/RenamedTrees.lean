import LoxLang.Proofs.LocalScopes
import LoxLang.Proofs.MirrorValues
import Mathlib.Logic.Equiv.Basic

/-!
A program in which a local variable has a new name mirrors the program: the frames of the scope of
the variable hold it under the new name, and nothing else differs.  The name must be new to the
program, so it makes no difference whether the two names are replaced or exchanged.
-/

set_option autoImplicit false
set_option relaxedAutoImplicit false

namespace LoxLang

private theorem eq_iff_of_eq {a a' b b' : SiteId} (first : a' = a) (second : b' = b) :
    a = b ↔ a' = b' := by
  rw [first, second]

/-- In some frames two names are exchanged, and faults may quote the one for the other.  Expressions
have the distances recorded for them. -/
def Mirror.renaming (D : Distances) (N : NewName) : Mirror where
  expr id id' := id' = id
  site site site' := site' = site
  drop _ := 0
  bound id d := D[id]? = d
  quoted name name' := name' = name ∨ name = N.old ∧ name' = N.new
  allowed ρ := ρ = .refl ∨ ρ.apply = Equiv.swap N.old N.new
  site_iff := @eq_iff_of_eq
  allowed_refl := .inl rfl

def Marks.renamings (ρ : Renaming) (Γ : Marks) : List Renaming :=
  Γ.map fun marked => if marked then ρ else .refl

section

variable {N : NewName} {ρ : Renaming} {D : Distances} {Γ : Marks}

private theorem Marks.renamed_renamings (d : Option Nat) (name : String) :
    renamed (Γ.renamings ρ) d name = if Γ.at d then ρ.apply name else name := by
  have looked : ∀ found : Option Bool,
      ((found.map fun marked : Bool => if marked then ρ else .refl).getD .refl).apply name =
        if found.getD false then ρ.apply name else name := by
    rintro (_ | _ | _) <;> rfl
  cases d with
  | none => rfl
  | some d =>
    simp only [renamed, renamings, List.getElem?_map]
    exact looked _

variable (exchanges : ρ.apply = Equiv.swap N.old N.new)

include exchanges

private theorem NewName.give_eq {name : Token} (fresh : N.new ≠ name.lexeme) (marked : Bool) :
    N.give marked name = name.rename (if marked then ρ.apply name.lexeme else name.lexeme) := by
  unfold give
  cases marked with
  | false => rfl
  | true =>
    by_cases old : name.lexeme = N.old
    · simp [old, exchanges]
    · have other : Equiv.swap N.old N.new name.lexeme = name.lexeme :=
        Equiv.swap_apply_of_ne_of_ne old fresh.symm
      simp only [old, and_false, if_false, if_true, exchanges, other]
      rfl

private theorem Marks.allowed (marked : Bool) :
    (Mirror.renaming D N).allowed (if marked then ρ else .refl) := by
  cases marked with
  | false => exact .inl rfl
  | true => exact .inr exchanges

private theorem Refers.renameLocal (id : ExprId) {name : Token} (fresh : N.new ≠ name.lexeme) :
    Refers (.renaming D N) 0 (Γ.renamings ρ) id id name (N.give (Γ.at D[id]?) name) where
  number := rfl
  name := by
    rintro d rfl
    rw [NewName.give_eq exchanges fresh, Marks.renamed_renamings, Token.later_zero]
  quoted := by
    unfold NewName.give
    split
    · rename_i given
      exact .inr ⟨given.2, rfl⟩
    · exact .inl rfl

omit exchanges in
private theorem Refers.keyword (id : ExprId) {keyword : Token} (this : keyword.lexeme = "this") :
    Refers (.renaming D N) 0 (Γ.renamings ρ) id id keyword (keyword.later 0) where
  number := rfl
  name d _ := by
    rw [this, renamed_this, ← this]
    rfl
  quoted := .inl rfl

omit exchanges in
theorem fresh_append {names names' : List String} (fresh : N.new ∉ names ++ names') :
    N.new ∉ names ∧ N.new ∉ names' :=
  not_or.mp fun member => fresh (List.mem_append.mpr member)

end

section

variable {N : NewName} {ρ : Renaming} {D : Distances}

mutual

private theorem ExprRel.renameLocal (exchanges : ρ.apply = Equiv.swap N.old N.new) {Γ : Marks} :
    ∀ e : Expr, e.WellFormed → N.new ∉ e.names →
      ExprRel (.renaming D N) 0 (Γ.renamings ρ) e (e.renameLocal N D Γ)
  | .literal v, _, _ => .literal v
  | .grouping inner, formed, fresh => .grouping (ExprRel.renameLocal exchanges inner formed fresh)
  | .unary operator operand, formed, fresh =>
    .unary operator (ExprRel.renameLocal exchanges operand formed fresh)
  | .binary operator left right, formed, fresh =>
    .binary operator (ExprRel.renameLocal exchanges left formed.1 (fresh_append fresh).1)
      (ExprRel.renameLocal exchanges right formed.2 (fresh_append fresh).2)
  | .logical operator left right, formed, fresh =>
    .logical operator (ExprRel.renameLocal exchanges left formed.1 (fresh_append fresh).1)
      (ExprRel.renameLocal exchanges right formed.2 (fresh_append fresh).2)
  | .variable id _, _, fresh =>
    .reference (.renameLocal exchanges id fun same => fresh (List.mem_singleton.mpr same))
  | .assign id _ value, formed, fresh =>
    .assign (.renameLocal exchanges id (List.ne_of_not_mem_cons fresh))
      (ExprRel.renameLocal exchanges value formed.2 (List.not_mem_of_not_mem_cons fresh))
  | .call callee paren args, formed, fresh =>
    .call paren (ExprRel.renameLocal exchanges callee formed.1 (fresh_append fresh).1)
      (ExprsRel.renameLocal exchanges args formed.2 (fresh_append fresh).2)
  | .get object name, formed, fresh =>
    .get name (ExprRel.renameLocal exchanges object formed fresh)
  | .set object name value, formed, fresh =>
    .set name (ExprRel.renameLocal exchanges object formed.1 (fresh_append fresh).1)
      (ExprRel.renameLocal exchanges value formed.2 (fresh_append fresh).2)
  | .this id _, formed, _ => .this (.keyword id formed)
  | .super _ keyword method, _, _ => .super keyword method rfl

private theorem ExprsRel.renameLocal (exchanges : ρ.apply = Equiv.swap N.old N.new) {Γ : Marks} :
    ∀ es : List Expr, Expr.WellFormedAll es → N.new ∉ Expr.namesAll es →
      ExprsRel (.renaming D N) 0 (Γ.renamings ρ) es (Expr.renameLocalAll N D Γ es)
  | [], _, _ => .nil
  | e :: es, formed, fresh =>
    .cons (ExprRel.renameLocal exchanges e formed.1 (fresh_append fresh).1)
      (ExprsRel.renameLocal exchanges es formed.2 (fresh_append fresh).2)

end

private theorem optionalRel_renameLocal (exchanges : ρ.apply = Equiv.swap N.old N.new) {Γ : Marks}
    (e : Option Expr) (formed : Expr.WellFormedOption e) (fresh : N.new ∉ Expr.namesOption e) :
    Option.Rel (ExprRel (.renaming D N) 0 (Γ.renamings ρ)) e
      (e.map (Expr.renameLocal N D Γ)) := by
  cases e with
  | none => exact .none
  | some e => exact .some (.renameLocal exchanges e formed fresh)

def Home (N : NewName) (scopes : List LocalScope) : Prop :=
  ∀ q ∈ scopes, q.path = N.scope → N.old ∉ q.body.flatMap Stmt.fixed

omit D in
private theorem Home.append {scopes scopes' : List LocalScope} (h : Home N (scopes ++ scopes')) :
    Home N scopes ∧ Home N scopes' :=
  List.forall_mem_append.mp h

def Marks.Keeps (Γ : Marks) (N : NewName) (names : List String) : Prop :=
  Γ.at (some 0) = true → N.old ∉ names

private theorem Marks.Keeps.append {Γ : Marks} {names names' : List String}
    (h : Γ.Keeps N (names ++ names')) : Γ.Keeps N names ∧ Γ.Keeps N names' :=
  ⟨fun marked member => h marked (List.mem_append_left _ member),
    fun marked member => h marked (List.mem_append_right _ member)⟩

private theorem Marks.Keeps.kept (exchanges : ρ.apply = Equiv.swap N.old N.new) {Γ : Marks}
    {name : String} (h : Γ.Keeps N [name]) (fresh : N.new ≠ name) : Kept (Γ.renamings ρ) name := by
  rw [Kept, Marks.renamed_renamings]
  split
  · rename_i marked
    have other : name ≠ N.old := fun same => h marked (List.mem_singleton.mpr same.symm)
    rw [exchanges]
    exact Equiv.swap_apply_of_ne_of_ne other fresh.symm
  · rfl

private theorem Home.enter {path : Path} {params : List Token} {body : List Stmt}
    {scopes : List LocalScope} (h : Home N (⟨path, params, body⟩ :: scopes)) (Γ : Marks) :
    (Γ.enter N path).Keeps N (body.flatMap Stmt.fixed) ∧ Home N scopes := by
  obtain ⟨own, inner⟩ := List.forall_mem_cons.mp h
  refine ⟨fun marked => own ?_, inner⟩
  simpa [Marks.at, Marks.enter] using marked

mutual

private theorem StmtRel.renameLocal (exchanges : ρ.apply = Equiv.swap N.old N.new) :
    ∀ (s : Stmt) (Γ : Marks) (path : Path), s.WellFormed → N.new ∉ s.names →
      Home N (s.scopes path) → Γ.Keeps N s.fixed →
      StmtRel (.renaming D N) 0 (Γ.renamings ρ) s (s.renameLocal N D Γ path)
  | .expression e, _, _, formed, fresh, _, _ =>
    .expression (.renameLocal exchanges e formed fresh)
  | .print e, _, _, formed, fresh, _, _ => .print (.renameLocal exchanges e formed fresh)
  | .var name initializer, Γ, _, formed, fresh, _, _ => by
    have value : Option.Rel (ExprRel (.renaming D N) 0 (Γ.renamings ρ)) initializer
        (initializer.map (Expr.renameLocal N D Γ)) :=
      optionalRel_renameLocal exchanges initializer formed.2 (List.not_mem_of_not_mem_cons fresh)
    have declared := StmtRel.var name value
    rw [Marks.renamed_renamings, Token.later_zero,
      ← NewName.give_eq exchanges (List.ne_of_not_mem_cons fresh)] at declared
    exact declared
  | .block body, Γ, path, formed, fresh, home, _ =>
    .block _ (Marks.allowed exchanges (decide (path = N.scope)))
      (StmtsRel.renameLocal exchanges body (Γ.enter N path) path 0 formed fresh
        (home.enter Γ).2 (home.enter Γ).1)
  | .branch condition thenBranch elseBranch, Γ, path, formed, fresh, home, keeps => by
    obtain ⟨fresh₁, fresh₂, fresh₃⟩ := And.imp_right fresh_append (fresh_append fresh)
    exact .branch (.renameLocal exchanges condition formed.1 fresh₁)
      (StmtRel.renameLocal exchanges thenBranch Γ _ formed.2.1.1 fresh₂ home.append.1
        keeps.append.1)
      (OptionalRel.renameLocal exchanges elseBranch Γ _ formed.2.2 fresh₃ home.append.2
        keeps.append.2)
  | .loop condition body, Γ, path, formed, fresh, home, keeps =>
    .loop (.renameLocal exchanges condition formed.1 (fresh_append fresh).1)
      (StmtRel.renameLocal exchanges body Γ path formed.2.1 (fresh_append fresh).2 home keeps)
  | .function decl, Γ, path, formed, fresh, home, keeps =>
    .function (keeps.kept exchanges (List.ne_of_not_mem_cons fresh))
      (FunctionRel.renameLocal exchanges decl Γ path formed
        (List.not_mem_of_not_mem_cons fresh) home)
  | .ret keyword value, Γ, _, formed, fresh, _, _ =>
    .ret keyword (optionalRel_renameLocal exchanges value formed fresh)
  | .classDecl name none methods, Γ, path, formed, fresh, home, keeps =>
    .classDecl (keeps.kept exchanges (List.ne_of_not_mem_cons fresh))
      (FunctionsRel.renameLocal exchanges methods (false :: Γ) path 0 formed.2.2
        (List.not_mem_of_not_mem_cons fresh) home)
  | .classDecl name (some e) methods, Γ, path, formed, fresh, home, keeps => by
    obtain ⟨fresh₁, fresh₂⟩ := fresh_append (List.not_mem_of_not_mem_cons fresh)
    exact .subclass (keeps.kept exchanges (List.ne_of_not_mem_cons fresh))
      (.renameLocal exchanges e (formed.2.1 e rfl).1 fresh₁)
      (FunctionsRel.renameLocal exchanges methods (false :: false :: Γ) path 0 formed.2.2
        fresh₂ home)

private theorem OptionalRel.renameLocal (exchanges : ρ.apply = Equiv.swap N.old N.new) :
    ∀ (s : Option Stmt) (Γ : Marks) (path : Path), Stmt.WellFormedOption s →
      N.new ∉ Stmt.namesOption s → Home N (Stmt.scopesOption path s) →
      Γ.Keeps N (Stmt.fixedOption s) →
      OptionalRel (.renaming D N) 0 (Γ.renamings ρ) s (Stmt.renameLocalOption N D Γ path s)
  | none, _, _, _, _, _, _ => .none
  | some s, Γ, path, formed, fresh, home, keeps =>
    .some (StmtRel.renameLocal exchanges s Γ path formed.1 fresh home keeps)

theorem StmtsRel.renameLocal (exchanges : ρ.apply = Equiv.swap N.old N.new) :
    ∀ (ss : List Stmt) (Γ : Marks) (path : Path) (i : Nat), Stmt.WellFormedAll ss →
      N.new ∉ Stmt.namesAll ss → Home N (Stmt.scopesAll path i ss) →
      Γ.Keeps N (ss.flatMap Stmt.fixed) →
      StmtsRel (.renaming D N) 0 (Γ.renamings ρ) ss (Stmt.renameLocalAll N D Γ path i ss)
  | [], _, _, _, _, _, _, _ => .nil
  | s :: ss, Γ, path, i, formed, fresh, home, keeps =>
    .cons (StmtRel.renameLocal exchanges s Γ _ formed.1 (fresh_append fresh).1 home.append.1
        keeps.append.1)
      (StmtsRel.renameLocal exchanges ss Γ path (i + 1) formed.2 (fresh_append fresh).2
        home.append.2 keeps.append.2)

private theorem FunctionRel.renameLocal (exchanges : ρ.apply = Equiv.swap N.old N.new) :
    ∀ (decl : FunctionDecl) (Γ : Marks) (path : Path), decl.WellFormed → N.new ∉ decl.names →
      Home N (decl.scopes path) →
      FunctionRel (.renaming D N) 0 (Γ.renamings ρ) decl (decl.renameLocal N D Γ path)
  | .mk site name params body, Γ, path, formed, fresh, home => by
    have inner := StmtsRel.renameLocal exchanges body (Γ.enter N path) path 0 formed.2.2
      (fresh_append fresh).2 (home.enter Γ).2 (home.enter Γ).1
    have site_same : (Mirror.renaming D N).site site site := rfl
    have rel := FunctionRel.intro _ name params
      (Marks.allowed exchanges (decide (path = N.scope))) site_same rfl inner
    have given : params.map (N.give ((Γ.enter N path).at (some 0))) = params.map fun p =>
        (p.rename
          (Renaming.apply (if decide (path = N.scope) then ρ else .refl) p.lexeme)).later 0 := by
      refine List.map_congr_left fun p member => ?_
      have new : N.new ≠ p.lexeme := fun same =>
        (fresh_append fresh).1 (same ▸ List.mem_map_of_mem member)
      have own : (Γ.enter N path).at (some 0) = decide (path = N.scope) := rfl
      rw [NewName.give_eq exchanges new, Token.later_zero, own]
      cases decide (path = N.scope) <;> rfl
    rw [FunctionDecl.renameLocal, given]
    exact rel

private theorem FunctionsRel.renameLocal (exchanges : ρ.apply = Equiv.swap N.old N.new) :
    ∀ (decls : List FunctionDecl) (Γ : Marks) (path : Path) (i : Nat),
      FunctionDecl.WellFormedAll decls → N.new ∉ FunctionDecl.namesAll decls →
      Home N (FunctionDecl.scopesAll path i decls) →
      FunctionsRel (.renaming D N) 0 (Γ.renamings ρ) decls
        (FunctionDecl.renameLocalAll N D Γ path i decls)
  | [], _, _, _, _, _, _ => .nil
  | decl :: decls, Γ, path, i, formed, fresh, home =>
    .cons (FunctionRel.renameLocal exchanges decl Γ _ formed.1 (fresh_append fresh).1
        home.append.1)
      (FunctionsRel.renameLocal exchanges decls Γ path (i + 1) formed.2 (fresh_append fresh).2
        home.append.2)

end

end

end LoxLang
