import LoxLang.Proofs.BindingRules
import LoxLang.Proofs.LocalRenaming
import LoxLang.Proofs.WellFormed
import Mathlib.Data.List.Nodup

/-!
The scopes of a program.  Different ways lead to them; and if the program obeys the rules of
binding, a name is declared once in each, so what is a variable there is neither a function nor a
class.
-/

set_option autoImplicit false
set_option relaxedAutoImplicit false

namespace LoxLang

/-! Ways. -/

structure Apart (kind : Path → Prop) (scopes : List LocalScope) : Prop where
  ways : ∀ q ∈ scopes, kind q.path
  nodup : (scopes.map LocalScope.path).Nodup

def Through (path : Path) (way : Path) : Prop := path <:+ way

def Onward (path : Path) (i : Nat) (way : Path) : Prop := ∃ j, i ≤ j ∧ j :: path <:+ way

private theorem Through.unique {path way : Path} {i j : Nat} (h : Through (i :: path) way)
    (h' : Through (j :: path) way) : i = j := by
  have same := (List.suffix_of_suffix_length_le h h' (Nat.le_refl _)).eq_of_length rfl
  exact (List.cons.inj same).1

private theorem Onward.through {path way : Path} {i : Nat} (h : Onward path i way) :
    Through path way := by
  obtain ⟨j, _, suffix⟩ := h
  exact (List.suffix_cons j path).trans suffix

namespace Apart

variable {kind : Path → Prop} {path : Path} {i : Nat} {scopes scopes' : List LocalScope}

private theorem nil : Apart kind [] := ⟨by simp, .nil⟩

private theorem append (h : Apart (Through (i :: path)) scopes)
    (h' : Apart (Onward path (i + 1)) scopes') : Apart (Onward path i) (scopes ++ scopes') where
  ways := by
    refine List.forall_mem_append.mpr ⟨fun q hq => ⟨i, Nat.le_refl i, h.ways q hq⟩, ?_⟩
    intro q hq
    obtain ⟨j, later, suffix⟩ := h'.ways q hq
    exact ⟨j, Nat.le_of_succ_le later, suffix⟩
  nodup := by
    rw [List.map_append]
    refine List.nodup_append.mpr ⟨h.nodup, h'.nodup, ?_⟩
    rintro _ member _ member' rfl
    obtain ⟨q, hq, rfl⟩ := List.mem_map.mp member
    obtain ⟨q', hq', same⟩ := List.mem_map.mp member'
    obtain ⟨j, later, suffix⟩ := h'.ways q' hq'
    have first : Through (i :: path) q.path := h.ways q hq
    have equal : i = j := first.unique (same ▸ suffix)
    omega

private theorem through (h : Apart (Onward path i) scopes) : Apart (Through path) scopes :=
  ⟨fun q hq => (h.ways q hq).through, h.nodup⟩

private theorem cons (h : Apart (Onward path i) scopes) (params : List Token) (body : List Stmt) :
    Apart (Through path) (⟨path, params, body⟩ :: scopes) where
  ways := List.forall_mem_cons.mpr ⟨List.suffix_rfl, h.through.ways⟩
  nodup := by
    refine List.nodup_cons.mpr ⟨fun member => ?_, h.nodup⟩
    obtain ⟨q, hq, same⟩ := List.mem_map.mp member
    obtain ⟨j, _, suffix⟩ := h.ways q hq
    have longer : path.length + 1 ≤ path.length := by
      simpa [same] using suffix.length_le
    omega

end Apart

mutual

private theorem Stmt.scopes_apart : ∀ (path : Path) (s : Stmt), Apart (Through path) (s.scopes path)
  | path, .block body => (Stmt.scopesAll_apart path 0 body).cons [] body
  | path, .branch _ thenBranch elseBranch => by
    have others := (Stmt.scopesOption_apart (1 :: path) elseBranch).append Apart.nil
    rw [List.append_nil] at others
    exact ((Stmt.scopes_apart (0 :: path) thenBranch).append others).through
  | path, .loop _ body => Stmt.scopes_apart path body
  | path, .function decl => FunctionDecl.scopes_apart path decl
  | path, .classDecl _ _ methods => (FunctionDecl.scopesAll_apart path 0 methods).through
  | _, .expression _ | _, .print _ | _, .var _ _ | _, .ret _ _ => .nil

private theorem Stmt.scopesOption_apart : ∀ (path : Path) (s : Option Stmt),
    Apart (Through path) (Stmt.scopesOption path s)
  | _, none => .nil
  | path, some s => Stmt.scopes_apart path s

private theorem Stmt.scopesAll_apart : ∀ (path : Path) (i : Nat) (ss : List Stmt),
    Apart (Onward path i) (Stmt.scopesAll path i ss)
  | _, _, [] => .nil
  | path, i, s :: ss =>
    (Stmt.scopes_apart (i :: path) s).append (Stmt.scopesAll_apart path (i + 1) ss)

private theorem FunctionDecl.scopes_apart : ∀ (path : Path) (decl : FunctionDecl),
    Apart (Through path) (decl.scopes path)
  | path, .mk _ _ params body => (Stmt.scopesAll_apart path 0 body).cons params body

private theorem FunctionDecl.scopesAll_apart : ∀ (path : Path) (i : Nat)
    (decls : List FunctionDecl),
    Apart (Onward path i) (FunctionDecl.scopesAll path i decls)
  | _, _, [] => .nil
  | path, i, decl :: decls =>
    (FunctionDecl.scopes_apart (i :: path) decl).append
      (FunctionDecl.scopesAll_apart path (i + 1) decls)

end

/-- A scope of a program is told by the way that leads to it. -/
theorem programScopes_unique {program : List Stmt} {q q' : LocalScope}
    (hq : q ∈ programScopes program) (hq' : q' ∈ programScopes program)
    (same : q.path = q'.path) : q = q' :=
  List.inj_on_of_nodup_map (Stmt.scopesAll_apart [] 0 program).nodup hq hq' same

/-! What is declared in a scope. -/

mutual

/-- The names of the functions and classes that a statement declares in the scope in which it
stands. -/
def Stmt.fixed : Stmt → List String
  | .function decl => [decl.name.lexeme]
  | .classDecl name _ _ => [name.lexeme]
  | .branch _ thenBranch elseBranch => thenBranch.fixed ++ Stmt.fixedOption elseBranch
  | .loop _ body => body.fixed
  | .var _ _ | .expression _ | .print _ | .block _ | .ret _ _ => []

def Stmt.fixedOption : Option Stmt → List String
  | none => []
  | some s => s.fixed

end

private theorem perm_twice {names fixed names' fixed' : List String}
    {declared declared' : List String}
    (h : declared.Perm (names ++ fixed)) (h' : declared'.Perm (names' ++ fixed')) :
    (declared ++ declared').Perm ((names ++ names') ++ (fixed ++ fixed')) := by
  refine (h.append h').trans ?_
  rw [List.append_assoc, List.append_assoc]
  refine List.Perm.append_left names ?_
  rw [← List.append_assoc, ← List.append_assoc]
  exact List.Perm.append_right fixed' List.perm_append_comm

mutual

/-- What a statement declares are variables, functions and classes. -/
theorem Stmt.declared_perm : ∀ s : Stmt,
    s.declared.Perm (s.variables.map Token.lexeme ++ s.fixed)
  | .branch _ thenBranch elseBranch => by
    rw [Stmt.declared, Stmt.variables, Stmt.fixed, List.map_append]
    exact perm_twice (Stmt.declared_perm thenBranch) (Stmt.declaredOption_perm elseBranch)
  | .loop _ body => Stmt.declared_perm body
  | .var _ _ | .function _ | .classDecl _ _ _ | .expression _ | .print _ | .block _ | .ret _ _ =>
    .refl _

private theorem Stmt.declaredOption_perm : ∀ s : Option Stmt,
    (Stmt.declaredOption s).Perm ((Stmt.variablesOption s).map Token.lexeme ++ Stmt.fixedOption s)
  | none => .refl _
  | some s => Stmt.declared_perm s

end

private theorem Stmt.declaredAll_perm (ss : List Stmt) :
    (Stmt.declaredAll ss).Perm
      ((ss.flatMap Stmt.variables).map Token.lexeme ++ ss.flatMap Stmt.fixed) := by
  induction ss with
  | nil => exact .refl _
  | cons s ss ih =>
    rw [Stmt.declaredAll_cons, List.flatMap_cons, List.flatMap_cons, List.map_append]
    exact perm_twice s.declared_perm ih

structure LocalScope.Regular (q : LocalScope) : Prop where
  nodup : (q.params.map Token.lexeme ++ Stmt.declaredAll q.body).Nodup
  names : ∀ name ∈ q.variables, name.IsName

theorem LocalScope.Regular.not_fixed {q : LocalScope} (h : q.Regular) {name : Token}
    (member : name ∈ q.variables) : name.lexeme ∉ q.body.flatMap Stmt.fixed := by
  have perm := (Stmt.declaredAll_perm q.body).append_left (q.params.map Token.lexeme)
  have nodup := perm.nodup_iff.mp h.nodup
  rw [← List.append_assoc, ← List.map_append] at nodup
  intro fixed
  exact (List.nodup_append.mp nodup).2.2 _ (List.mem_map_of_mem member) _ fixed rfl

mutual

private theorem Stmt.variables_names : ∀ s : Stmt, s.WellFormed → ∀ name ∈ s.variables, name.IsName
  | .var _ _, h => List.forall_mem_singleton.mpr h.1
  | .branch _ thenBranch elseBranch, h =>
    List.forall_mem_append.mpr ⟨Stmt.variables_names thenBranch h.2.1.1,
      Stmt.variablesOption_names elseBranch h.2.2⟩
  | .loop _ body, h => Stmt.variables_names body h.2.1
  | .function _, _ | .classDecl _ _ _, _ | .expression _, _ | .print _, _ | .block _, _
  | .ret _ _, _ => List.forall_mem_nil _

private theorem Stmt.variablesOption_names : ∀ s : Option Stmt, Stmt.WellFormedOption s →
    ∀ name ∈ Stmt.variablesOption s, name.IsName
  | none, _ => List.forall_mem_nil _
  | some s, h => Stmt.variables_names s h.1

end

private theorem Stmt.variablesAll_names : ∀ ss : List Stmt, Stmt.WellFormedAll ss →
    ∀ name ∈ ss.flatMap Stmt.variables, name.IsName
  | [], _ => List.forall_mem_nil _
  | s :: ss, h =>
    List.forall_mem_append.mpr ⟨s.variables_names h.1, Stmt.variablesAll_names ss h.2⟩

mutual

private theorem Stmt.scopes_regular : ∀ (s : Stmt) (path : Path)
    (around : List Enclosure), s.WellFormed →
    (∀ p ∈ s.places around, p.Sound) → ∀ q ∈ s.scopes path, q.Regular
  | .block body, path, around, formed, sound => by
    rw [Stmt.places, List.forall_mem_cons] at sound
    have own : (⟨path, [], body⟩ : LocalScope).Regular :=
      ⟨sound.1, Stmt.variablesAll_names body formed⟩
    exact List.forall_mem_cons.mpr
      ⟨own, Stmt.scopesAll_regular body path 0 _ formed sound.2⟩
  | .branch condition thenBranch elseBranch, path, around, formed, sound => by
    rw [Stmt.places, List.forall_mem_cons, List.forall_mem_append, List.forall_mem_append] at sound
    exact List.forall_mem_append.mpr
      ⟨Stmt.scopes_regular thenBranch _ around formed.2.1.1 sound.2.2.1,
        Stmt.scopesOption_regular elseBranch _ around formed.2.2 sound.2.2.2⟩
  | .loop condition body, path, around, formed, sound => by
    rw [Stmt.places, List.forall_mem_cons, List.forall_mem_append] at sound
    exact Stmt.scopes_regular body path around formed.2.1 sound.2.2
  | .function decl, path, around, formed, sound => by
    rw [Stmt.places, List.forall_mem_cons] at sound
    exact FunctionDecl.scopes_regular decl path .function around formed sound.2
  | .classDecl name superclass methods, path, around, formed, sound => by
    rw [Stmt.places, List.forall_mem_cons, List.forall_mem_append] at sound
    exact FunctionDecl.scopesAll_regular methods path 0 _ formed.2.2 sound.2.2
  | .expression _, _, _, _, _ | .print _, _, _, _, _ | .var _ _, _, _, _, _
  | .ret _ _, _, _, _, _ => List.forall_mem_nil _

private theorem Stmt.scopesOption_regular : ∀ (s : Option Stmt) (path : Path)
    (around : List Enclosure),
    Stmt.WellFormedOption s → (∀ p ∈ Stmt.placesOption around s, p.Sound) →
    ∀ q ∈ Stmt.scopesOption path s, q.Regular
  | none, _, _, _, _ => List.forall_mem_nil _
  | some s, path, around, formed, sound => Stmt.scopes_regular s path around formed.1 sound

private theorem Stmt.scopesAll_regular : ∀ (ss : List Stmt) (path : Path) (i : Nat)
    (around : List Enclosure), Stmt.WellFormedAll ss →
    (∀ p ∈ Stmt.placesAll around ss, p.Sound) → ∀ q ∈ Stmt.scopesAll path i ss, q.Regular
  | [], _, _, _, _, _ => List.forall_mem_nil _
  | s :: ss, path, i, around, formed, sound => by
    rw [Stmt.placesAll, List.forall_mem_append] at sound
    exact List.forall_mem_append.mpr
      ⟨Stmt.scopes_regular s _ around formed.1 sound.1,
        Stmt.scopesAll_regular ss path (i + 1) around formed.2 sound.2⟩

private theorem FunctionDecl.scopes_regular : ∀ (decl : FunctionDecl) (path : Path)
    (role : FunctionDecl → Enclosure) (around : List Enclosure), decl.WellFormed →
    (∀ p ∈ decl.places role around, p.Sound) → ∀ q ∈ decl.scopes path, q.Regular
  | .mk _ name params body, path, role, around, formed, sound => by
    rw [FunctionDecl.places, List.forall_mem_cons] at sound
    have own : (⟨path, params, body⟩ : LocalScope).Regular :=
      ⟨sound.1, List.forall_mem_append.mpr
        ⟨formed.2.1, Stmt.variablesAll_names body formed.2.2⟩⟩
    exact List.forall_mem_cons.mpr
      ⟨own, Stmt.scopesAll_regular body path 0 _ formed.2.2 sound.2⟩

private theorem FunctionDecl.scopesAll_regular : ∀ (decls : List FunctionDecl) (path : Path)
    (i : Nat) (around : List Enclosure), FunctionDecl.WellFormedAll decls →
    (∀ p ∈ FunctionDecl.placesAll around decls, p.Sound) →
    ∀ q ∈ FunctionDecl.scopesAll path i decls, q.Regular
  | [], _, _, _, _, _ => List.forall_mem_nil _
  | decl :: decls, path, i, around, formed, sound => by
    rw [FunctionDecl.placesAll, List.forall_mem_append] at sound
    exact List.forall_mem_append.mpr
      ⟨FunctionDecl.scopes_regular decl _ .method around formed.1 sound.1,
        FunctionDecl.scopesAll_regular decls path (i + 1) around formed.2 sound.2⟩

end

theorem programScopes_regular {program : List Stmt} (formed : Stmt.WellFormedAll program)
    (clear : Walk.Clear (Walk.program program)) : ∀ q ∈ programScopes program, q.Regular :=
  Stmt.scopesAll_regular program [] 0 [] formed ((Walk.program_clear program).mp clear)

/-! The scopes of a program in which a variable has a new name. -/

section

variable {N : NewName} {D : Distances}

mutual

private theorem Stmt.variables_renameLocal (Γ : Marks) : ∀ (s : Stmt) (path : Path),
    (s.renameLocal N D Γ path).variables = s.variables.map (N.give (Γ.at (some 0)))
  | .branch _ thenBranch elseBranch, path => by
    rw [Stmt.variables, List.map_append]
    exact congrArg₂ (· ++ ·) (Stmt.variables_renameLocal Γ thenBranch (0 :: path))
      (Stmt.variablesOption_renameLocal Γ elseBranch (1 :: path))
  | .loop _ body, path => Stmt.variables_renameLocal Γ body path
  | .classDecl _ none _, _ | .classDecl _ (some _) _, _ => rfl
  | .var _ _, _ | .function _, _ | .expression _, _ | .print _, _ | .block _, _ | .ret _ _, _ => rfl

private theorem Stmt.variablesOption_renameLocal (Γ : Marks) : ∀ (s : Option Stmt) (path : Path),
    Stmt.variablesOption (Stmt.renameLocalOption N D Γ path s) =
      (Stmt.variablesOption s).map (N.give (Γ.at (some 0)))
  | none, _ => rfl
  | some s, path => Stmt.variables_renameLocal Γ s path

end

private theorem Stmt.variablesAll_renameLocal (Γ : Marks) (path : Path) (i : Nat) (ss : List Stmt) :
    (Stmt.renameLocalAll N D Γ path i ss).flatMap Stmt.variables =
      (ss.flatMap Stmt.variables).map (N.give (Γ.at (some 0))) := by
  induction ss generalizing i with
  | nil => rfl
  | cons s ss ih =>
    rw [List.flatMap_cons, List.map_append, ← ih (i + 1), ← Stmt.variables_renameLocal Γ s]
    rfl

def LocalScope.outline (q : LocalScope) : Path × List Token := (q.path, q.variables)

def LocalScope.outlineRenamed (N : NewName) (q : LocalScope) : Path × List Token :=
  (q.path, q.variables.map (N.give (decide (q.path = N.scope))))

private theorem outline_renameLocal (path : Path) (Γ : Marks) (params : List Token)
    (body : List Stmt) :
    LocalScope.outline ⟨path, params.map (N.give ((Γ.enter N path).at (some 0))),
        Stmt.renameLocalAll N D (Γ.enter N path) path 0 body⟩ =
      LocalScope.outlineRenamed N ⟨path, params, body⟩ := by
  unfold LocalScope.outline LocalScope.outlineRenamed LocalScope.variables
  rw [Stmt.variablesAll_renameLocal, ← List.map_append]
  rfl

mutual

private theorem Stmt.scopes_renameLocal : ∀ (s : Stmt) (Γ : Marks) (path : Path),
    ((s.renameLocal N D Γ path).scopes path).map LocalScope.outline =
      (s.scopes path).map (LocalScope.outlineRenamed N)
  | .block body, Γ, path =>
    congrArg₂ List.cons (outline_renameLocal path Γ [] body)
      (Stmt.scopesAll_renameLocal body (Γ.enter N path) path 0)
  | .branch _ thenBranch elseBranch, Γ, path => by
    rw [Stmt.renameLocal, Stmt.scopes, Stmt.scopes, List.map_append, List.map_append,
      Stmt.scopes_renameLocal thenBranch, Stmt.scopesOption_renameLocal elseBranch]
  | .loop _ body, Γ, path => Stmt.scopes_renameLocal body Γ path
  | .function decl, Γ, path => FunctionDecl.scopes_renameLocal decl Γ path
  | .classDecl _ none methods, Γ, path => FunctionDecl.scopesAll_renameLocal methods _ path 0
  | .classDecl _ (some _) methods, Γ, path => FunctionDecl.scopesAll_renameLocal methods _ path 0
  | .expression _, _, _ | .print _, _, _ | .var _ _, _, _ | .ret _ _, _, _ => rfl

private theorem Stmt.scopesOption_renameLocal : ∀ (s : Option Stmt) (Γ : Marks) (path : Path),
    (Stmt.scopesOption path (Stmt.renameLocalOption N D Γ path s)).map LocalScope.outline =
      (Stmt.scopesOption path s).map (LocalScope.outlineRenamed N)
  | none, _, _ => rfl
  | some s, Γ, path => Stmt.scopes_renameLocal s Γ path

private theorem Stmt.scopesAll_renameLocal : ∀ (ss : List Stmt) (Γ : Marks) (path : Path) (i : Nat),
    (Stmt.scopesAll path i (Stmt.renameLocalAll N D Γ path i ss)).map LocalScope.outline =
      (Stmt.scopesAll path i ss).map (LocalScope.outlineRenamed N)
  | [], _, _, _ => rfl
  | s :: ss, Γ, path, i => by
    rw [Stmt.renameLocalAll, Stmt.scopesAll, Stmt.scopesAll, List.map_append, List.map_append,
      Stmt.scopes_renameLocal s, Stmt.scopesAll_renameLocal ss]

private theorem FunctionDecl.scopes_renameLocal : ∀ (decl : FunctionDecl) (Γ : Marks) (path : Path),
    ((decl.renameLocal N D Γ path).scopes path).map LocalScope.outline =
      (decl.scopes path).map (LocalScope.outlineRenamed N)
  | .mk _ _ params body, Γ, path =>
    congrArg₂ List.cons (outline_renameLocal path Γ params body)
      (Stmt.scopesAll_renameLocal body (Γ.enter N path) path 0)

private theorem FunctionDecl.scopesAll_renameLocal : ∀ (decls : List FunctionDecl) (Γ : Marks)
    (path : Path) (i : Nat),
    (FunctionDecl.scopesAll path i
        (FunctionDecl.renameLocalAll N D Γ path i decls)).map LocalScope.outline =
      (FunctionDecl.scopesAll path i decls).map (LocalScope.outlineRenamed N)
  | [], _, _, _ => rfl
  | decl :: decls, Γ, path, i => by
    rw [FunctionDecl.renameLocalAll, FunctionDecl.scopesAll, FunctionDecl.scopesAll,
      List.map_append, List.map_append, FunctionDecl.scopes_renameLocal decl,
      FunctionDecl.scopesAll_renameLocal decls]

end

theorem programScopes_renameLocal {program : List Stmt} {q : LocalScope}
    (scope : q ∈ programScopes program) (here : q.path = N.scope) :
    ∃ q' ∈ programScopes (renameLocal N D program),
      q'.path = q.path ∧ q'.variables = q.variables.map (N.give true) := by
  have outlines := Stmt.scopesAll_renameLocal (N := N) (D := D) program [false] [] 0
  have member : q.outlineRenamed N ∈ (programScopes (renameLocal N D program)).map
      LocalScope.outline := outlines ▸ List.mem_map_of_mem scope
  obtain ⟨q', scope', same⟩ := List.mem_map.mp member
  rw [LocalScope.outlineRenamed, decide_eq_true here] at same
  exact ⟨q', scope', congrArg Prod.fst same, congrArg Prod.snd same⟩

end

end LoxLang
