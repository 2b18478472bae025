import LoxLang.Proofs.ClassPlaces

/-!
The scopes around a `super`.  In an accepted program it stands in a method of a derived class,
perhaps in functions and blocks inside of that method.  Going out from it, the walk comes to the
scope of the method, then to the one for its object, and then to the one for the superclass, which
is the first in which `super` is found.
-/

set_option autoImplicit false
set_option relaxedAutoImplicit false

namespace LoxLang

def StaticFrame.IsPlain (σ : StaticFrame) : Prop :=
  σ.origin.isPlain ∧ ¬σ.names.contains "super"

namespace StaticStack

/-- The scopes around a place in a method of a derived class: some inside of the method, that of the
method itself, that for its object, that for the superclass, and those around the class. -/
def InMethod (Γ inner : StaticStack) (decl : FunctionDecl) (name : Token)
    (methods : List FunctionDecl) (outer : StaticStack) : Prop :=
  ∃ names, Γ = inner ++ ⟨.call decl, names⟩ :: (outer.inheriting name methods).receiving decl ∧
    decl ∈ methods ∧ ∀ σ ∈ inner ++ [⟨.call decl, names⟩], σ.IsPlain

theorem inMethod_iff {Γ inner : StaticStack} {decl : FunctionDecl} {name : Token}
    {methods : List FunctionDecl} {outer : StaticStack} :
    Γ.InMethod inner decl name methods outer ↔
      decl ∈ methods ∧ Γ.InBody "super" inner decl ((outer.inheriting name methods).receiving decl) := by
  constructor
  · rintro ⟨names, same, member, all⟩
    exact ⟨member, names, same, all⟩
  · rintro ⟨member, names, same, all⟩
    exact ⟨names, same, member, all⟩

def Deriving (Γ : StaticStack) : Prop :=
  ∃ inner decl name methods outer, Γ.InMethod inner decl name methods outer

namespace Deriving

variable {Γ : StaticStack}

private theorem method {decl : FunctionDecl} {methods : List FunctionDecl} (member : decl ∈ methods)
    (name : Token) (outer : StaticStack) :
    Deriving (⟨.call decl, ∅⟩ :: (outer.inheriting name methods).receiving decl) :=
  ⟨[], decl, name, methods, outer, inMethod_iff.mpr ⟨member, .start "super" decl _⟩⟩

private theorem cons (h : Deriving Γ) {origin : Origin} (plain : origin.isPlain) :
    Deriving (⟨origin, ∅⟩ :: Γ) := by
  obtain ⟨inner, decl, name, methods, outer, inMethod⟩ := h
  obtain ⟨member, inBody⟩ := inMethod_iff.mp inMethod
  exact ⟨_, decl, name, methods, outer, inMethod_iff.mpr ⟨member, inBody.cons plain⟩⟩

private theorem mark (h : Deriving Γ) {name : String} (other : name ≠ "super") (complete : Bool) :
    Deriving (Γ.mark name complete) := by
  obtain ⟨inner, decl, className, methods, outer, inMethod⟩ := h
  obtain ⟨member, inBody⟩ := inMethod_iff.mp inMethod
  obtain ⟨inner', inBody'⟩ := inBody.mark other complete
  exact ⟨inner', decl, className, methods, outer, inMethod_iff.mpr ⟨member, inBody'⟩⟩

private theorem holdsInClasses : HoldsInClasses fun c Γ => c = .derived → Γ.Deriving where
  outside _ derived := by cases derived
  method _ _ derived := by cases derived
  derivedMethod _ name _ Γ member _ := .method member name Γ
  cons _ plain inside derived := (inside derived).cons plain
  mark complete isName inside derived := (inside derived).mark isName.ne_super complete

end Deriving

/-- From inside of a method the first `super` is in the scope for the superclass. -/
theorem InMethod.distance? {Γ inner : StaticStack} {decl : FunctionDecl} {name : Token}
    {methods : List FunctionDecl} {outer : StaticStack}
    (h : Γ.InMethod inner decl name methods outer) :
    Γ.distance? "super" = some (inner.length + 2) := by
  have beside : ((outer.inheriting name methods).receiving decl).distance? "super" = some 1 := by
    simp [StaticStack.distance?, receiving, inheriting, List.findIdx?_cons,
      Std.TreeMap.contains_insert]
  rw [(inMethod_iff.mp h).2.distance?, beside, Option.map_some, Nat.add_comm]

end StaticStack

def Note.Placed : Note → Prop
  | .met e Γ => e.WellFormed ∧ ∀ id keyword method, e = .super id keyword method → Γ.Deriving
  | .fault _ => True

theorem Walk.program_placed {A : Expr → StaticStack → Prop} {program : List Stmt}
    (wellFormed : Stmt.WellFormedAll program)
    (accepted : Accepted A none (Walk.program program)) : ∀ n ∈ Walk.program program, n.Placed := by
  intro n member
  have within := Walk.program_within StaticStack.Deriving.holdsInClasses wellFormed accepted n member
  cases n with
  | fault e => trivial
  | met e Γ => exact ⟨within.1, fun id keyword method same => within.2.2 id keyword method same rfl⟩

end LoxLang
