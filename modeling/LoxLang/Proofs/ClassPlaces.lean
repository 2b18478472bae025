import LoxLang.Proofs.Scoping
import LoxLang.Proofs.WalkNumbers

/-!
The scopes around places inside of classes.  What holds of the scopes inside of every method, and
goes on to hold when blocks and functions are entered and names are declared there, holds wherever
an accepted program has a `this` or a `super`: both stand inside of a method, perhaps in functions
and blocks inside of it.
-/

set_option autoImplicit false
set_option relaxedAutoImplicit false

namespace LoxLang

def Origin.isPlain : Origin → Bool
  | .block _ | .call _ => true
  | .receiver _ | .superclass _ _ => false

def StaticFrame.Without (x : String) (σ : StaticFrame) : Prop :=
  σ.origin.isPlain ∧ ¬σ.names.contains x

namespace StaticStack

/-- The scopes around a place in the body of a function, inside of the scopes around the function:
those of blocks and calls, the outermost of which is that of the function itself, and in none of
them has anything some name. -/
def InBody (x : String) (Γ inner : StaticStack) (decl : FunctionDecl) (base : StaticStack) : Prop :=
  ∃ names, Γ = inner ++ ⟨.call decl, names⟩ :: base ∧
    ∀ σ ∈ inner ++ [⟨.call decl, names⟩], σ.Without x

namespace InBody

variable {x : String} {Γ inner base : StaticStack} {decl : FunctionDecl}

/-- The function is called. -/
theorem start (x : String) (decl : FunctionDecl) (base : StaticStack) :
    InBody x (⟨.call decl, ∅⟩ :: base) [] decl base := by
  refine ⟨∅, rfl, fun σ here => ?_⟩
  obtain rfl := List.mem_singleton.mp here
  exact ⟨rfl, by simp⟩

theorem cons (h : Γ.InBody x inner decl base) {origin : Origin} (plain : origin.isPlain) :
    InBody x (⟨origin, ∅⟩ :: Γ) (⟨origin, ∅⟩ :: inner) decl base := by
  obtain ⟨names, rfl, all⟩ := h
  exact ⟨names, rfl, List.forall_mem_cons.mpr ⟨⟨plain, by simp⟩, all⟩⟩

theorem mark (h : Γ.InBody x inner decl base) {name : String} (other : name ≠ x)
    (complete : Bool) : ∃ inner', (Γ.mark name complete).InBody x inner' decl base := by
  have marked {σ : StaticFrame} (without : σ.Without x) :
      StaticFrame.Without x { σ with names := σ.names.insert name complete } :=
    ⟨without.1, by simpa [Std.TreeMap.contains_insert, other] using without.2⟩
  obtain ⟨names, rfl, all⟩ := h
  cases inner with
  | nil =>
    refine ⟨[], names.insert name complete, rfl, fun σ here => ?_⟩
    obtain rfl := List.mem_singleton.mp here
    exact marked (all _ List.mem_cons_self)
  | cons σ inner =>
    obtain ⟨first, rest⟩ := List.forall_mem_cons.mp all
    exact ⟨{ σ with names := σ.names.insert name complete } :: inner, names, rfl,
      List.forall_mem_cons.mpr ⟨marked first, rest⟩⟩

theorem distance? (h : Γ.InBody x inner decl base) :
    Γ.distance? x = (base.distance? x).map (· + (inner.length + 1)) := by
  obtain ⟨names, rfl, all⟩ := h
  obtain ⟨inside, own⟩ := List.forall_mem_append.mp all
  have absent : ∀ σ ∈ inner, σ.names.contains x = false :=
    fun σ here => Bool.eq_false_iff.mpr (inside σ here).2
  have called : names.contains x = false := Bool.eq_false_iff.mpr (own _ List.mem_cons_self).2
  rw [StaticStack.distance?, List.findIdx?_append, List.findIdx?_eq_none_iff.mpr absent,
    List.findIdx?_cons, called]
  have sums : (fun d => inner.length + (d + 1)) = (· + (inner.length + 1)) :=
    funext fun d => by omega
  simp [StaticStack.distance?, Function.comp_def, Nat.add_comm _ inner.length, sums]

end InBody

end StaticStack

/-- What holds of the scopes around the places inside of classes, given the kind of the class.  It
holds inside of the methods, and is kept where scopes are entered and names are declared. -/
structure HoldsInClasses (S : ClassContext → StaticStack → Prop) : Prop where
  outside : ∀ Γ, S .outside Γ
  method : ∀ decl (Γ : StaticStack), S .plain (⟨.call decl, ∅⟩ :: Γ.receiving decl)
  derivedMethod : ∀ decl name methods (Γ : StaticStack), decl ∈ methods →
    S .derived (⟨.call decl, ∅⟩ :: (Γ.inheriting name methods).receiving decl)
  cons : ∀ {c Γ} (origin : Origin), origin.isPlain → S c Γ → S c (⟨origin, ∅⟩ :: Γ)
  mark : ∀ {c} {Γ : StaticStack} {name : Token} (complete : Bool), name.IsName → S c Γ →
    S c (Γ.mark name.lexeme complete)

namespace HoldsInClasses

variable {S : ClassContext → StaticStack → Prop} (h : HoldsInClasses S) {c : ClassContext}
  {Γ : StaticStack}

include h

private theorem declare {name : Token} (isName : name.IsName) (inside : S c Γ) : S c
    (Γ.declare name) := by
  unfold StaticStack.declare
  split
  · exact inside
  · exact h.mark false isName inside

private theorem introduce {name : Token} (isName : name.IsName) (inside : S c Γ) :
    S c (Γ.introduce name) :=
  h.mark true isName (h.declare isName inside)

private theorem introduceAll {names : List Token} (areNames : ∀ p ∈ names, p.IsName)
    (inside : S c Γ) :
    S c (Γ.introduceAll names) := by
  induction names generalizing Γ with
  | nil => exact inside
  | cons name names ih =>
    obtain ⟨isName, areNames⟩ := List.forall_mem_cons.mp areNames
    exact ih areNames (h.introduce isName inside)

omit h

mutual

private theorem after (h : HoldsInClasses S) {Γ : StaticStack} (inside : S c Γ) :
    ∀ s : Stmt, s.WellFormed → S c (Walk.after Γ s)
  | .var _ _, wellFormed => h.introduce wellFormed.1 inside
  | .function (.mk _ _ _ _), wellFormed => h.introduce wellFormed.1 inside
  | .classDecl _ _ _, wellFormed => h.introduce wellFormed.1 inside
  | .branch _ thenBranch elseBranch, wellFormed =>
    h.after? (h.after inside thenBranch wellFormed.2.1.1) elseBranch wellFormed.2.2
  | .loop _ body, wellFormed => h.after inside body wellFormed.2.1
  | .expression _, _ | .print _, _ | .block _, _ | .ret _ _, _ => inside

private theorem after? (h : HoldsInClasses S) {Γ : StaticStack} (inside : S c Γ) :
    ∀ s : Option Stmt, Stmt.WellFormedOption s → S c (Walk.after? Γ s)
  | none, _ => inside
  | some s, wellFormed => h.after inside s wellFormed.1

end

end HoldsInClasses

/-- What is met is well formed; something holds of the scopes around a `this`, whatever class it
stands in, and of those around a `super` in a derived class. -/
def Note.Within (S : ClassContext → StaticStack → Prop) : Note → Prop
  | .met e Γ => e.WellFormed ∧ (∀ id keyword, e = .this id keyword → S .plain Γ ∨ S .derived Γ) ∧
      ∀ id keyword method, e = .super id keyword method → S .derived Γ
  | .fault _ => True

namespace Walk

variable {S : ClassContext → StaticStack → Prop}

private theorem within_of_faults {notes : List Note} (faults : ∀ n ∈ notes, ∃ e, n = .fault e) :
    ∀ n ∈ notes, n.Within S := by
  intro n member
  obtain ⟨e, rfl⟩ := faults n member
  trivial

private theorem within_nil : ∀ n ∈ ([] : List Note), n.Within S := List.forall_mem_nil _

private theorem within_append {notes notes' : List Note} (h : ∀ n ∈ notes, n.Within S)
    (h' : ∀ n ∈ notes', n.Within S) : ∀ n ∈ notes ++ notes', n.Within S :=
  List.forall_mem_append.mpr ⟨h, h'⟩

private theorem within_met {e : Expr} {Γ : StaticStack} (wellFormed : e.WellFormed)
    (notThis : ∀ id keyword, e ≠ .this id keyword)
    (notSuper : ∀ id keyword method, e ≠ .super id keyword method) :
    ∀ n ∈ [Note.met e Γ], n.Within S := by
  intro n member
  obtain rfl := List.mem_singleton.mp member
  exact ⟨wellFormed, fun _ _ same => absurd same (notThis _ _),
    fun _ _ _ same => absurd same (notSuper _ _ _)⟩

private theorem within_this {id : ExprId} {keyword : Token} {Γ : StaticStack}
    (wellFormed : (Expr.this id keyword).WellFormed) (inside : S .plain Γ ∨ S .derived Γ) :
    ∀ n ∈ [Note.met (.this id keyword) Γ], n.Within S := by
  intro n member
  obtain rfl := List.mem_singleton.mp member
  exact ⟨wellFormed, fun _ _ _ => inside, fun _ _ _ same => (by cases same)⟩

private theorem within_super {id : ExprId} {keyword method : Token} {Γ : StaticStack}
    (wellFormed : (Expr.super id keyword method).WellFormed) (inside : S .derived Γ) :
    ∀ n ∈ [Note.met (.super id keyword method) Γ], n.Within S := by
  intro n member
  obtain rfl := List.mem_singleton.mp member
  exact ⟨wellFormed, fun _ _ same => (by cases same), fun _ _ _ _ => inside⟩

private theorem within_variable (enclosing : ClassContext) (Γ : StaticStack) {id : ExprId}
    {name : Token}
    (isName : name.IsName) : ∀ n ∈ expr enclosing Γ (.variable id name), n.Within S :=
  within_append (within_of_faults (read_faults Γ name))
    (within_met isName (fun _ _ same => by cases same) fun _ _ _ same => by cases same)

mutual

private theorem expr_within {A : Expr → StaticStack → Prop} {enclosing : ClassContext}
    {Γ : StaticStack} (inside : S enclosing Γ) :
    ∀ e : Expr, e.WellFormed → Accepted A none (expr enclosing Γ e) →
      ∀ n ∈ expr enclosing Γ e, n.Within S
  | .literal _, _, _ => within_nil
  | .grouping inner, wellFormed, accepted | .unary _ inner, wellFormed, accepted
  | .get inner _, wellFormed, accepted => expr_within inside inner wellFormed accepted
  | .binary _ left right, wellFormed, accepted | .logical _ left right, wellFormed, accepted =>
    within_append (expr_within inside left wellFormed.1 accepted.left)
      (expr_within inside right wellFormed.2 accepted.right)
  | .variable _ _, wellFormed, _ => within_variable enclosing Γ wellFormed
  | .assign _ _ value, wellFormed, accepted =>
    within_append (expr_within inside value wellFormed.2 accepted.left)
      (within_met wellFormed (fun _ _ same => by cases same) fun _ _ _ same => by cases same)
  | .call callee _ args, wellFormed, accepted =>
    within_append (expr_within inside callee wellFormed.1 accepted.left)
      (exprs_within inside args wellFormed.2 accepted.right)
  | .set object _ value, wellFormed, accepted =>
    within_append (expr_within inside value wellFormed.2 accepted.left)
      (expr_within inside object wellFormed.1 accepted.right)
  | .this _ _, wellFormed, accepted => by
    cases enclosing with
    | outside => exact absurd List.mem_cons_self accepted.not_fault
    | plain => exact within_this wellFormed (.inl inside)
    | derived => exact within_this wellFormed (.inr inside)
  | .super _ _ _, wellFormed, accepted => by
    cases enclosing with
    | outside => exact absurd List.mem_cons_self accepted.not_fault
    | plain => exact absurd List.mem_cons_self accepted.not_fault
    | derived => exact within_super wellFormed inside

private theorem exprs_within {A : Expr → StaticStack → Prop} {enclosing : ClassContext}
    {Γ : StaticStack} (inside : S enclosing Γ) :
    ∀ es : List Expr, Expr.WellFormedAll es → Accepted A none (exprs enclosing Γ es) →
      ∀ n ∈ exprs enclosing Γ es, n.Within S
  | [], _, _ => within_nil
  | e :: es, wellFormed, accepted =>
    within_append (expr_within inside e wellFormed.1 accepted.left)
      (exprs_within inside es wellFormed.2 accepted.right)

end

private theorem expr?_within {A : Expr → StaticStack → Prop} {enclosing : ClassContext}
    {Γ : StaticStack}
    (inside : S enclosing Γ) {e : Option Expr} (wellFormed : Expr.WellFormedOption e)
    (accepted : Accepted A none (expr? enclosing Γ e)) :
    ∀ n ∈ expr? enclosing Γ e, n.Within S := by
  cases e with
  | none => exact within_nil
  | some e => exact expr_within inside e wellFormed accepted

section

variable {A : Expr → StaticStack → Prop}

mutual

private theorem stmt_within (h : HoldsInClasses S) {context : BindingContext} {Γ : StaticStack}
    (inside : S context.enclosing Γ) :
    ∀ s : Stmt, s.WellFormed → Accepted A none (stmt context Γ s) →
      ∀ n ∈ stmt context Γ s, n.Within S
  | .expression e, wellFormed, accepted | .print e, wellFormed, accepted =>
    expr_within inside e wellFormed accepted
  | .var name _, wellFormed, accepted =>
    within_append (within_of_faults (declared_faults Γ name))
      (expr?_within (h.declare wellFormed.1 inside) wellFormed.2 accepted.right)
  | .block body, wellFormed, accepted =>
    stmts_within h (h.cons (.block body) rfl inside) body wellFormed accepted
  | .branch condition thenBranch elseBranch, wellFormed, accepted =>
    within_append
      (within_append (expr_within inside condition wellFormed.1 accepted.left.left)
        (stmt_within h inside thenBranch wellFormed.2.1.1 accepted.left.right))
      (stmt?_within h (h.after inside thenBranch wellFormed.2.1.1) elseBranch wellFormed.2.2
        accepted.right)
  | .loop condition body, wellFormed, accepted =>
    within_append (expr_within inside condition wellFormed.1 accepted.left)
      (stmt_within h inside body wellFormed.2.1 accepted.right)
  | .function (.mk site name params body), wellFormed, accepted =>
    within_append (within_of_faults (declared_faults Γ name))
      (function_within h (.mk site name params body)
        (h.cons (.call (.mk site name params body)) rfl (h.introduce wellFormed.1 inside))
        wellFormed accepted.right)
  | .ret keyword value, wellFormed, accepted =>
    within_append (within_of_faults (returned_faults context.function keyword value.isSome))
      (expr?_within inside wellFormed accepted.right)
  | .classDecl name none methods, wellFormed, accepted =>
    within_append (within_of_faults (declared_faults Γ name))
      (functions_within h methods (fun decl _ => h.method decl _) wellFormed.2.2 accepted.right)
  | .classDecl name (some e) methods, wellFormed, accepted => by
    obtain ⟨_, superFormed, methodsFormed⟩ := wellFormed
    obtain ⟨isName, id, superName, rfl⟩ := superFormed e rfl
    exact within_append (within_append (within_append
      (within_of_faults (declared_faults Γ name)) (within_of_faults (inherited_faults name _)))
        (within_variable .derived _ isName))
      (functions_within h methods (fun decl => h.derivedMethod decl name methods _) methodsFormed
        accepted.right)

private theorem stmt?_within (h : HoldsInClasses S) {context : BindingContext} {Γ : StaticStack}
    (inside : S context.enclosing Γ) :
    ∀ s : Option Stmt, Stmt.WellFormedOption s → Accepted A none (stmt? context Γ s) →
      ∀ n ∈ stmt? context Γ s, n.Within S
  | none, _, _ => within_nil
  | some s, wellFormed, accepted => stmt_within h inside s wellFormed.1 accepted

private theorem stmts_within (h : HoldsInClasses S) {context : BindingContext} {Γ : StaticStack}
    (inside : S context.enclosing Γ) :
    ∀ ss : List Stmt, Stmt.WellFormedAll ss → Accepted A none (stmts context Γ ss) →
      ∀ n ∈ stmts context Γ ss, n.Within S
  | [], _, _ => within_nil
  | s :: ss, wellFormed, accepted =>
    within_append (stmt_within h inside s wellFormed.1 accepted.left)
      (stmts_within h (h.after inside s wellFormed.1) ss wellFormed.2 accepted.right)

private theorem function_within (h : HoldsInClasses S) {enclosing : ClassContext}
    {context : FunctionContext} {Γ : StaticStack} :
    ∀ decl : FunctionDecl, S enclosing (⟨.call decl, ∅⟩ :: Γ) →
      decl.WellFormed → Accepted A none (function enclosing context Γ decl) →
      ∀ n ∈ function enclosing context Γ decl, n.Within S
  | .mk _ _ params body, inside, wellFormed, accepted =>
    within_append (within_of_faults (declaredAll_faults params _))
      (stmts_within h (h.introduceAll wellFormed.2.1 inside) body wellFormed.2.2 accepted.right)

private theorem functions_within (h : HoldsInClasses S) {enclosing : ClassContext}
    {Γ : StaticStack} :
    ∀ decls : List FunctionDecl,
      (∀ decl ∈ decls, S enclosing (⟨.call decl, ∅⟩ :: Γ.receiving decl)) →
      FunctionDecl.WellFormedAll decls → Accepted A none (functions enclosing Γ decls) →
      ∀ n ∈ functions enclosing Γ decls, n.Within S
  | [], _, _, _ => within_nil
  | .mk site name params body :: decls, inside, wellFormed, accepted =>
    within_append
      (function_within h (.mk site name params body) (inside _ List.mem_cons_self) wellFormed.1
        accepted.left)
      (functions_within h decls (fun decl member => inside decl (List.mem_cons_of_mem _ member))
        wellFormed.2 accepted.right)

end

theorem program_within (h : HoldsInClasses S) {program : List Stmt}
    (wellFormed : Stmt.WellFormedAll program) (accepted : Accepted A none (Walk.program program)) :
    ∀ n ∈ Walk.program program, n.Within S :=
  stmts_within h (h.outside []) program wellFormed accepted

end

end Walk

end LoxLang
