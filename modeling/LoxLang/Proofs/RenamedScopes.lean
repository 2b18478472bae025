import LoxLang.Proofs.RenamedTrees
import LoxLang.Proofs.Scoping
import LoxLang.Proofs.WalkNumbers

/-!
The resolver on a program in which a local variable has a new name.  Two names are exchanged in some
of the scopes that it walks through.  The new name is in none of them, so whatever is looked up is
found as far out as before, and nothing is wrong that was right.
-/

set_option autoImplicit false
set_option relaxedAutoImplicit false

namespace LoxLang

open Std (TreeMap)

structure NamesRel (N : NewName) (ρ : Renaming) (σ σ' : StaticScope) : Prop where
  fresh : σ[N.new]? = none
  named : ∀ name : String, σ'[ρ.apply name]? = σ[name]?

inductive ScopesRel (N : NewName) : List Renaming → StaticStack → StaticStack → Prop where
  | globals : ScopesRel N [.refl] [] []
  | inside {ρ : Renaming} {ρs : List Renaming} {σ σ' : StaticFrame} {Γ Γ' : StaticStack} :
      ρ = .refl ∨ ρ.apply = Equiv.swap N.old N.new → NamesRel N ρ σ.names σ'.names →
      ScopesRel N ρs Γ Γ' → ScopesRel N (ρ :: ρs) (σ :: Γ) (σ' :: Γ')

section

variable {N : NewName} {ρ : Renaming} {ρs : List Renaming} {σ σ' : StaticScope}
  {Γ Γ' : StaticStack} {name : String}

private theorem exchanged_quoted (exchanges : ρ = .refl ∨ ρ.apply = Equiv.swap N.old N.new)
    (other : N.new ≠ name) :
    ρ.apply name = name ∨ name = N.old ∧ ρ.apply name = N.new := by
  rcases exchanges with rfl | exchanges
  · exact .inl rfl
  · rw [exchanges]
    by_cases old : name = N.old
    · rw [old, Equiv.swap_apply_left]
      exact .inr ⟨rfl, rfl⟩
    · exact .inl (Equiv.swap_apply_of_ne_of_ne old other.symm)

private theorem NamesRel.missing (h : NamesRel N ρ σ σ')
    (exchanges : ρ = .refl ∨ ρ.apply = Equiv.swap N.old N.new) (absent : σ[name]? = none)
    (other : N.new ≠ name) {name' : String} (quoted : name' = name ∨ name = N.old ∧ name' = N.new) :
    σ'[name']? = none := by
  have back : ∀ n, ρ.apply (ρ.apply n) = n := by
    intro n
    rcases exchanges with rfl | exchanges
    · rfl
    · rw [exchanges, Equiv.swap_apply_self]
  -- To ask the second scope for a name is to ask the first for the exchanged one: for the name that
  -- is absent, or for the new one, which is in none of the scopes.
  rw [← back name', h.named]
  rcases quoted with rfl | ⟨rfl, rfl⟩
  · rcases exchanged_quoted exchanges other with same | ⟨_, new⟩
    · rw [same, absent]
    · rw [new, h.fresh]
  · rcases exchanges with rfl | exchanges
    · exact h.fresh
    · rw [exchanges, Equiv.swap_apply_right, absent]

private theorem NamesRel.empty (ρ : Renaming) : NamesRel N ρ ∅ ∅ := ⟨rfl, fun _ => rfl⟩

private theorem NamesRel.insert (h : NamesRel N ρ σ σ') (other : N.new ≠ name) (complete : Bool) :
    NamesRel N ρ (σ.insert name complete) (σ'.insert (ρ.apply name) complete) where
  fresh := by
    simp only [TreeMap.getElem?_insert, Std.compare_eq_iff_eq, other.symm, if_false]
    exact h.fresh
  named n := by
    simp only [TreeMap.getElem?_insert, Std.compare_eq_iff_eq, ρ.injective.eq_iff, h.named]

private theorem ScopesRel.quoted (h : ScopesRel N ρs Γ Γ') (other : N.new ≠ name) (d : Option Nat) :
    renamed ρs d name = name ∨ name = N.old ∧ renamed ρs d name = N.new := by
  cases d with
  | none => exact .inl rfl
  | some d =>
    induction h generalizing d with
    | globals => cases d <;> exact .inl rfl
    | inside exchanges _ _ ih =>
      cases d with
      | zero => exact exchanged_quoted exchanges other
      | succ d => exact ih d

private theorem ScopesRel.distance? (h : ScopesRel N ρs Γ Γ') (other : N.new ≠ name) :
    Γ'.distance? (renamed ρs (Γ.distance? name) name) = Γ.distance? name := by
  induction h with
  | globals => rfl
  | @inside ρ ρs σ σ' Γ Γ' exchanges names outer ih =>
    have inner : StaticStack.distance? (σ :: Γ) name =
        if σ.names.contains name then some 0 else (Γ.distance? name).map (· + 1) := by
      rw [StaticStack.distance?, List.findIdx?_cons]
      rfl
    by_cases here : σ.names.contains name
    · have there : σ'.names.contains (ρ.apply name) := by
        rw [TreeMap.contains_eq_isSome_getElem?] at here ⊢
        rwa [names.named]
      rw [inner, if_pos here, StaticStack.distance?, List.findIdx?_cons]
      exact if_pos there
    -- A scope further out may have exchanged the name where this one has not, so that here it is
    -- asked for under a spelling of another scope.
    · have nowhere : ¬σ'.names.contains (renamed ρs (Γ.distance? name) name) := by
        rw [TreeMap.contains_eq_isSome_getElem?, names.missing exchanges _ other
          (outer.quoted other _)]
        · exact Bool.false_ne_true
        · rw [TreeMap.contains_eq_isSome_getElem?] at here
          exact Option.not_isSome_iff_eq_none.mp here
      have further : renamed (ρ :: ρs) ((Γ.distance? name).map (· + 1)) name =
          renamed ρs (Γ.distance? name) name := by
        cases Γ.distance? name <;> rfl
      rw [inner, if_neg here, further, StaticStack.distance?, List.findIdx?_cons, if_neg nowhere]
      exact congrArg (Option.map (· + 1)) ih

private theorem ScopesRel.innermost (h : ScopesRel N ρs Γ Γ') (other : N.new ≠ name) :
    (Γ'.head?.bind (·.names[renamed ρs (Γ.distance? name) name]?)) =
      Γ.head?.bind (·.names[name]?) := by
  cases h with
  | globals => rfl
  | @inside ρ ρs σ σ' Γ Γ' exchanges names outer =>
    by_cases here : σ.names.contains name
    · have found : StaticStack.distance? (σ :: Γ) name = some 0 := by
        rw [StaticStack.distance?, List.findIdx?_cons, if_pos here]
      rw [found]
      exact names.named name
    · have absent : σ.names[name]? = none := by
        rw [TreeMap.contains_eq_isSome_getElem?] at here
        exact Option.not_isSome_iff_eq_none.mp here
      have quoted := (ScopesRel.inside exchanges names outer).quoted other
        (StaticStack.distance? (σ :: Γ) name)
      exact (names.missing exchanges absent other quoted).trans absent.symm

private theorem ScopesRel.has (h : ScopesRel N ρs Γ Γ') (name : String) :
    Γ'.has (renamed ρs (some 0) name) = Γ.has name := by
  cases h with
  | globals => rfl
  | @inside ρ ρs σ σ' Γ Γ' exchanges names outer =>
    simp only [StaticStack.has, List.head?_cons, Option.any_some,
      TreeMap.contains_eq_isSome_getElem?]
    exact congrArg Option.isSome (names.named name)

private theorem ScopesRel.mark (h : ScopesRel N ρs Γ Γ') (other : N.new ≠ name) (complete : Bool) :
    ScopesRel N ρs (Γ.mark name complete) (Γ'.mark (renamed ρs (some 0) name) complete) := by
  cases h with
  | globals => exact .globals
  | inside exchanges names outer => exact .inside exchanges (names.insert other complete) outer

end

def Declares (ρs : List Renaming) (name name' : Token) : Prop :=
  name'.lexeme = renamed ρs (some 0) name.lexeme

theorem Declares.renamed (ρs : List Renaming) (name : Token) (k : Nat) :
    Declares ρs name ((name.rename (renamed ρs (some 0) name.lexeme)).later k) :=
  rfl

private theorem Kept.declares {ρs : List Renaming} {name : Token} (kept : Kept ρs name.lexeme)
    (k : Nat) :
    Declares ρs name (name.later k) :=
  kept.symm

section

variable {N : NewName} {ρs : List Renaming} {Γ Γ' : StaticStack} {name name' : Token}

private theorem ScopesRel.declare (h : ScopesRel N ρs Γ Γ') (declares : Declares ρs name name')
    (other : N.new ≠ name.lexeme) : ScopesRel N ρs (Γ.declare name) (Γ'.declare name') := by
  unfold StaticStack.declare
  rw [declares, h.has]
  split
  · exact h
  · exact h.mark other false

private theorem ScopesRel.introduce (h : ScopesRel N ρs Γ Γ') (declares : Declares ρs name name')
    (other : N.new ≠ name.lexeme) : ScopesRel N ρs (Γ.introduce name) (Γ'.introduce name') := by
  have marked := (h.declare declares other).mark other true
  rw [← declares] at marked
  exact marked

private theorem ScopesRel.introduceAll (h : ScopesRel N ρs Γ Γ') {names : List Token}
    (f : Token → Token) (declares : ∀ name ∈ names, Declares ρs name (f name))
    (others : ∀ name ∈ names, N.new ≠ name.lexeme) :
    ScopesRel N ρs (Γ.introduceAll names) (Γ'.introduceAll (names.map f)) := by
  induction names generalizing Γ Γ' with
  | nil => exact h
  | cons name names ih =>
    obtain ⟨first, rest⟩ := List.forall_mem_cons.mp declares
    obtain ⟨other, others⟩ := List.forall_mem_cons.mp others
    exact ih (h.introduce first other) rest others

private theorem ScopesRel.enter (h : ScopesRel N ρs Γ Γ') {word : String} (other : N.new ≠ word)
    (origin origin' : Origin) :
    ScopesRel N (.refl :: ρs) (⟨origin, (∅ : StaticScope).insert word true⟩ :: Γ)
      (⟨origin', (∅ : StaticScope).insert word true⟩ :: Γ') :=
  .inside (.inl rfl) ((NamesRel.empty .refl).insert other true) h

end

/-! Notes. -/

structure Alike (notes notes' : List Note) : Prop where
  bindings : notes'.filterMap Note.binding? = notes.filterMap Note.binding?
  sound : notes'.filterMap Note.fault? = []

namespace Alike

variable {notes notes' others others' : List Note}

private theorem nil : Alike [] [] := ⟨rfl, rfl⟩

private theorem append (h : Alike notes notes') (h' : Alike others others') :
    Alike (notes ++ others) (notes' ++ others') := by
  constructor
  · rw [List.filterMap_append, List.filterMap_append, h.bindings, h'.bindings]
  · rw [List.filterMap_append, h.sound, h'.sound, List.append_nil]

private theorem silent (h : notes = []) (h' : notes' = []) : Alike notes notes' := by
  rw [h, h']
  exact nil

end Alike

def Found (D : Distances) (e : Expr) (Γ : StaticStack) : Prop :=
  ∀ id name, e.reference? = some (id, name) → D[id]? = Γ.distance? name.lexeme

private theorem Accepted.eq_nil {A : Expr → StaticStack → Prop} {missing : Option String}
    {notes : List Note} (h : Accepted A missing notes) (faults : ∀ n ∈ notes, ∃ e, n = .fault e) :
    notes = [] := by
  refine List.eq_nil_iff_forall_not_mem.mpr fun n member => ?_
  obtain ⟨e, rfl⟩ := faults n member
  exact h.not_fault member

section

variable {N : NewName} {D : Distances} {ρs : List Renaming} {Γ Γ' : StaticStack}

private theorem ScopesRel.met (h : ScopesRel N ρs Γ Γ') {e e' : Expr} {id : ExprId}
    {name name' : Token}
    (refers : e.reference? = some (id, name)) (refers' : e'.reference? = some (id, name'))
    (given : name'.lexeme = renamed ρs D[id]? name.lexeme) (other : N.new ≠ name.lexeme)
    (accepted : Accepted (Found D) none [.met e Γ]) : Alike [.met e Γ] [.met e' Γ'] := by
  have found := (accepted _ List.mem_cons_self).1 id name refers
  have distance : Γ'.distance? name'.lexeme = Γ.distance? name.lexeme := by
    rw [given, found]
    exact h.distance? other
  have binding : Note.binding? (.met e' Γ') = Note.binding? (.met e Γ) := by
    rw [Note.binding?, Note.binding?, refers, refers']
    exact congrArg (fun d : Option Nat => d.bind fun d => some (id, d)) distance
  refine ⟨?_, rfl⟩
  rw [List.filterMap_cons, List.filterMap_cons, binding]

private theorem ScopesRel.read (h : ScopesRel N ρs Γ Γ') {name name' : Token}
    (given : name'.lexeme = renamed ρs (Γ.distance? name.lexeme) name.lexeme)
    (other : N.new ≠ name.lexeme) (silent : Walk.read Γ name = []) : Walk.read Γ' name' = [] := by
  have same := h.innermost other
  rw [← given] at same
  have asked : ∀ (Γ : StaticStack) (name : String), Γ.head?.any (·.names[name]? = some false) =
      decide (Γ.head?.bind (·.names[name]?) = some false) := by
    intro Γ name
    cases Γ <;> rfl
  unfold Walk.read at silent ⊢
  rw [asked] at silent ⊢
  rw [same]
  split at silent
  · cases silent
  · rename_i fine
    exact if_neg fine

private theorem ScopesRel.declared (h : ScopesRel N ρs Γ Γ') {name name' : Token}
    (declares : Declares ρs name name') (silent : Walk.declared Γ name = []) :
    Walk.declared Γ' name' = [] := by
  unfold Walk.declared at silent ⊢
  rw [declares, h.has]
  split at silent
  · cases silent
  · rename_i fine
    exact if_neg fine

private theorem ScopesRel.declaredAll (h : ScopesRel N ρs Γ Γ') {names : List Token}
    (f : Token → Token) (declares : ∀ name ∈ names, Declares ρs name (f name))
    (others : ∀ name ∈ names, N.new ≠ name.lexeme) (silent : Walk.declaredAll names Γ = []) :
    Walk.declaredAll (names.map f) Γ' = [] := by
  induction names generalizing Γ Γ' with
  | nil => rfl
  | cons name names ih =>
    obtain ⟨declares, rest⟩ := List.forall_mem_cons.mp declares
    obtain ⟨other, others⟩ := List.forall_mem_cons.mp others
    obtain ⟨first, later⟩ := List.append_eq_nil_iff.mp silent
    exact List.append_eq_nil_iff.mpr
      ⟨h.declared declares first, ih (h.introduce declares other) rest others later⟩

end

structure NewName.NoKeyword (N : NewName) : Prop where
  this : N.new ≠ "this"
  super : N.new ≠ "super"

section

variable {N : NewName} {D : Distances}

mutual

private theorem ExprRel.alike (word : N.NoKeyword) {enclosing : ClassContext} {ρs : List Renaming}
    {Γ Γ' : StaticStack} (h : ScopesRel N ρs Γ Γ') :
    ∀ {e e' : Expr}, ExprRel (.renaming D N) 0 ρs e e' → e.WellFormed → N.new ∉ e.names →
      Accepted (Found D) none (Walk.expr enclosing Γ e) →
      Alike (Walk.expr enclosing Γ e) (Walk.expr enclosing Γ' e')
  | _, _, .literal _, _, _, _ => .nil
  | _, _, .grouping rel, formed, fresh, ok | _, _, .unary _ rel, formed, fresh, ok
  | _, _, .get _ rel, formed, fresh, ok => by
    have inner := ExprRel.alike word h rel formed fresh ok
    exact inner
  | _, _, .binary _ rel rel', formed, fresh, ok | _, _, .logical _ rel rel', formed, fresh, ok =>
    (ExprRel.alike word h rel formed.1 (fresh_append fresh).1 ok.left).append
      (ExprRel.alike word h rel' formed.2 (fresh_append fresh).2 ok.right)
  | .variable _ name, .variable id name', .reference refers, formed, fresh, ok => by
    have other : N.new ≠ name.lexeme := fun same => fresh (List.mem_singleton.mpr same)
    obtain rfl := refers.number
    have given : name'.lexeme = renamed ρs D[id]? name.lexeme :=
      congrArg Token.lexeme (refers.name _ rfl)
    have found := (ok.right _ List.mem_cons_self).1 id name rfl
    have silent := ok.left.eq_nil (Walk.read_faults Γ name)
    have read := h.read (given.trans (by rw [found])) other silent
    exact (Alike.silent silent read).append (h.met rfl rfl given other ok.right)
  | .assign _ name _, .assign id name' _, .assign refers rel, formed, fresh, ok => by
    have other : N.new ≠ name.lexeme := List.ne_of_not_mem_cons fresh
    obtain rfl := refers.number
    have given : name'.lexeme = renamed ρs D[id]? name.lexeme :=
      congrArg Token.lexeme (refers.name _ rfl)
    exact (ExprRel.alike word h rel formed.2 (List.not_mem_of_not_mem_cons fresh) ok.left).append
      (h.met rfl rfl given other ok.right)
  | _, _, .call _ rel rels, formed, fresh, ok =>
    (ExprRel.alike word h rel formed.1 (fresh_append fresh).1 ok.left).append
      (ExprsRel.alike word h rels formed.2 (fresh_append fresh).2 ok.right)
  | _, _, .set _ rel rel', formed, fresh, ok =>
    (ExprRel.alike word h rel' formed.2 (fresh_append fresh).2 ok.left).append
      (ExprRel.alike word h rel formed.1 (fresh_append fresh).1 ok.right)
  | .this id keyword, _, .this refers, formed, _, ok => by
    obtain rfl := refers.number
    have given := congrArg Token.lexeme (refers.name _ rfl)
    have other : N.new ≠ keyword.lexeme := formed ▸ word.this
    cases enclosing with
    | outside => exact absurd List.mem_cons_self ok.not_fault
    | plain => exact h.met rfl rfl given other ok
    | derived => exact h.met rfl rfl given other ok
  | .super _ keyword _, .super id _ _, .super _ _ number, formed, _, ok => by
    obtain rfl := number
    have named : keyword.lexeme = "super" := formed
    have given : (keyword.later 0).lexeme = renamed ρs D[id]? keyword.lexeme := by
      rw [named, renamed_super, ← named]
      rfl
    have other : N.new ≠ keyword.lexeme := named ▸ word.super
    cases enclosing with
    | outside => exact absurd List.mem_cons_self ok.not_fault
    | plain => exact absurd List.mem_cons_self ok.not_fault
    | derived => exact h.met rfl rfl given other ok

private theorem ExprsRel.alike (word : N.NoKeyword) {enclosing : ClassContext} {ρs : List Renaming}
    {Γ Γ' : StaticStack} (h : ScopesRel N ρs Γ Γ') :
    ∀ {es es' : List Expr}, ExprsRel (.renaming D N) 0 ρs es es' → Expr.WellFormedAll es →
      N.new ∉ Expr.namesAll es → Accepted (Found D) none (Walk.exprs enclosing Γ es) →
      Alike (Walk.exprs enclosing Γ es) (Walk.exprs enclosing Γ' es')
  | _, _, .nil, _, _, _ => .nil
  | _, _, .cons rel rels, formed, fresh, ok =>
    (ExprRel.alike word h rel formed.1 (fresh_append fresh).1 ok.left).append
      (ExprsRel.alike word h rels formed.2 (fresh_append fresh).2 ok.right)

end

private theorem optionalRel_alike (word : N.NoKeyword) {enclosing : ClassContext}
    {ρs : List Renaming} {Γ Γ' : StaticStack} (h : ScopesRel N ρs Γ Γ') {e e' : Option Expr}
    (rel : Option.Rel (ExprRel (.renaming D N) 0 ρs) e e') (formed : Expr.WellFormedOption e)
    (fresh : N.new ∉ Expr.namesOption e)
    (ok : Accepted (Found D) none (Walk.expr? enclosing Γ e)) :
    Alike (Walk.expr? enclosing Γ e) (Walk.expr? enclosing Γ' e') := by
  cases rel with
  | none => exact .nil
  | some rel => exact rel.alike word h formed fresh ok

private theorem FunctionRel.name {M : Mirror} {k : Nat} {ρs : List Renaming}
    {decl decl' : FunctionDecl}
    (h : FunctionRel M k ρs decl decl') : decl'.name = decl.name.later k := by
  cases h
  rfl

private theorem inherited_silent {ρs : List Renaming} {name : Token} {e e' : Expr}
    (rel : ExprRel (.renaming D N) 0 ρs e e') (other : N.new ≠ name.lexeme)
    (silent : Walk.inherited name e = []) : Walk.inherited (name.later 0) e' = [] := by
  cases rel with
  | @reference _ id superName superName' refers =>
    simp only [Walk.inherited, Expr.variableName?] at silent ⊢
    split at silent
    · cases silent
    · rename_i different
      refine if_neg ?_
      rw [Token.later_lexeme]
      rcases refers.quoted with same | ⟨_, new⟩
      · rwa [same]
      · rwa [new]
  | _ => rfl

/-! The scopes behind statements. -/

section

variable {M : Mirror} {k : Nat}

mutual

private theorem StmtRel.after : ∀ {ρs : List Renaming} {s s' : Stmt} {Γ Γ' : StaticStack},
    StmtRel M k ρs s s' → ScopesRel N ρs Γ Γ' → N.new ∉ s.names →
    ScopesRel N ρs (Walk.after Γ s) (Walk.after Γ' s')
  | _, _, _, _, _, .var name _, h, fresh => h.introduce rfl (List.ne_of_not_mem_cons fresh)
  | _, _, _, _, _, .branch _ rel rel', h, fresh => by
    have inner := fresh_append (fresh_append fresh).2
    exact OptionalRel.after rel' (StmtRel.after rel h inner.1) inner.2
  | _, _, _, _, _, .loop _ rel, h, fresh => by
    have inner := StmtRel.after rel h (fresh_append fresh).2
    exact inner
  | _, _, _, _, _, .function kept (.intro _ _ _ _ _ _ _), h, fresh =>
    h.introduce (kept.declares k) (List.ne_of_not_mem_cons fresh)
  | _, _, _, _, _, .classDecl kept _, h, fresh | _, _, _, _, _, .subclass kept _ _, h, fresh =>
    h.introduce (kept.declares k) (List.ne_of_not_mem_cons fresh)
  | _, _, _, _, _, .expression _, h, _ | _, _, _, _, _, .print _, h, _
  | _, _, _, _, _, .block _ _ _, h, _ | _, _, _, _, _, .ret _ _, h, _ => h

private theorem OptionalRel.after : ∀ {ρs : List Renaming} {s s' : Option Stmt}
    {Γ Γ' : StaticStack},
    OptionalRel M k ρs s s' → ScopesRel N ρs Γ Γ' → N.new ∉ Stmt.namesOption s →
    ScopesRel N ρs (Walk.after? Γ s) (Walk.after? Γ' s')
  | _, _, _, _, _, .none, h, _ => h
  | _, _, _, _, _, .some rel, h, fresh => StmtRel.after rel h fresh

end

end

mutual

private theorem StmtRel.alike (word : N.NoKeyword) {context : BindingContext} :
    ∀ {ρs : List Renaming} {s s' : Stmt} {Γ Γ' : StaticStack},
      StmtRel (.renaming D N) 0 ρs s s' → ScopesRel N ρs Γ Γ' → s.WellFormed → N.new ∉ s.names →
      Accepted (Found D) none (Walk.stmt context Γ s) →
      Alike (Walk.stmt context Γ s) (Walk.stmt context Γ' s')
  | _, _, _, _, _, .expression rel, h, formed, fresh, ok
  | _, _, _, _, _, .print rel, h, formed, fresh, ok => rel.alike word h formed fresh ok
  | ρs, _, _, Γ, _, .var name rel, h, formed, fresh, ok => by
    have other : N.new ≠ name.lexeme := List.ne_of_not_mem_cons fresh
    have declares := Declares.renamed ρs name 0
    have silent := ok.left.eq_nil (Walk.declared_faults Γ name)
    exact (Alike.silent silent (h.declared declares silent)).append
      (optionalRel_alike word (h.declare declares other) rel formed.2
        (List.not_mem_of_not_mem_cons fresh) ok.right)
  | _, _, _, _, _, .block _ allowed rel, h, formed, fresh, ok =>
    StmtsRel.alike word rel (.inside allowed (.empty _) h) formed fresh ok
  | _, _, _, _, _, .branch rel rel' rel'', h, formed, fresh, ok => by
    obtain ⟨fresh₁, fresh₂, fresh₃⟩ := And.imp_right fresh_append (fresh_append fresh)
    exact ((rel.alike word h formed.1 fresh₁ ok.left.left).append
        (StmtRel.alike word rel' h formed.2.1.1 fresh₂ ok.left.right)).append
      (OptionalRel.alike word rel'' (rel'.after h fresh₂) formed.2.2 fresh₃ ok.right)
  | _, _, _, _, _, .loop rel rel', h, formed, fresh, ok =>
    (rel.alike word h formed.1 (fresh_append fresh).1 ok.left).append
      (StmtRel.alike word rel' h formed.2.1 (fresh_append fresh).2 ok.right)
  | ρs, .function decl, .function decl', Γ, _, .function kept rel, h, formed, fresh, ok => by
    have other : N.new ≠ decl.name.lexeme := List.ne_of_not_mem_cons fresh
    have declares : Declares ρs decl.name decl'.name := by
      rw [Declares, rel.name]
      exact kept.declares 0
    have silent := ok.left.eq_nil (Walk.declared_faults Γ decl.name)
    exact (Alike.silent silent (h.declared declares silent)).append
      (FunctionRel.alike word rel (h.introduce declares other) formed
        (List.not_mem_of_not_mem_cons fresh) ok.right)
  | _, .ret keyword value, .ret _ value', _, _, .ret _ rel, h, formed, fresh, ok => by
    have silent := ok.left.eq_nil (Walk.returned_faults context.function keyword value.isSome)
    have same : value'.isSome = value.isSome := by cases rel <;> rfl
    have silent' : Walk.returned context.function (keyword.later 0) value'.isSome = [] := by
      rw [same]
      exact silent
    exact (Alike.silent silent silent').append (optionalRel_alike word h rel formed fresh ok.right)
  | _, .classDecl name none methods, _, Γ, _, .classDecl kept rel, h, formed, fresh, ok => by
    have other : N.new ≠ name.lexeme := List.ne_of_not_mem_cons fresh
    have silent := ok.left.eq_nil (Walk.declared_faults Γ name)
    exact (Alike.silent silent (h.declared (kept.declares _) silent)).append
      (FunctionsRel.alike word rel
        (fun _ _ => (h.introduce (kept.declares _) other).enter word.this _ _) formed.2.2
        (List.not_mem_of_not_mem_cons fresh) ok.right)
  | _, .classDecl name (some e) methods, _, Γ, _, .subclass kept rel rel', h, formed, fresh, ok => by
    have other : N.new ≠ name.lexeme := List.ne_of_not_mem_cons fresh
    obtain ⟨fresh₁, fresh₂⟩ := fresh_append (List.not_mem_of_not_mem_cons fresh)
    have silent := ok.left.left.left.eq_nil (Walk.declared_faults Γ name)
    have silent' := ok.left.left.right.eq_nil (Walk.inherited_faults name e)
    have introduced := h.introduce (kept.declares 0) other
    exact (((Alike.silent silent (h.declared (kept.declares _) silent)).append
        (.silent silent' (inherited_silent rel other silent'))).append
        (rel.alike word introduced (formed.2.1 e rfl).1 fresh₁ ok.left.right)).append
      (FunctionsRel.alike word rel'
        (fun _ _ => (introduced.enter word.super _ _).enter word.this _ _) formed.2.2 fresh₂
        ok.right)

private theorem OptionalRel.alike (word : N.NoKeyword) {context : BindingContext} :
    ∀ {ρs : List Renaming} {s s' : Option Stmt} {Γ Γ' : StaticStack},
      OptionalRel (.renaming D N) 0 ρs s s' → ScopesRel N ρs Γ Γ' → Stmt.WellFormedOption s →
      N.new ∉ Stmt.namesOption s → Accepted (Found D) none (Walk.stmt? context Γ s) →
      Alike (Walk.stmt? context Γ s) (Walk.stmt? context Γ' s')
  | _, _, _, _, _, .none, _, _, _, _ => .nil
  | _, _, _, _, _, .some rel, h, formed, fresh, ok =>
    StmtRel.alike word rel h formed.1 fresh ok

theorem StmtsRel.alike (word : N.NoKeyword) {context : BindingContext} :
    ∀ {ρs : List Renaming} {ss ss' : List Stmt} {Γ Γ' : StaticStack},
      StmtsRel (.renaming D N) 0 ρs ss ss' → ScopesRel N ρs Γ Γ' → Stmt.WellFormedAll ss →
      N.new ∉ Stmt.namesAll ss → Accepted (Found D) none (Walk.stmts context Γ ss) →
      Alike (Walk.stmts context Γ ss) (Walk.stmts context Γ' ss')
  | _, _, _, _, _, .nil, _, _, _, _ => .nil
  | _, _, _, _, _, .cons rel rels, h, formed, fresh, ok =>
    (StmtRel.alike word rel h formed.1 (fresh_append fresh).1 ok.left).append
      (StmtsRel.alike word rels (rel.after h (fresh_append fresh).1) formed.2
        (fresh_append fresh).2 ok.right)

private theorem FunctionRel.alike (word : N.NoKeyword) {enclosing : ClassContext}
    {context : FunctionContext} :
    ∀ {ρs : List Renaming} {decl decl' : FunctionDecl} {Γ Γ' : StaticStack},
      FunctionRel (.renaming D N) 0 ρs decl decl' → ScopesRel N ρs Γ Γ' → decl.WellFormed →
      N.new ∉ decl.names → Accepted (Found D) none (Walk.function enclosing context Γ decl) →
      Alike (Walk.function enclosing context Γ decl) (Walk.function enclosing context Γ' decl')
  | ρs, .mk site name params body, .mk site' _ _ body', Γ, Γ', .intro ρ _ _ allowed _ _ rel, h,
      formed, fresh, ok => by
    obtain ⟨freshParams, freshBody⟩ := fresh_append fresh
    have others : ∀ p ∈ params, N.new ≠ p.lexeme := fun p member same =>
      freshParams (same ▸ List.mem_map_of_mem member)
    have inside (origin : Origin) : ScopesRel N (ρ :: ρs)
        (⟨.call (.mk site name params body), ∅⟩ :: Γ) (⟨origin, ∅⟩ :: Γ') :=
      .inside allowed (.empty ρ) h
    have silent := ok.left.eq_nil (Walk.declaredAll_faults params _)
    have declares : ∀ p ∈ params,
        Declares (ρ :: ρs) p ((p.rename (ρ.apply p.lexeme)).later 0) :=
      fun p _ => .renamed (ρ :: ρs) p 0
    have silent' (origin : Origin) := (inside origin).declaredAll _ declares others silent
    exact (Alike.silent silent (silent' _)).append
      (StmtsRel.alike word rel ((inside _).introduceAll _ declares others) formed.2.2 freshBody
        ok.right)

private theorem FunctionsRel.alike (word : N.NoKeyword) {enclosing : ClassContext} :
    ∀ {ρs : List Renaming} {decls decls' : List FunctionDecl} {Γ Γ' : StaticStack},
      FunctionsRel (.renaming D N) 0 ρs decls decls' →
      (∀ method method', ScopesRel N ρs (Γ.receiving method) (Γ'.receiving method')) →
      FunctionDecl.WellFormedAll decls → N.new ∉ FunctionDecl.namesAll decls →
      Accepted (Found D) none (Walk.functions enclosing Γ decls) →
      Alike (Walk.functions enclosing Γ decls) (Walk.functions enclosing Γ' decls')
  | _, _, _, _, _, .nil, _, _, _, _ => .nil
  | _, .mk _ name _ _ :: _, .mk _ name' _ _ :: _, _, _, .cons rel rels, h, formed, fresh, ok => by
    have named : name'.lexeme = name.lexeme := congrArg Token.lexeme rel.name
    have rest := FunctionsRel.alike word rels h formed.2 (fresh_append fresh).2 ok.right
    rw [Walk.functions, Walk.functions, named]
    exact (FunctionRel.alike word rel (h _ _) formed.1 (fresh_append fresh).1 ok.left).append rest

end

end

/-- Of a program that is resolved like another one the same distances are recorded, and nothing is
wrong with it. -/
theorem Alike.resolve {program program' : List Stmt}
    (h : Alike (Walk.program program) (Walk.program program')) (D : Distances) :
    LoxLang.resolve D program' = ⟨(LoxLang.resolve D program).distances, []⟩ := by
  rw [resolve_eq, resolve_eq, h.sound, Distances.record, Distances.record, h.bindings]

end LoxLang
