import LoxLang.Proofs.StaticScopes

/-!
Declared names.  A statement declares some names in the scope in which it stands, and the walk finds
them there behind the statement.  While the initial value of a variable is walked, its name is there
but its declaration is not complete; everywhere else all declarations of the innermost scope are.
-/

set_option autoImplicit false
set_option relaxedAutoImplicit false

namespace LoxLang

open Std (TreeMap)

mutual

/-- The names that a statement declares in the scope in which it stands. -/
def Stmt.declared : Stmt → List String
  | .var name _ => [name.lexeme]
  | .function decl => [decl.name.lexeme]
  | .classDecl name _ _ => [name.lexeme]
  | .branch _ thenBranch elseBranch => thenBranch.declared ++ Stmt.declaredOption elseBranch
  | .loop _ body => body.declared
  | .expression _ | .print _ | .block _ | .ret _ _ => []

def Stmt.declaredOption : Option Stmt → List String
  | none => []
  | some s => s.declared

end

def Stmt.declaredAll (ss : List Stmt) : List String := ss.flatMap Stmt.declared

theorem Stmt.declaredAll_cons (s : Stmt) (ss : List Stmt) :
    Stmt.declaredAll (s :: ss) = s.declared ++ Stmt.declaredAll ss :=
  List.flatMap_cons

/-- The name to which a statement gives a value in the present frame. -/
def Stmt.declares? : Stmt → Option Token
  | .var name _ | .classDecl name _ _ => some name
  | .function decl => some decl.name
  | _ => none

/-! Names of the innermost scope in the walk. -/

namespace StaticStack

variable {Γ : StaticStack}

/-- Whether the declaration of a name of the innermost scope is not complete. -/
def incomplete (Γ : StaticStack) (name : String) : Bool :=
  Γ.head?.any (·.names[name]? = some false)

def Complete (Γ : StaticStack) : Prop := ∀ name, Γ.incomplete name = false

theorem complete_cons_empty (origin : Origin) (Γ : StaticStack) : Complete (⟨origin, ∅⟩ :: Γ) := by
  intro name
  simp [incomplete]

theorem has_mark (inside : Γ ≠ []) (name other : String) (complete : Bool) :
    (Γ.mark name complete).has other ↔ other = name ∨ Γ.has other := by
  cases Γ with
  | nil => exact absurd rfl inside
  | cons σ Γ =>
    by_cases same : name = other
    · simp [mark, has, same]
    · simp [mark, has, TreeMap.contains_insert, same, Ne.symm same]

private theorem mark_ne_nil (inside : Γ ≠ []) (name : String) (complete : Bool) :
    Γ.mark name complete ≠ [] := by
  cases Γ with
  | nil => exact absurd rfl inside
  | cons σ Γ => simp [mark]

theorem declare_ne_nil (inside : Γ ≠ []) (name : Token) : Γ.declare name ≠ [] := by
  unfold declare
  split
  · exact inside
  · exact mark_ne_nil inside _ _

theorem introduce_ne_nil (inside : Γ ≠ []) (name : Token) : Γ.introduce name ≠ [] :=
  mark_ne_nil (declare_ne_nil inside name) _ _

theorem has_introduce (inside : Γ ≠ []) (name : Token) (other : String) :
    (Γ.introduce name).has other ↔ other = name.lexeme ∨ Γ.has other := by
  rw [StaticStack.introduce, define, has_mark (declare_ne_nil inside name)]
  unfold declare
  split
  · rfl
  · rw [has_mark inside, ← or_assoc, or_self]

private theorem incomplete_mark (inside : Γ ≠ []) (name other : String) (complete : Bool) :
    (Γ.mark name complete).incomplete other =
      if name = other then !complete else Γ.incomplete other := by
  cases Γ with
  | nil => exact absurd rfl inside
  | cons σ Γ =>
    by_cases same : name = other <;>
      simp [mark, incomplete, TreeMap.getElem?_insert, same]

theorem Complete.introduce (h : Γ.Complete) (name : Token) : (Γ.introduce name).Complete := by
  intro other
  by_cases inside : Γ = []
  · subst inside
    rfl
  rw [StaticStack.introduce, define, incomplete_mark (declare_ne_nil inside name)]
  split
  · rfl
  · rename_i different
    unfold declare
    split
    · exact h other
    · rw [incomplete_mark inside, if_neg different]
      exact h other

theorem Complete.introduceAll (h : Γ.Complete) (names : List Token) :
    (Γ.introduceAll names).Complete := by
  induction names generalizing Γ with
  | nil => exact h
  | cons name names ih => exact ih (h.introduce name)

theorem has_introduceAll (inside : Γ ≠ []) (names : List Token) :
    Γ.introduceAll names ≠ [] ∧
      ∀ other, (Γ.introduceAll names).has other ↔ other ∈ names.map Token.lexeme ∨ Γ.has other := by
  induction names generalizing Γ with
  | nil => exact ⟨inside, by simp [introduceAll]⟩
  | cons name names ih =>
    obtain ⟨inside', has⟩ := ih (introduce_ne_nil inside name)
    refine ⟨inside', fun other => ?_⟩
    rw [introduceAll, has, has_introduce inside, List.map_cons, List.mem_cons, or_left_comm,
      or_assoc]

theorem incomplete_declare (complete : Γ.Complete) {name : Token} (inside : Γ ≠ [])
    (new : ¬Γ.has name.lexeme) (other : String) :
    (Γ.declare name).incomplete other = decide (other = name.lexeme) := by
  rw [declare, if_neg new, incomplete_mark inside]
  by_cases same : name.lexeme = other
  · simp [same]
  · simp [same, Ne.symm same, complete other]

def origin? (Γ : StaticStack) : Option Origin := Γ.head?.map StaticFrame.origin

@[simp] theorem origin?_mark (Γ : StaticStack) (name : String) (complete : Bool) :
    (Γ.mark name complete).origin? = Γ.origin? := by
  cases Γ <;> rfl

@[simp] theorem origin?_declare (Γ : StaticStack) (name : Token) :
    (Γ.declare name).origin? = Γ.origin? := by
  unfold declare
  split
  · rfl
  · exact origin?_mark ..

@[simp] theorem origin?_introduce (Γ : StaticStack) (name : Token) :
    (Γ.introduce name).origin? = Γ.origin? := by
  simp [StaticStack.introduce, define]

@[simp] theorem origin?_introduceAll (names : List Token) (Γ : StaticStack) :
    (Γ.introduceAll names).origin? = Γ.origin? := by
  induction names generalizing Γ with
  | nil => rfl
  | cons name names ih => exact (ih _).trans (origin?_introduce Γ name)

def Free (Γ : StaticStack) (names : List String) : Prop :=
  Γ ≠ [] → names.Nodup ∧ ∀ name ∈ names, ¬Γ.has name

theorem free_globals (names : List String) : Free [] names := fun inside => absurd rfl inside

theorem free_nil (Γ : StaticStack) : Γ.Free [] := fun _ => ⟨.nil, by simp⟩

theorem free_singleton {name : String} : Γ.Free [name] ↔ ¬Γ.has name := by
  cases Γ with
  | nil => simp [Free, has]
  | cons σ Γ => simp [Free]

theorem free_fresh {origin : Origin} {names : List String} :
    Free (⟨origin, ∅⟩ :: Γ) names ↔ names.Nodup := by
  simp [Free, has]

theorem free_append {Γ' : StaticStack} (names names' : List String)
    (inside : Γ = [] → Γ' = [])
    (behind : Γ ≠ [] → Γ' ≠ [] ∧ ∀ name, Γ'.has name ↔ name ∈ names ∨ Γ.has name) :
    Γ.Free (names ++ names') ↔ Γ.Free names ∧ Γ'.Free names' := by
  by_cases globals : Γ = []
  · rw [inside globals, globals]
    simp [free_globals]
  · obtain ⟨inside', has⟩ := behind globals
    simp only [Free, globals, inside', ne_eq, not_false_eq_true, forall_const, has,
      List.nodup_append, List.mem_append]
    grind

end StaticStack

namespace Walk

mutual

/-- Nothing is declared at the top level. -/
theorem after_globals : ∀ s : Stmt, after [] s = []
  | .branch _ thenBranch elseBranch => by
    rw [after, after_globals thenBranch]
    exact after?_globals elseBranch
  | .loop _ body => after_globals body
  | .var _ _ | .function _ | .classDecl _ _ _ | .expression _ | .print _ | .block _ | .ret _ _ => rfl

private theorem after?_globals : ∀ s : Option Stmt, after? [] s = []
  | none => rfl
  | some s => after_globals s

end

/-! What is declared in a walk. -/

mutual

theorem after_complete : ∀ {Γ : StaticStack}, Γ.Complete → ∀ s, (after Γ s).Complete
  | _, h, .var name _ => h.introduce name
  | _, h, .function decl => h.introduce decl.name
  | _, h, .classDecl name _ _ => h.introduce name
  | _, h, .branch _ thenBranch elseBranch =>
    after?_complete (after_complete h thenBranch) elseBranch
  | _, h, .loop _ body => after_complete h body
  | _, h, .expression _ | _, h, .print _ | _, h, .block _ | _, h, .ret _ _ => h

private theorem after?_complete : ∀ {Γ : StaticStack}, Γ.Complete → ∀ s, (after? Γ s).Complete
  | _, h, none => h
  | _, h, some s => after_complete h s

end

mutual

/-- Behind a statement the innermost scope has the names that it declares. -/
theorem has_after : ∀ {Γ : StaticStack}, Γ ≠ [] → ∀ s : Stmt,
    after Γ s ≠ [] ∧ ∀ name, (after Γ s).has name ↔ name ∈ s.declared ∨ Γ.has name
  | _, inside, .var name _ | _, inside, .classDecl name _ _ =>
    ⟨StaticStack.introduce_ne_nil inside name, fun other => by
      rw [Stmt.declared, List.mem_singleton]
      exact StaticStack.has_introduce inside name other⟩
  | _, inside, .function decl =>
    ⟨StaticStack.introduce_ne_nil inside decl.name, fun other => by
      rw [Stmt.declared, List.mem_singleton]
      exact StaticStack.has_introduce inside decl.name other⟩
  | _, inside, .branch _ thenBranch elseBranch => by
    obtain ⟨inside₁, has₁⟩ := has_after inside thenBranch
    obtain ⟨inside₂, has₂⟩ := has_after? inside₁ elseBranch
    refine ⟨inside₂, fun name => ?_⟩
    rw [after, has₂, has₁, Stmt.declared, List.mem_append, or_left_comm, or_assoc]
  | _, inside, .loop _ body => has_after inside body
  | _, inside, .expression _ | _, inside, .print _ | _, inside, .block _ | _, inside, .ret _ _ =>
    ⟨inside, fun _ => by simp [after, Stmt.declared]⟩

private theorem has_after? : ∀ {Γ : StaticStack}, Γ ≠ [] → ∀ s : Option Stmt,
    after? Γ s ≠ [] ∧ ∀ name, (after? Γ s).has name ↔ name ∈ Stmt.declaredOption s ∨ Γ.has name
  | _, inside, none => ⟨inside, fun _ => by simp [after?, Stmt.declaredOption]⟩
  | _, inside, some s => has_after inside s

end

mutual

theorem origin?_after : ∀ (Γ : StaticStack) (s : Stmt), (after Γ s).origin? = Γ.origin?
  | Γ, .var name _ | Γ, .classDecl name _ _ => Γ.origin?_introduce name
  | Γ, .function decl => Γ.origin?_introduce decl.name
  | Γ, .branch _ thenBranch elseBranch =>
    (origin?_after? (after Γ thenBranch) elseBranch).trans (origin?_after Γ thenBranch)
  | Γ, .loop _ body => origin?_after Γ body
  | _, .expression _ | _, .print _ | _, .block _ | _, .ret _ _ => rfl

private theorem origin?_after? : ∀ (Γ : StaticStack) (s : Option Stmt),
    (after? Γ s).origin? = Γ.origin?
  | _, none => rfl
  | Γ, some s => origin?_after Γ s

end

theorem free_after {Γ : StaticStack} {s : Stmt} {names : List String} :
    Γ.Free (s.declared ++ names) ↔ Γ.Free s.declared ∧ (after Γ s).Free names :=
  StaticStack.free_append _ _ (fun globals => globals ▸ after_globals s) fun inside =>
    has_after inside s
end Walk

end LoxLang
