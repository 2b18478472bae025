import LoxLang.Proofs.DeclaredNames
import LoxLang.Proofs.Scoping

/-!
Where an execution stands.  Before each statement of a scope, its frame holds just the names that
are declared so far; while the initial value of a variable is evaluated, it does not hold the name
of the variable, the only one whose declaration is not complete.
-/

set_option autoImplicit false
set_option relaxedAutoImplicit false

namespace LoxLang

def Origin.given : Origin → List String
  | block _ => []
  | call decl => decl.params.map Token.lexeme
  | receiver _ => ["this"]
  | superclass _ _ => ["super"]

def Known.Keeps (V : Known) (f : FrameId) (own : List String) (V' : Known) : Prop :=
  ∀ name, V'.holds f name → V.holds f name ∨ name ∈ own

def StaticStack.Owns (Γ : StaticStack) (s : Stmt) : Prop := ∀ o ∈ Γ.origin?, s ∈ o.body

/-- An execution before a statement: the innermost frame holds just the names that are declared in
the innermost scope. -/
structure Settled (V : Known) (Γ : StaticStack) (scope : Scope) : Prop where
  stands : Stands V none Γ scope
  complete : Γ.Complete
  exact : Γ ≠ [] → ∀ name, V.holds scope.frame name → Γ.has name

structure Awaiting (V : Known) (missing : Option String) (Γ : StaticStack) (scope : Scope) :
    Prop where
  stands : Stands V missing Γ scope
  awaited : ∀ name, Γ.incomplete name ↔ some name = missing
  absent : ∀ name, some name = missing → ¬V.holds scope.frame name

structure Declaring (V : Known) (Γ : StaticStack) (scope : Scope) (s : Stmt) (name : Token) :
    Prop where
  stands : Stands V none Γ scope
  names : s.declares? = some name
  owned : Γ.Owns s
  absent : Γ ≠ [] → ¬V.holds scope.frame name.lexeme

section

variable {V V' : Known} {missing : Option String} {Γ : StaticStack} {scope : Scope}

theorem Awaiting.step (h : Awaiting V missing Γ scope) (le : V ≤ V')
    (keeps : V.Keeps scope.frame [] V') : Awaiting V' missing Γ scope where
  stands := h.stands.mono le
  awaited := h.awaited
  absent name same held := (keeps name held).elim (h.absent name same) (by simp)

namespace Settled

theorem globals (V : Known) : Settled V [] .globals := ⟨.globals, fun _ => rfl, (absurd rfl ·)⟩

theorem awaiting (h : Settled V Γ scope) : Awaiting V none Γ scope where
  stands := h.stands
  awaited name := by simp [h.complete name]
  absent _ none := by cases none

theorem absent (h : Settled V Γ scope) (inside : Γ ≠ []) {name : String} (new : ¬Γ.has name) :
    ¬V.holds scope.frame name :=
  fun held => new (h.exact inside name held)

theorem declaring (h : Settled V Γ scope) (inside : Γ ≠ []) {name : Token}
    (new : ¬Γ.has name.lexeme) : Awaiting V (some name.lexeme) (Γ.declare name) scope where
  stands := h.stands.declare name
  awaited other := by
    rw [StaticStack.incomplete_declare h.complete inside new]
    simp
  absent other same := by
    obtain rfl := Option.some.inj same
    exact h.absent inside new

theorem step (h : Settled V Γ scope) (le : V ≤ V') (keeps : V.Keeps scope.frame [] V') :
    Settled V' Γ scope where
  stands := h.stands.mono le
  complete := h.complete
  exact inside name held := (keeps name held).elim (h.exact inside name) (by simp)

theorem after (h : Settled V Γ scope) {s : Stmt} (keeps : V.Keeps scope.frame s.declared V')
    (stands : Stands V' none (Walk.after Γ s) scope) : Settled V' (Walk.after Γ s) scope where
  stands := stands
  complete := Walk.after_complete h.complete s
  exact inside name held := by
    have inside' : Γ ≠ [] := fun globals => inside (globals ▸ Walk.after_globals s)
    refine ((Walk.has_after inside' s).2 name).mpr ?_
    exact (keeps name held).symm.imp_right (h.exact inside' name)

end Settled

theorem Declaring.step {s : Stmt} {name : Token} (h : Declaring V Γ scope s name) (le : V ≤ V')
    (keeps : V.Keeps scope.frame [] V') : Declaring V' Γ scope s name where
  stands := h.stands.mono le
  names := h.names
  owned := h.owned
  absent inside held := (keeps name.lexeme held).elim (h.absent inside) (by simp)

theorem Stands.opened (h : Stands V missing Γ scope) :
    scope = .globals ∨ ∃ o ∈ Γ.origin?, V.opened o scope := by
  cases h with
  | globals => exact .inl rfl
  | inside opened _ _ => exact .inr ⟨_, rfl, opened⟩

/-- Where a name is assigned, the frame at its distance is there and was opened for the static scope
in which the name was found; it holds the name unless its declaration is not complete. -/
theorem Awaiting.ancestor? (h : Awaiting V missing Γ scope) {name : String} {d : Nat}
    (found : Γ.distance? name = some d) :
    ∃ σ t, Γ[d]? = some σ ∧ σ.names.contains name ∧ scope.ancestor? d = some t ∧
      V.opened σ.origin t ∧ (V.holds t.frame name ↔ ¬Γ.incomplete name) := by
  by_cases awaited : some name = missing
  · have incomplete := (h.awaited name).mpr awaited
    have absent := h.absent name awaited
    obtain ⟨stands⟩ := h
    cases stands with
    | globals => cases found
    | @inside _ σ Γ f s opened _ _ =>
      have entry : σ.names[name]? = some false := by simpa [StaticStack.incomplete] using incomplete
      have here : σ.names.contains name := by
        rw [Std.TreeMap.contains_eq_isSome_getElem?, entry]
        rfl
      rw [StaticStack.distance?, List.findIdx?_cons, if_pos here] at found
      obtain rfl := Option.some.inj found
      exact ⟨σ, ⟨f, s.frames⟩, rfl, here, rfl, opened, iff_of_false absent (not_not_intro incomplete)⟩
  · obtain ⟨σ, t, around, member, out, held, opened⟩ := h.stands.ancestor? found awaited
    exact ⟨σ, t, around, member, out, opened, iff_of_true held (awaited ∘ (h.awaited name).mp)⟩

end

end LoxLang
