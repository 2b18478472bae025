import LoxLang.Proofs.ScopedSessions

/-!
Assignments to local variables.  An assignment at a recorded distance finds the frame that was made
for the static scope in which the resolver found the name.  The frame holds the name, unless the
assignment stands in the initial value of that very variable; there it always fails.
-/

set_option autoImplicit false
set_option relaxedAutoImplicit false

namespace LoxLang

open EvalM

private theorem EvalM.outcome_assign_local {D : Distances} {id : ExprId} {name : Token} {d : Nat}
    (found : D[id]? = some d) {m : Machine} {t : Scope} (out : m.scope.ancestor? d = some t)
    (v : Value) :
    (assign D id name v).outcome m =
      if m.store.holds t.frame name.lexeme then
        (.ok (), { m with store := m.store.setLocal t.frame name.lexeme v })
      else (.error (.failure (.fault ⟨name.line, .unboundLocal name.lexeme⟩)), m) := by
  have target : m.target? D id name =
      if m.store.holds t.frame name.lexeme then some t.frame else none := by
    simp only [Machine.target?, found, Store.holderAt?, out, Option.map_some, Option.filter_some]
  rw [outcome_assign, target]
  by_cases held : m.store.holds t.frame name.lexeme <;> simp [held, found]

/-- At every point of every history at which an assignment at a recorded distance is carried out,
the scope that many frames out is there and was made for the static scope in which the resolver
found the name.  If the declaration of the name is complete where the assignment stands, the frame
holds the name and the assignment succeeds; if the assignment stands in the initial value of the
variable, it fails and changes nothing.  No reading at a recorded distance finds nothing. -/
theorem assignment_finds_declared_frame (history : List Request) :
    (∀ D e v m, .assigns D e v m ∈ Session.initial.eventsAll history →
      ∃ id name value, e = .assign id name value ∧ ∀ d, D[id]? = some d →
        ∃ program ∈ Session.initial.executed history, ∃ Γ σ t,
          .met e Γ ∈ Walk.program program ∧ Γ.distance? name.lexeme = some d ∧ Γ[d]? = some σ ∧
          σ.names.contains name.lexeme ∧ m.scope.ancestor? d = some t ∧
          .opened σ.origin t ∈ Session.initial.eventsAll history ∧
          (m.store.holds t.frame name.lexeme ↔ ¬Γ.incomplete name.lexeme) ∧
          (assign D id name v).outcome m =
            if Γ.incomplete name.lexeme then
              (.error (.failure (.fault ⟨name.line, .unboundLocal name.lexeme⟩)), m)
            else (.ok (), { m with store := m.store.setLocal t.frame name.lexeme v })) ∧
    ∀ D e m, .evaluated D e m ∈ Session.initial.eventsAll history →
      ∀ id name d, e.read? = some (id, name) → D[id]? = some d →
        (m.store.getAt? m.scope d name.lexeme).isSome := by
  obtain ⟨V, ⟨_, opened, sound⟩, _⟩ := Session.Scoped.initial.performAll history
  have told : ∀ o t, V.opened o t ↔ .opened o t ∈ Session.initial.eventsAll history :=
    fun o t => by simpa using opened o t
  refine ⟨fun D e v m event => ?_, fun D e m event id name d read found => ?_⟩
  · obtain ⟨_, rfl, id, name, value, rfl, assigns⟩ := sound _ event
    refine ⟨id, name, value, rfl, fun d found => ?_⟩
    obtain ⟨Γ, σ, t, met, distance, around, member, out, made, held⟩ := assigns d found
    have inside : Γ ≠ [] := by
      rintro rfl
      cases around
    obtain ⟨program, executed, met⟩ := Session.met_executed met inside
    refine ⟨program, executed, Γ, σ, t, met, distance, around, member, out, (told _ _).mp made,
      held, ?_⟩
    rw [outcome_assign_local found out]
    by_cases incomplete : Γ.incomplete name.lexeme
    · rw [if_pos incomplete, if_neg fun present => held.mp present incomplete]
    · rw [if_neg incomplete, if_pos (held.mpr incomplete)]
  · obtain ⟨_, rfl, reads⟩ := sound _ event
    exact (reads id name d read found).getAt?

def Event.strays : Event → Bool
  | .assigns D (.assign id name _) _ m => D[id]?.isSome && (m.target? D id name).isNone
  | _ => false

/-- A program is accepted in which a variable is assigned in its own initial value; when it is run,
the assignment does not find the variable. -/
theorem assignment_in_own_initializer_strays :
    let config : Config := ⟨none, .working, fun _ => 0, 100⟩
    let source := "\x7b var a = a = true; \x7d"
    (Session.initial.run config source).1 = .error (.failed (.fault ⟨1, .unboundLocal "a"⟩)) ∧
    ¬∀ D id name value v m,
      .assigns D (.assign id name value) v m ∈ Session.initial.eventsAll [⟨config, .run source⟩] →
      ∀ d, D[id]? = some d →
        ∃ t, m.scope.ancestor? d = some t ∧ m.store.holds t.frame name.lexeme := by
  intro config source
  refine ⟨by decide +kernel, fun claim => ?_⟩
  have passed : (Session.initial.eventsAll [⟨config, .run source⟩]).any Event.strays := by
    decide +kernel
  obtain ⟨ev, event, strays⟩ := List.any_eq_true.mp passed
  unfold Event.strays at strays
  split at strays
  · rename_i D id name value v m
    obtain ⟨local_, nothing⟩ := Bool.and_eq_true_iff.mp strays
    obtain ⟨d, found⟩ := Option.isSome_iff_exists.mp local_
    obtain ⟨t, out, held⟩ := claim D id name value v m event d found
    have target : m.target? D id name = some t.frame := by
      simp [Machine.target?, found, Store.holderAt?, out, held]
    rw [target] at nothing
    cases nothing
  · cases strays

end LoxLang
