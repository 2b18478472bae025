import LoxLang.Proofs.ScopedSessions

/-!
Local variables are private to their scopes.  In a frame that is made for a scope nothing gives a
value to a name but the making of the frame itself, the declaration of the name in that scope, and
the assignments that the resolver binds to it, in all that a session ever executes.
-/

set_option autoImplicit false
set_option relaxedAutoImplicit false

namespace LoxLang

open EvalM

/-! What is held in a frame while events pass by. -/

namespace Event

/-- An event that gives a value to a name in a frame. -/
def Writes (ev : Event) (f : FrameId) (x : String) (v : Value) : Prop :=
  (∃ bindings, ev = .filled f bindings ∧ bindings[x]? = some v) ∨ ev.write? = some (f, x, v)

variable {c : Contents} {ev : Event} {f : FrameId} {x : String} {v : Value}

/-- The value that is written is there behind the event. -/
theorem Writes.next (h : ev.Writes f x v) : (ev.next c).held f x = some v := by
  rcases h with ⟨bindings, rfl, held⟩ | write
  · simp [Event.next, held]
  · cases ev with
    | filled _ _ => cases write
    | _ => simp [Event.next, write]

theorem held_next (fits : ev.Fits c) (made : f < c.size) (other : ∀ u, ¬ev.Writes f x u) :
    (ev.next c).held f x = c.held f x := by
  cases ev with
  | filled frame bindings =>
    have fresh := fits.fresh frame bindings rfl
    exact if_neg (Nat.ne_of_lt (fresh ▸ made))
  | _ =>
    simp only [Event.next]
    split
    · rename_i frame name u write
      refine if_neg ?_
      rintro ⟨here, same⟩
      exact other u (.inr (by rw [write, here, same]))
    · rfl

theorem Writes.made (fits : ev.Fits c) (h : ev.Writes f x v) : f < (ev.next c).size := by
  rcases h with ⟨bindings, rfl, held⟩ | write
  · exact Nat.lt_succ_self f
  · cases ev with
    | declares s u m =>
      obtain ⟨name, _, same⟩ := Option.map_eq_some_iff.mp write
      obtain ⟨rfl, _⟩ := Prod.mk.inj same
      exact Nat.lt_of_lt_of_le (fits.present m rfl) (size_le_next fits)
    | assigns D e u m =>
      have known := fits.known m rfl
      cases e with
      | assign id name value =>
        obtain ⟨frame, target, same⟩ := Option.map_eq_some_iff.mp write
        obtain ⟨rfl, _⟩ := Prod.mk.inj same
        have made := Store.lt_size_of_holds (Machine.target?_holds target)
        exact Nat.lt_of_lt_of_le (known ▸ made) (size_le_next fits)
      | _ => cases write
    | _ => cases write

private theorem held_foldl {evs : List Event} (tell : Tell c evs) (made : f < c.size)
    (held : c.held f x = some v)
    (others : ∀ c', ∀ ev ∈ evs, ev.Fits c' → f < c'.size → c'.held f x = some v →
      ∀ u, ¬ev.Writes f x u) :
    (evs.foldl Event.next c).held f x = some v := by
  induction evs generalizing c with
  | nil => exact held
  | cons ev evs ih =>
    have first := others c ev List.mem_cons_self tell.1 made held
    refine ih tell.2 (Nat.lt_of_lt_of_le made (size_le_next tell.1)) ?_
      fun c' ev' member => others c' ev' (List.mem_cons_of_mem _ member)
    rw [held_next tell.1 made first, held]

end Event

/-- An assignment in some programs that the resolver binds to a name of the scope from which some
frames come. -/
def BoundAssignment (programs : List (List Stmt)) (o : Origin) (x : String) (e : Expr) : Prop :=
  ∃ program ∈ programs, ∃ Γ σ d id name value, e = .assign id name value ∧ name.lexeme = x ∧
    .met e Γ ∈ Walk.program program ∧ Γ.distance? x = some d ∧ Γ[d]? = some σ ∧ σ.origin = o

/-- What an event may be that gives a value to a name in a frame that is made for a scope. -/
inductive OwnWrite (programs : List (List Stmt)) (o : Origin) (t : Scope) (x : String) :
    Event → Prop where
  /-- The frame is made, with the arguments of a call, an object or a superclass. -/
  | given (bindings : Bindings) : x ∈ o.given → OwnWrite programs o t x (.filled t.frame bindings)
  /-- The name is declared in the scope, and it was not there before. -/
  | declared {s : Stmt} {name : Token} (v : Value) {m : Machine} : s ∈ o.body →
    s.declares? = some name → name.lexeme = x → m.scope = t → ¬m.store.holds t.frame x →
    OwnWrite programs o t x (.declares s v m)
  /-- The name is assigned where the resolver found it in the scope. -/
  | assigned {D : Distances} {e : Expr} (v : Value) {m : Machine} {d : Nat} :
    BoundAssignment programs o x e → m.scope.ancestor? d = some t →
    OwnWrite programs o t x (.assigns D e v m)

theorem Event.Scoped.ownWrite {programs : List (List Stmt)} {notes : List Note} {V : Known}
    (once : ∀ o s o' s', V.opened o s → V.opened o' s' → s.frame = s'.frame → o = o' ∧ s = s')
    (executed : ∀ e Γ, Met notes e Γ → Γ ≠ [] →
      ∃ program ∈ programs, .met e Γ ∈ Walk.program program)
    {o : Origin} {t : Scope} (opened : V.opened o t) (local_ : t.frame ≠ Scope.globals.frame)
    {D : Distances} {ev : Event} (sound : ev.Scoped (Met notes) D V) {x : String} {v : Value}
    (writes : ev.Writes t.frame x v) : OwnWrite programs o t x ev := by
  rcases writes with ⟨bindings, rfl, held⟩ | write
  · obtain ⟨o', t', opened', frame, given⟩ := sound
    obtain ⟨rfl, rfl⟩ := once _ _ _ _ opened' opened frame
    refine .given bindings (given x ?_)
    rw [Std.TreeMap.contains_eq_isSome_getElem?, held]
    rfl
  · cases ev with
    | declares s u m =>
      obtain ⟨name, names, present⟩ := sound
      rw [Event.write?, names] at write
      obtain ⟨frame, rest⟩ := Prod.mk.inj (Option.some.inj write)
      obtain ⟨same, rfl⟩ := Prod.mk.inj rest
      rcases present with globals | ⟨o', opened', member, absent⟩
      · exact absurd (frame.symm.trans (congrArg Scope.frame globals)) local_
      -- A frame is made for one scope, so the declaration stands in the scope that is asked for.
      · obtain ⟨rfl, here⟩ := once _ _ _ _ opened' opened frame
        exact .declared _ member names same here (here ▸ same ▸ absent)
    | assigns D' e u m =>
      obtain ⟨rfl, id, name, value, rfl, finds⟩ := sound
      obtain ⟨frame, target, pair⟩ := Option.map_eq_some_iff.mp write
      obtain ⟨rfl, rest⟩ := Prod.mk.inj pair
      obtain ⟨same, rfl⟩ := Prod.mk.inj rest
      unfold Machine.target? at target
      split at target
      · rename_i d found
        obtain ⟨Γ, σ, t', met, distance, around, _, out, opened', _⟩ := finds d found
        obtain ⟨into, _⟩ := Option.filter_eq_some_iff.mp target
        rw [out, Option.map_some, Option.some.injEq] at into
        obtain ⟨rfl, rfl⟩ := once _ _ _ _ opened' opened into
        have inside : Γ ≠ [] := by
          rintro rfl
          cases around
        obtain ⟨program, member, met⟩ := executed _ Γ met inside
        exact .assigned _ ⟨program, member, Γ, σ, d, id, name, value, rfl, same, met,
          same ▸ distance, around, rfl⟩ out
      -- Without a distance only the global frame is written.
      · have member := List.mem_of_find?_eq_some target
        exact absurd (List.mem_singleton.mp member) local_
    | _ => cases write

/-- In every history, the events tell what the frames hold at each of them, and a name in a frame
that is made for a scope is only given a value when the frame is made, when the name is declared in
that scope, and by the assignments that the resolver binds to it.  If there are none of those, the
name keeps the first value that it was given. -/
theorem local_written_only_by_its_scope (history : List Request) :
    let events := Session.initial.eventsAll history
    let programs := Session.initial.executed history
    (Event.Tell Session.initial.contents events ∧
      (Session.initial.performAll history).contents =
        events.foldl Event.next Session.initial.contents) ∧
    ∀ o t, .opened o t ∈ events → ∀ x,
      (∀ ev ∈ events, ∀ v, ev.Writes t.frame x v → OwnWrite programs o t x ev) ∧
      ((∀ e, ¬BoundAssignment programs o x e) →
        ∀ before ev after v, events = before ++ ev :: after → ev.Writes t.frame x v →
        ∀ rest behind, after = rest ++ behind →
          ((before ++ ev :: rest).foldl Event.next Session.initial.contents).held t.frame x =
            some v) := by
  intro events programs
  obtain ⟨_, traced⟩ := Session.performAll_traced (s := .initial) rfl Nat.one_pos history
  obtain ⟨V, ⟨_, opened, sound⟩, invariant⟩ := Session.Scoped.initial.performAll history
  refine ⟨⟨traced.tell, traced.told⟩, fun o t entered x => ?_⟩
  have known : V.opened o t := (opened o t).mpr (.inr entered)
  have own : ∀ ev ∈ events, ∀ v, ev.Writes t.frame x v → OwnWrite programs o t x ev := by
    intro ev member v writes
    obtain ⟨_, kept⟩ := sound ev member
    obtain ⟨_, local_⟩ := sound _ entered
    exact kept.ownWrite invariant.store.once (fun e Γ => Session.met_executed) known local_ writes
  refine ⟨own, ?_⟩
  rintro unassigned before ev _ v split writes rest behind rfl
  have tell : Event.Tell Session.initial.contents (before ++ (ev :: rest ++ behind)) :=
    split ▸ traced.tell
  have tell := (Event.tell_append.mp (Event.tell_append.mp tell).2).1
  rw [List.foldl_append, List.foldl_cons]
  refine Event.held_foldl tell.2 (writes.made tell.1) writes.next ?_
  intro c ev' member fits made held u writes'
  have there : ev' ∈ events := by
    rw [split]
    exact List.mem_append_right _ (List.mem_cons_of_mem _ (List.mem_append_left _ member))
  cases own ev' there u writes' with
  | given bindings _ => exact Nat.ne_of_lt made (fits.fresh _ bindings rfl)
  | declared _ _ _ _ _ absent =>
    refine absent ?_
    rw [← fits.known _ rfl] at held
    exact Option.isSome_iff_exists.mpr ⟨v, held⟩
  | assigned _ bound _ => exact unassigned _ bound

end LoxLang
