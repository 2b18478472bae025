import LoxLang.Proofs.SuperDispatch

/-!
The object that `this` stands for.  When a method is bound to an object a frame is made that holds
the object as `this`, and nothing else is ever put there.  Each `this` of an executed program stands
in a method, perhaps in functions and blocks inside of it; wherever it is evaluated, in a call of the
method or of such a function at any time after, the present scope leads out to the frame of a call
of the method and to the one in which the method was bound, so it yields that object.
-/

set_option autoImplicit false
set_option relaxedAutoImplicit false

namespace LoxLang

open EvalM

/-! The scopes around a `this`. -/

namespace StaticStack

private theorem holdsInClasses_receiving : HoldsInClasses fun c Γ => c ≠ .outside →
    ∃ inner decl, ∃ outer : StaticStack, Γ.InBody "this" inner decl (outer.receiving decl) where
  outside _ inside := absurd rfl inside
  method decl Γ _ := ⟨[], decl, Γ, .start "this" decl _⟩
  derivedMethod decl name methods Γ _ _ := ⟨[], decl, Γ.inheriting name methods, .start "this" decl _⟩
  cons origin plain inside other := by
    obtain ⟨inner, decl, outer, inBody⟩ := inside other
    exact ⟨_, decl, outer, inBody.cons plain⟩
  mark complete isName inside other := by
    obtain ⟨inner, decl, outer, inBody⟩ := inside other
    obtain ⟨inner', inBody'⟩ := inBody.mark isName.ne_this complete
    exact ⟨inner', decl, outer, inBody'⟩

private theorem InBody.distance_this {Γ inner outer : StaticStack} {decl : FunctionDecl}
    (h : Γ.InBody "this" inner decl (outer.receiving decl)) :
    Γ.distance? "this" = some (inner.length + 1) := by
  have here : (outer.receiving decl).distance? "this" = some 0 := by
    simp [StaticStack.distance?, receiving, List.findIdx?_cons]
  rw [h.distance?, here, Option.map_some, Nat.zero_add]

end StaticStack

private theorem Session.executed_this {s : Session} {rs : List Request} {program : List Stmt}
    (member : program ∈ s.executed rs) {id : ExprId} {keyword : Token} {Γ : StaticStack}
    (met : .met (.this id keyword) Γ ∈ Walk.program program) :
    keyword.lexeme = "this" ∧
      ∃ inner decl, ∃ outer : StaticStack, Γ.InBody "this" inner decl (outer.receiving decl) := by
  obtain ⟨wellFormed, accepted⟩ := executed_accepted member
  obtain ⟨spelled, within, _⟩ := Walk.program_within StaticStack.holdsInClasses_receiving wellFormed
    accepted _ met
  rcases within id keyword rfl with inside | inside
  · exact ⟨spelled, inside (by simp)⟩
  · exact ⟨spelled, inside (by simp)⟩

/-! The frame that is made when a method is bound. -/

/-- The frame of a scope holds an object as `this`, and nothing else. -/
def Store.HoldsReceiver (m : Store) (r : Scope) (o : Object) : Prop :=
  ∀ x, m.local? r.frame x = if x = "this" then some (.object o) else none

namespace Session

variable {history : List Request} {decl : FunctionDecl} {r : Scope} {o : Object}

/-- Wherever the frame for an object is there, it holds the object as `this`, and nothing else. -/
theorem receiver_holds (binds : Event.Binds (initial.eventsAll history) decl r o) {ev : Event}
    (event : ev ∈ initial.eventsAll history) {m : Machine} (state : ev.machine? = some m)
    (there : r.frame < m.store.frames.size) : m.store.HoldsReceiver r o := by
  intro x
  rw [sealed_local? binds.sealed event state there x, Event.getElem?_receiving]

theorem receiver_kept (binds : Event.Binds (initial.eventsAll history) decl r o) :
    (initial.performAll history).interpreter.machine.store.HoldsReceiver r o := by
  intro x
  rw [← Event.getElem?_receiving, ← sealed_kept binds.sealed x]
  rfl

theorem receiver_obtained (binds : Event.Binds (initial.eventsAll history) decl r o) :
    Event.Obtains (initial.eventsAll history) decl r o := by
  obtain ⟨o', binds', obtains⟩ := opened_told (binds.subset List.mem_cons_self)
  have same := Event.filled_unique (tell_eventsAll history) binds.sealed.filled
    binds'.sealed.filled
  rwa [Event.receiving_inj same]

end Session

/-! Activations of methods. -/

namespace Event

/-- The frame of a scope is made for a call of a method that is bound to an object. -/
def Activates (evs : List Event) (decl : FunctionDecl) (u : Scope) (o : Object) : Prop :=
  ∃ r, Binds evs decl r o ∧ u.outer = r.frames ∧ .opened (.call decl) u ∈ evs

private theorem Binds.activates {evs : List Event} {f : Closure} {o : Object} {w : Surroundings}
    {bound : Nat} {args : List Value} {m : Machine} (binds : Binds evs f.decl f.scope o)
    (called : ofInvoke w (bound + 1) f args m <:+: evs) :
    ∃ u store, Activates evs f.decl u o ∧
      ofStmts w bound f.decl.body { m with store, scope := u } <:+: evs := by
  refine ⟨_, _, ⟨f.scope, binds, rfl, ?_⟩, (List.suffix_append _ _).isInfix.trans called⟩
  exact called.subset (List.mem_append_left _ List.mem_cons_self)

end Event

private theorem Scope.frames_inj {s t : Scope} (h : s.frames = t.frames) : s = t := by
  obtain ⟨frame, outer⟩ := s
  obtain ⟨frame', outer'⟩ := t
  obtain ⟨rfl, rfl⟩ := List.cons.inj h
  rfl

private theorem EvalM.outcome_lookUp {D : Distances} {id : ExprId} {name : Token} {m : Machine}
    {d : Nat}
    {v : Value} (found : D[id]? = some d) (held : m.store.getAt? m.scope d name.lexeme = some v) :
    (lookUp D id name).outcome m = (.ok v, m) := by
  rw [lookUp, outcome_bind, outcome_get]
  simp only [found, held]
  rfl

/-- A method that is bound to an object was taken as a property of it or by `super`, or the object
was being set up.  The frame made for this is filled once, with the object as `this`, is never
written by anything else, and holds just that at every point from then on.  Whoever calls what the
binding gives, the body is run in an activation of the method for the object.  Each `this` of an
executed program stands in a method, and in no class inside of that.  Wherever it is evaluated, the
present scope leads out to the frame of an activation of that method, and the value is the object to
which the method was bound in that activation, and nothing else. -/
theorem this_is_the_receiver (history : List Request) :
    let events := Session.initial.eventsAll history
    (∀ decl r o, Event.Binds events decl r o →
      Event.Obtains events decl r o ∧
      (∃ before after, events = before ++ .filled r.frame (Event.receiving o) :: after ∧
        ∀ ev ∈ before ++ after, ∀ x v, ¬ev.Writes r.frame x v) ∧
      (∀ ev ∈ events, ∀ m, ev.machine? = some m → r.frame < m.store.frames.size →
        m.store.HoldsReceiver r o) ∧
      (Session.initial.performAll history).interpreter.machine.store.HoldsReceiver r o) ∧
    (∀ (f : Closure) o w bound args m, Event.Binds events f.decl f.scope o →
      Event.ofInvoke w (bound + 1) f args m <:+: events →
      ∃ u store, Event.Activates events f.decl u o ∧
        Event.ofStmts w bound f.decl.body { m with store, scope := u } <:+: events) ∧
    ∀ D id keyword m, .evaluated D (.this id keyword) m ∈ events →
      ∀ program ∈ Session.initial.executed history,
      ∀ Γ, .met (.this id keyword) Γ ∈ Walk.program program →
      ∃ inner decl, ∃ outer : StaticStack, Γ.InBody "this" inner decl (outer.receiving decl) ∧
        ∃ u, m.scope.ancestor? inner.length = some u ∧ (∃ o, Event.Activates events decl u o) ∧
          ∀ o, Event.Activates events decl u o → ∀ w bound, w.distances = D →
            (evalExpr w (bound + 1) (.this id keyword)).outcome m = (.ok (.object o), m) := by
  intro events
  refine ⟨fun decl r o binds => ⟨Session.receiver_obtained binds,
    Session.sealed_written_once binds.sealed, fun ev event m => Session.receiver_holds binds event,
    Session.receiver_kept binds⟩, fun f o w bound args m binds called => binds.activates called, ?_⟩
  intro D id keyword m event program executed Γ met
  obtain ⟨V, ⟨⟨_, opened, _⟩, situated⟩, _⟩ := Session.Scoped.initial.performAll_situated history
  have told : ∀ o t, V.opened o t ↔ .opened o t ∈ events := fun o t => by simpa using opened o t
  obtain ⟨missing, Γ', met', distance, stands⟩ := situated _ event id keyword rfl
  obtain rfl : Γ = Γ' := met_unique (Session.notesAll_numbered .initial history).nodup rfl
    (Session.met_of_executed executed met) met'
  obtain ⟨spelled, inner, decl, outer, inBody⟩ := Session.executed_this executed met
  obtain ⟨u, r, _, toCall, toReceiver, around, _, called, received, this, _⟩ := stands.inBody inBody
  obtain ⟨o, binds, _⟩ := Session.opened_told ((told _ _).mp received)
  refine ⟨inner, decl, outer, inBody, u, toCall, ⟨o, r, binds, around, (told _ _).mp called⟩, ?_⟩
  rintro o' ⟨r', binds', around', _⟩ w bound same
  -- The scope around the activation is the one in which the method was bound.
  obtain rfl : r = r' := Scope.frames_inj (around.symm.trans around')
  have object : m.store.getAt? m.scope (inner.length + 1) keyword.lexeme = some (.object o') := by
    have holds := Session.receiver_holds binds' event rfl (Store.lt_size_of_holds this)
    rw [Store.getAt?, toReceiver, spelled]
    exact (holds "this").trans (if_pos rfl)
  have found : w.distances[id]? = some (inner.length + 1) := by
    rw [same, distance, spelled, inBody.distance_this]
  have step : evalExpr w (bound + 1) (.this id keyword) = EvalM.lookUp w.distances id keyword := by
    rw [evalExpr]
  rw [step, outcome_lookUp found object]

def Expr.isThis (id : ExprId) (keyword : Token) : Expr → Bool
  | .this id' keyword' => id' = id && keyword' = keyword
  | _ => false

private theorem Expr.isThis_eq {id : ExprId} {keyword : Token} {e : Expr}
    (h : e.isThis id keyword) :
    e = .this id keyword := by
  cases e with
  | this id' keyword' =>
    simp only [Expr.isThis, Bool.and_eq_true, decide_eq_true_eq] at h
    rw [h.1, h.2]
  | _ => cases h

def Event.receivesOnly (id : ObjectId) : Event → Bool
  | .filled _ bindings =>
    match bindings["this"]? with
    | some (.object o) => o.id = id
    | _ => true
  | _ => true

/-- A method is taken of one object and put into a field of another.  It gives a function, which is
called when the call of the method is over, and gives the object of which the method was taken. -/
theorem function_of_stored_method_gives_its_object :
    let config : Config := ⟨none, .working, fun _ => 0, 100⟩
    let declared := "class A \x7b m() \x7b fun f() \x7b return this; \x7d return f; \x7d \x7d "
    let history : List Request :=
      [⟨config, .run (declared ++ "var a = A(); var b = A(); b.m = a.m;")⟩,
        ⟨config, .run "b.m()();"⟩]
    let e : Expr := .this 0 ⟨.thisWord, "this", 1⟩
    ∃ D m o, .evaluated D e m ∈ Session.initial.eventsAll history ∧ o.id = 0 ∧
      ∀ w bound, w.distances = D → (evalExpr w (bound + 1) e).outcome m = (.ok (.object o), m) := by
  intro config declared history e
  obtain ⟨D, m, event, program, executed, Γ, met⟩ : ∃ D m,
      .evaluated D e m ∈ Session.initial.eventsAll history ∧
      ∃ program ∈ Session.initial.executed history, ∃ Γ, .met e Γ ∈ Walk.program program :=
    Session.evaluated_and_met (fun _ => Expr.isThis_eq) (by decide +kernel) (by decide +kernel)
  have received : (Session.initial.eventsAll history).all (·.receivesOnly 0) := by
    decide +kernel
  obtain ⟨_, _, evaluation⟩ := this_is_the_receiver history
  obtain ⟨_, _, _, _, _, _, ⟨o, activates⟩, yields⟩ :=
    evaluation D 0 _ m event program executed Γ met
  obtain ⟨r, binds, _⟩ := id activates
  have own := List.all_eq_true.mp received _ binds.sealed.filled
  simp only [Event.receivesOnly, Event.getElem?_receiving, if_true, decide_eq_true_eq] at own
  exact ⟨D, m, o, event, own, yields o activates⟩

end LoxLang
