import LoxLang.Proofs.EvaluatedExpressions
import LoxLang.Proofs.ProperValues
import LoxLang.Proofs.Receivers

/-!
Initializers give the object that they are bound to.  Whatever a program gets hold of, an initializer
among it was bound to an object, and the frame that was made for this still holds the object.  So
every call of it, however the body ends, fails or gives that object; and a call of a class fails or
gives an object of the class that was not there before.
-/

set_option autoImplicit false
set_option relaxedAutoImplicit false

namespace LoxLang

open EvalM

/-! Calls. -/

private theorem EvalM.outcome_bind_ok {α β : Type} {act : EvalM α} {next : α → EvalM β}
    {m m' : Machine} {b : β} (run : (act >>= next).outcome m = (.ok b, m')) :
    ∃ a m₁, act.outcome m = (.ok a, m₁) ∧ (next a).outcome m₁ = (.ok b, m') := by
  rw [outcome_bind] at run
  rcases first : act.outcome m with ⟨_ | a, m₁⟩ <;> rw [first] at run
  · cases run
  · exact ⟨a, m₁, rfl, run⟩

/-- An execution fails, or it gives an object. -/
def FailsOrGives (out : Except Interrupt Value) (o : Object) : Prop :=
  (∃ f, out = .error (.failure f)) ∨ out = .ok (.object o)

private theorem FailsOrGives.of_ok {act : EvalM Value} (unreturned : Unreturned act) {m : Machine}
    {o : Object} (gives : ∀ v m', act.outcome m = (.ok v, m') → v = .object o) :
    FailsOrGives (act.outcome m).1 o := by
  have stays := unreturned m
  generalize act.outcome m = out at stays gives
  rcases out with ⟨(f | v) | v, m'⟩
  · exact .inl ⟨f, rfl⟩
  · exact absurd rfl (stays v)
  · exact .inr (congrArg Except.ok (gives v m' rfl))

structure Event.Applies (evs : List Event) (w : Surroundings) (bound : Nat) (callee : Expr)
    (paren : Token) (arguments : List Expr) (m : Machine) (c : Callable) (args : List Value)
    (m' : Machine) : Prop where
  part : Event.ofExpr w (bound + 1) (.call callee paren arguments) m <:+: evs
  ready : ∃ m₁, (evalExpr w bound callee).outcome m = (.ok (.callable c), m₁) ∧
    (evalExprs w bound arguments).outcome m₁ = (.ok args, m')
  fits : (expectCallable w.config.callLimit (.callable c) args.length paren).outcome m' = (.ok c, m')

def Store.setUp (m : Store) (k : Class) (initializer : Closure) : Closure × Store :=
  (m.newObject k).2.bind initializer (m.newObject k).1

private theorem FailsOrGives.eq_of_ok {out : Except Interrupt Value} {o : Object}
    (h : FailsOrGives out o) {v : Value} (done : out = .ok v) : v = .object o := by
  subst done
  rcases h with ⟨_, failed⟩ | gives
  · cases failed
  · exact Except.ok.inj gives

/-- What comes of a call of a function in some events.  The function is the value of the callee of
a call, or the initializer of the class that is, bound to the new object. -/
inductive Event.CallOf (evs : List Event) : Closure → Except Interrupt Value → Prop where
  | expression {w : Surroundings} {bound : Nat} {callee : Expr} {paren : Token}
    {arguments : List Expr} {m m₁ : Machine} {f : Closure} :
    Event.ofExpr w (bound + 1) (.call callee paren arguments) m <:+: evs →
    (evalExpr w bound callee).outcome m = (.ok (.callable (.function f)), m₁) →
    CallOf evs f ((evalExpr w (bound + 1) (.call callee paren arguments)).outcome m).1
  | construction {w : Surroundings} {bound : Nat} {callee : Expr} {paren : Token}
    {arguments : List Expr} {m m' : Machine} {k : Class} {args : List Value}
    {initializer : Closure} :
    Event.Applies evs w (bound + 1) callee paren arguments m (.ofClass k) args m' →
    k.method? initializerName = some initializer →
    CallOf evs (m'.store.setUp k initializer).1
      ((invokeClosure w bound (m'.store.setUp k initializer).1 args).outcome
        { m' with store := (m'.store.setUp k initializer).2, depth := m'.depth + 1 }).1

section

variable {evs : List Event} {w : Surroundings} {bound : Nat} {callee : Expr} {paren : Token}
  {arguments : List Expr} {m m' : Machine} {c : Callable} {args : List Value}

private theorem EvalM.expectCallable_ok {limit : Option Nat} {f : Value} {given : Nat}
    (run : (expectCallable limit f given paren).outcome m = (.ok c, m')) :
    f = .callable c ∧ m' = m := by
  cases f with
  | callable c' =>
    rw [expectCallable, outcome_bind, outcome_get] at run
    dsimp only at run
    split at run
    · cases run
    · split at run
      · cases run
      · obtain ⟨same, rfl⟩ := Prod.mk.inj run
        exact ⟨congrArg Value.callable (Except.ok.inj same), rfl⟩
  | _ => cases run

private theorem EvalM.superMethod_ok {D : Distances} {id : ExprId} {keyword method : Token}
    {inner : Nat} {v : Value} {o : Object} (distance : D[id]? = some (inner + 1))
    (this : m.store.getAt? m.scope inner "this" = some (.object o))
    (run : (superMethod D id keyword method).outcome m = (.ok v, m')) :
    ∃ k f, m.store.getAt? m.scope (inner + 1) "super" = some (.callable (.ofClass k)) ∧
      k.method? method.lexeme = some f := by
  cases above : m.store.getAt? m.scope (inner + 1) "super" with
  | none =>
    rw [superMethod, outcome_bind, outcome_get] at run
    simp only [distance, ofOption, pure_bind, above] at run
    cases run
  | some u =>
    by_cases isClass : ∃ k, u = .callable (.ofClass k)
    · obtain ⟨k, rfl⟩ := isClass
      rw [outcome_superMethod distance above this] at run
      split at run
      · rename_i f found
        exact ⟨k, f, rfl, found⟩
      · cases run
    · rw [superMethod, outcome_bind, outcome_get] at run
      simp only [distance, ofOption, pure_bind, above] at run
      split at run
      · rename_i k same
        exact absurd ⟨k, Option.some.inj same⟩ isClass
      · cases run

/-- An execution without any nested step gives nothing. -/
theorem EvalM.evalExpr_ok {e : Expr} {v : Value}
    (run : (evalExpr w bound e).outcome m = (.ok v, m')) : ∃ b, bound = b + 1 := by
  cases bound with
  | zero =>
    rw [evalExpr] at run
    cases run
  | succ b => exact ⟨b, rfl⟩

namespace Event

private theorem callee_part : ofExpr w bound callee m <:+:
    ofExpr w (bound + 1) (.call callee paren arguments) m := by
  rw [ofExpr]
  exact (List.prefix_append _ _).isInfix.trans (List.suffix_cons _ _).isInfix

private theorem Applies.of_ok {v : Value}
    (part : ofExpr w (bound + 1) (.call callee paren arguments) m <:+: evs)
    (run : (evalExpr w (bound + 1) (.call callee paren arguments)).outcome m = (.ok v, m')) :
    ∃ c args m₂ m₃, Applies evs w bound callee paren arguments m c args m₂ ∧
      (applyCallable w bound c args).outcome { m₂ with depth := m₂.depth + 1 } = (.ok v, m₃) ∧
      m'.store = m₃.store := by
  rw [evalExpr] at run
  obtain ⟨f, m₁, first, run⟩ := outcome_bind_ok run
  obtain ⟨args, m₂, second, run⟩ := outcome_bind_ok run
  obtain ⟨c, m₂', third, applied⟩ := outcome_bind_ok run
  obtain ⟨rfl, rfl⟩ := expectCallable_ok third
  rw [outcome_asCall] at applied
  obtain ⟨result, rfl⟩ := Prod.mk.inj applied
  exact ⟨c, args, m₂', _, ⟨part, ⟨m₁, first, second⟩, third⟩, Prod.ext result rfl, rfl⟩

private theorem Applies.outcome (h : Applies evs w bound callee paren arguments m c args m') :
    (evalExpr w (bound + 1) (.call callee paren arguments)).outcome m =
      (asCall (applyCallable w bound c args)).outcome m' := by
  obtain ⟨_, ⟨m₁, first, second⟩, third⟩ := h
  rw [evalExpr, outcome_bind, first]
  dsimp only
  rw [outcome_bind, second]
  dsimp only
  rw [outcome_bind, third]

private theorem Applies.applied (h : Applies evs w bound callee paren arguments m c args m') :
    ofApply w bound c args { m' with depth := m'.depth + 1 } <:+: evs := by
  obtain ⟨part, ⟨m₁, first, second⟩, third⟩ := h
  refine List.IsInfix.trans ?_ part
  simp only [ofExpr, behind, first, second, third]
  refine List.IsInfix.trans ?_ (((List.suffix_cons _ _).trans (List.suffix_append _ _)).trans
    ((List.suffix_append _ _).trans (List.suffix_cons _ _))).isInfix
  exact (List.prefix_append _ _).isInfix

end Event

private theorem EvalM.invokeClosure_ok {f : Closure} (marked : f.isInitializer) {v : Value}
    (run : (invokeClosure w bound f args).outcome m = (.ok v, m')) :
    v = (m'.store.local? f.scope.frame "this").getD .nil := by
  cases bound with
  | zero =>
    rw [invokeClosure] at run
    cases run
  | succ bound =>
    rw [invokeClosure] at run
    obtain ⟨t, m₁, _, run⟩ := outcome_bind_ok run
    obtain ⟨r, m₂, _, run⟩ := outcome_bind_ok run
    rw [if_pos marked, outcome_bind, outcome_store] at run
    obtain ⟨same, rfl⟩ := Prod.mk.inj run
    exact (Except.ok.inj same).symm

private theorem EvalM.outcome_applyCallable_plain {k : Class}
    (none : k.method? initializerName = none) :
    (applyCallable w (bound + 1) (.ofClass k) args).outcome m =
      (.ok (.object (m.store.newObject k).1), { m with store := (m.store.newObject k).2 }) := by
  rw [applyCallable, outcome_bind, outcome_onStore]
  simp only [none]
  rfl

private theorem EvalM.outcome_applyCallable_setUp {k : Class} {i : Closure}
    (found : k.method? initializerName = some i) :
    (applyCallable w (bound + 1) (.ofClass k) args).outcome m =
      match (invokeClosure w bound (m.store.setUp k i).1 args).outcome
        { m with store := (m.store.setUp k i).2 } with
      | (.ok _, m') => (.ok (.object (m.store.newObject k).1), m')
      | (.error e, m') => (.error e, m') := by
  rw [applyCallable, outcome_bind, outcome_onStore]
  simp only [found]
  rw [outcome_bind, outcome_onStore]
  dsimp only [Store.setUp]
  rw [outcome_bind]
  split
  · rename_i same
    rw [same]
    rfl
  · rename_i same
    rw [same]

private theorem EvalM.applyCallable_ok {k : Class} {v : Value}
    (run : (applyCallable w bound (.ofClass k) args).outcome m = (.ok v, m')) :
    v = .object (m.store.newObject k).1 := by
  cases bound with
  | zero =>
    rw [applyCallable] at run
    cases run
  | succ bound =>
    cases found : k.method? initializerName with
    | none =>
      rw [outcome_applyCallable_plain found] at run
      exact (Except.ok.inj (Prod.mk.inj run).1).symm
    | some i =>
      rw [outcome_applyCallable_setUp found] at run
      split at run
      · exact (Except.ok.inj (Prod.mk.inj run).1).symm
      · cases run

end

/-! What a program gets hold of. -/

namespace Session

/-- A value that a program gets hold of in a session, and what is stored then: it is kept where an
event comes about or when everything is over, or an expression gives it. -/
inductive Obtained (history : List Request) : Value → Store → Prop where
  | kept {ev : Event} {m : Machine} {v : Value} : ev ∈ initial.eventsAll history →
    ev.machine? = some m → m.store.Keeps v → Obtained history v m.store
  | left {v : Value} : (initial.performAll history).interpreter.machine.store.Keeps v →
    Obtained history v (initial.performAll history).interpreter.machine.store
  | given {w : Surroundings} {bound : Nat} {e : Expr} {m m' : Machine} {v : Value} :
    Event.ofExpr w bound e m <:+: initial.eventsAll history →
    (evalExpr w bound e).outcome m = (.ok v, m') → Obtained history v m'.store

variable {history : List Request}

private theorem proper_at {ev : Event} (event : ev ∈ initial.eventsAll history) {m : Machine}
    (state : ev.machine? = some m) : m.store.Proper (initial.eventsAll history) :=
  ((passes history).1.mem event state).1

variable {w : Surroundings} {bound : Nat} {e : Expr} {m m' : Machine}

private theorem grows_before {before after : List Event}
    (split : initial.eventsAll history = before ++ Event.ofExpr w (bound + 1) e m ++ after)
    {ev : Event} (event : ev ∈ before) (state : ev.machine? = some m') :
    m'.store.Grows m.store := by
  have passes {own : List Event} (same : initial.eventsAll history = own) :
      Event.Passes (initial.eventsAll history) initial.interpreter.machine.store own
        (initial.performAll history).interpreter.machine.store := same ▸ (passes history).1
  rw [Event.ofExpr, List.append_assoc, List.cons_append] at split
  obtain ⟨first, _⟩ := (passes split).split rfl
  exact (first.mem event state).2

private theorem proper_before (part : Event.ofExpr w (bound + 1) e m <:+: initial.eventsAll history) :
    m.store.Proper (initial.eventsAll history) := by
  have event : .evaluated w.distances e m ∈ initial.eventsAll history := by
    refine part.subset ?_
    rw [Event.ofExpr]
    exact List.mem_cons_self
  exact proper_at event rfl

private theorem proper_behind {v : Value}
    (part : Event.ofExpr w bound e m <:+: initial.eventsAll history)
    (run : (evalExpr w bound e).outcome m = (.ok v, m')) :
    v.Proper (initial.eventsAll history) m'.store ∧
      m'.store.Proper (initial.eventsAll history) ∧ m.store.Grows m'.store := by
  obtain ⟨b, rfl⟩ := evalExpr_ok run
  obtain ⟨path, stored, ends⟩ := ((Invariant.proper_kept (initial.eventsAll history) w).all
    (b + 1)).expr [] m trivial (proper_before part) part
  rw [run] at path stored ends
  exact ⟨ends, stored, Event.Passes.grows path⟩

private theorem Obtained.proper {v : Value} {m : Store} (h : Obtained history v m) :
    v.Proper (initial.eventsAll history) m := by
  cases h with
  | kept event state keeps => exact proper_at event state v keeps
  | left keeps => exact (passes history).2 v keeps
  | given part run => exact (proper_behind part run).1

variable {decl : FunctionDecl} {r : Scope} {o : Object}

private theorem receiver_behind (binds : Event.Binds (initial.eventsAll history) decl r o)
    (part : Event.ofExpr w (bound + 1) e m <:+: initial.eventsAll history)
    {result : Except Interrupt Value}
    (run : (evalExpr w (bound + 1) e).outcome m = (result, m'))
    (there : r.frame < m'.store.frames.size) : m'.store.HoldsReceiver r o := by
  obtain ⟨before, after, split⟩ := part
  have tell := tell_eventsAll history
  rw [← split] at tell
  have own := (Event.tell_append.mp (Event.tell_append.mp tell).1).2
  have first : (Event.evaluated w.distances e m).Fits
      (before.foldl Event.next initial.contents) := by
    rw [Event.ofExpr] at own
    exact own.1
  have known := first.known m rfl
  have present : m.scope.frame < m.store.contents.size := known ▸ first.present m rfl
  have traced : Traced m [] (Event.ofExpr w (bound + 1) e m)
      ((evalExpr w (bound + 1) e).outcome m).2 := TracedRun.expr w (bound + 1) e m present
  rw [run] at traced
  have behind : m'.store.contents = (before ++ Event.ofExpr w (bound + 1) e m).foldl Event.next
      initial.contents := by
    rw [List.foldl_append, ← known]
    exact traced.told
  intro x
  have held := sealed_held binds.sealed split.symm (behind ▸ there) x
  rw [← behind] at held
  exact held.trans (Event.getElem?_receiving o x)

private theorem binds_unique {decl' : FunctionDecl} {o' : Object}
    (binds : Event.Binds (initial.eventsAll history) decl r o)
    (binds' : Event.Binds (initial.eventsAll history) decl' r o') : o = o' :=
  Event.receiving_inj (Event.filled_unique (tell_eventsAll history) binds.sealed.filled
    binds'.sealed.filled)

private theorem Obtained.holdsReceiver {f : Closure} {m : Store}
    (h : Obtained history (.callable (.function f)) m) (marked : f.isInitializer) :
    ∃ o, Event.Binds (initial.eventsAll history) f.decl f.scope o ∧ m.HoldsReceiver f.scope o := by
  obtain ⟨⟨o, binds⟩, there⟩ := h.proper marked
  refine ⟨o, binds, ?_⟩
  cases h with
  | kept event state keeps => exact receiver_holds binds event state there
  | left keeps => exact receiver_kept binds
  | given part run =>
    obtain ⟨b, rfl⟩ := evalExpr_ok run
    exact receiver_behind binds part run there

end Session

/-! Calls of initializers and of classes. -/

section

variable {history : List Request} {w : Surroundings} {bound : Nat} {callee : Expr} {paren : Token}
  {arguments : List Expr} {m m' : Machine} {c : Callable} {args : List Value}

private theorem Event.Applies.proper
    (h : Applies (Session.initial.eventsAll history) w bound callee paren arguments m c args m') :
    (Value.callable c).Proper (Session.initial.eventsAll history) m'.store ∧
      (∀ v ∈ args, v.Proper (Session.initial.eventsAll history) m'.store) ∧
      m'.store.Proper (Session.initial.eventsAll history) ∧ m.store.Grows m'.store := by
  obtain ⟨part, ⟨m₁, first, second⟩, _⟩ := h
  have whole : ofExpr w (bound + 1) (.call callee paren arguments) m =
      .evaluated w.distances (.call callee paren arguments) m :: (ofExpr w bound callee m ++
        (ofExprs w bound arguments m₁ ++ behind (evalExprs w bound arguments) (fun args m =>
          behind (expectCallable w.config.callLimit (.callable c) args.length paren) (fun c m =>
            let begun := { m with depth := m.depth + 1 }
            .begins paren begun :: (ofApply w bound c args begun ++
              [.ends ((asCall (applyCallable w bound c args)).outcome m).2])) m) m₁)) := by
    simp only [ofExpr, behind, first]
  rw [whole] at part
  have inner := (List.suffix_cons _ _).isInfix.trans part
  obtain ⟨value, proper, grows⟩ :=
    Session.proper_behind ((List.prefix_append _ _).isInfix.trans inner) first
  have rest := (List.suffix_append _ _).isInfix.trans inner
  obtain ⟨path, stored, ends⟩ :=
    ((Invariant.proper_kept (Session.initial.eventsAll history) w).all bound).exprs [] m₁
      (fun _ _ => trivial) proper ((List.prefix_append _ _).isInfix.trans rest)
  rw [second] at path stored ends
  have later := Event.Passes.grows path
  exact ⟨value.mono later, ends, stored, grows.trans later⟩

namespace Session

private theorem call_gives {f : Closure} (marked : f.isInitializer) {o : Object}
    (binds : Event.Binds (initial.eventsAll history) f.decl f.scope o)
    (part : Event.ofExpr w (bound + 1) (.call callee paren arguments) m <:+:
      initial.eventsAll history)
    (value : (evalExpr w bound callee).outcome m = (.ok (.callable (.function f)), m')) :
    FailsOrGives ((evalExpr w (bound + 1) (.call callee paren arguments)).outcome m).1 o := by
  refine .of_ok (.evalExpr w _ _) fun v m₄ run => ?_
  obtain ⟨c, args, m₂, m₃, applies, applied, same⟩ := Event.Applies.of_ok part run
  obtain ⟨m₁, first, _⟩ := applies.ready
  obtain ⟨result, rfl⟩ := Prod.mk.inj (value.symm.trans first)
  obtain rfl := Value.callable.inj (Except.ok.inj result)
  obtain ⟨proper, all, stored, _⟩ := applies.proper
  have path := (((Invariant.proper_kept (initial.eventsAll history) w).all bound).apply []
    { m₂ with depth := m₂.depth + 1 } (c := .function f) proper all stored applies.applied).path
  rw [applied] at path
  have there : f.scope.frame < m₄.store.frames.size :=
    same ▸ Nat.lt_of_lt_of_le (proper marked).2 (Event.Passes.grows path).frames
  have holds := receiver_behind binds part run there "this"
  cases bound with
  | zero =>
    rw [applyCallable] at applied
    cases applied
  | succ bound =>
    rw [applyCallable] at applied
    rw [invokeClosure_ok marked applied, ← same, holds]
    rfl

private theorem setUp_gives {k : Class} {i : Closure} (found : k.method? initializerName = some i)
    (applies : Event.Applies (initial.eventsAll history) w (bound + 1) callee paren arguments m
      (.ofClass k) args m') :
    Event.Binds (initial.eventsAll history) i.decl (m'.store.setUp k i).1.scope
        (m'.store.newObject k).1 ∧
      FailsOrGives ((invokeClosure w bound (m'.store.setUp k i).1 args).outcome
        { m' with store := (m'.store.setUp k i).2, depth := m'.depth + 1 }).1
        (m'.store.newObject k).1 := by
  obtain ⟨marked, all, stored, _⟩ := applies.proper
  have initializer : (m'.store.setUp k i).1.isInitializer :=
    show i.isInitializer from Class.Marked.initializer marked found
  let made : Machine :=
    { m' with store := (m'.store.newObject k).2, depth := m'.depth + 1 }
  let ready : Machine := { m' with store := (m'.store.setUp k i).2, depth := m'.depth + 1 }
  have split : Event.ofBind i (m'.store.newObject k).1 made ++
      Event.ofInvoke w bound (m'.store.setUp k i).1 args ready <:+: initial.eventsAll history := by
    have part := applies.applied
    simp only [Event.ofApply, Event.behind, outcome_onStore, found] at part
    exact part
  have binds : Event.Binds (initial.eventsAll history) i.decl (m'.store.setUp k i).1.scope
      (m'.store.newObject k).1 := (List.prefix_append _ _).isInfix.trans split
  refine ⟨binds, .of_ok (.invokeClosure w _ _ _) fun v m₄ run => ?_⟩
  have kept := Invariant.proper_kept (initial.eventsAll history) w
  have first : Invariant.Leads _ [] _ { m' with depth := m'.depth + 1 } [] (_, made) :=
    kept.makeObject (k := k) marked stored List.nil_infix
  have binding : Invariant.Binding (.proper (initial.eventsAll history)) w i
      (m'.store.newObject k).1 made :=
    .construction (m := { m' with depth := m'.depth + 1 }) found applies.applied
  have second : Invariant.Leads _ [] _ made _ (_, ready) :=
    kept.bindTo first.ends trivial binding first.stored binds
  have grows := Event.Passes.grows (Event.Passes.trans first.path second.path)
  have third := (kept.all bound).invoke [] ready trivial (fun v member => (all v member).mono grows)
    second.stored ((List.suffix_append _ _).isInfix.trans split)
  have path := third.path
  rw [run] at path
  have there := Nat.lt_of_lt_of_le (second.ends initializer).2 (Event.Passes.grows path).frames
  have call : (evalExpr w (bound + 2) (.call callee paren arguments)).outcome m =
      (.ok (.object (m'.store.newObject k).1), { m₄ with depth := m₄.depth - 1 }) := by
    rw [applies.outcome, outcome_asCall, outcome_applyCallable_setUp found, run]
  have holds : m₄.store.local? (m'.store.setUp k i).1.scope.frame "this" =
      some (.object (m'.store.newObject k).1) := receiver_behind binds applies.part call there "this"
  rw [invokeClosure_ok initializer run, holds]
  rfl

private theorem callOf_gives {f : Closure} {out : Except Interrupt Value}
    (call : Event.CallOf (initial.eventsAll history) f out) (marked : f.isInitializer) :
    ∃ o, Event.Binds (initial.eventsAll history) f.decl f.scope o ∧ FailsOrGives out o := by
  cases call with
  | expression part value =>
    obtain ⟨o, binds, _⟩ :=
      (Obtained.given (Event.callee_part.trans part) value).holdsReceiver marked
    exact ⟨o, binds, call_gives marked binds part value⟩
  | construction applies found => exact ⟨_, setUp_gives found applies⟩

private theorem property_call_gives {object : Expr} {name : Token}
    (named : name.lexeme = initializerName)
    (part : Event.ofExpr w (bound + 2) (.call (.get object name) paren arguments) m <:+:
      initial.eventsAll history) {o : Object}
    (value : (evalExpr w bound object).outcome m = (.ok (.object o), m'))
    (unset : m'.store.field? o initializerName = none) :
    FailsOrGives ((evalExpr w (bound + 2) (.call (.get object name) paren arguments)).outcome m).1
      o := by
  have inner := Event.callee_part.trans part
  have step : (evalExpr w (bound + 1) (.get object name)).outcome m =
      (getProperty (.object o) name).outcome m' := by
    rw [evalExpr, outcome_bind, value]
  have split : Event.ofExpr w (bound + 1) (.get object name) m =
      .evaluated w.distances (.get object name) m ::
        (Event.ofExpr w bound object m ++ (.takes (.object o) name m' ::
          Event.ofProperty (.object o) name m')) := by
    simp only [Event.ofExpr, Event.behind, value]
  rw [split] at inner
  have behind := (List.suffix_cons _ _).isInfix.trans inner
  have marked := (proper_behind ((List.prefix_append _ _).isInfix.trans behind) value).1.1
  rw [← named] at unset
  cases found : o.kind.method? name.lexeme with
  | none =>
    refine .of_ok (.evalExpr w _ _) fun v m₄ run => ?_
    obtain ⟨c, args, m₂, m₃, applies, _⟩ := Event.Applies.of_ok part run
    obtain ⟨m₁, first, _⟩ := applies.ready
    rw [step, getProperty, outcome_bind, outcome_store] at first
    simp only [unset, found] at first
    cases first
  | some i =>
    rw [outcome_getProperty_method unset found] at step
    have binds : Event.Binds (initial.eventsAll history) i.decl (m'.store.bind i o).1.scope o := by
      have own := ((List.suffix_cons _ _).trans (List.suffix_append _ _)).isInfix.trans behind
      simp only [Event.ofProperty, unset, found] at own
      exact own
    have initializer : i.isInitializer := Class.Marked.initializer marked (named ▸ found)
    exact call_gives (f := (m'.store.bind i o).1) initializer binds part step

private theorem super_call_gives {id : ExprId} {keyword name : Token}
    (named : name.lexeme = initializerName)
    (part : Event.ofExpr w (bound + 2) (.call (.super id keyword name) paren arguments) m <:+:
      initial.eventsAll history) {inner : Nat} (distance : w.distances[id]? = some (inner + 1))
    {o : Object} (this : m.store.getAt? m.scope inner "this" = some (.object o)) :
    FailsOrGives
      ((evalExpr w (bound + 2) (.call (.super id keyword name) paren arguments)).outcome m).1 o := by
  refine .of_ok (.evalExpr w _ _) fun v m₄ run => ?_
  obtain ⟨c, args, m₂, m₃, applies, _⟩ := Event.Applies.of_ok part run
  obtain ⟨m₁, first, _⟩ := applies.ready
  rw [evalExpr] at first
  obtain ⟨k, i, above, found⟩ := superMethod_ok distance this first
  have inner := Event.callee_part.trans part
  have marked : k.Marked :=
    Invariant.Stored.getAt? (I := Invariant.proper _) (proper_before inner) above
  have initializer : i.isInitializer := Class.Marked.initializer marked (named ▸ found)
  have step : (evalExpr w (bound + 1) (.super id keyword name)).outcome m =
      (.ok (.callable (.function (m.store.bind i o).1)),
        { m with store := (m.store.bind i o).2 }) := by
    rw [evalExpr, outcome_superMethod distance above this, found]
  have binds : Event.Binds (initial.eventsAll history) i.decl (m.store.bind i o).1.scope o := by
    rw [Event.ofExpr] at inner
    simp only [Event.ofSuper, distance, above, this, found] at inner
    exact (List.suffix_cons _ _).isInfix.trans inner
  exact (call_gives (f := (m.store.bind i o).1) initializer binds part step).eq_of_ok
    (congrArg Prod.fst run)

private theorem class_call_gives {k : Class}
    (part : Event.ofExpr w (bound + 1) (.call callee paren arguments) m <:+:
      initial.eventsAll history)
    (value : (evalExpr w bound callee).outcome m = (.ok (.callable (.ofClass k)), m')) :
    (∃ f, ((evalExpr w (bound + 1) (.call callee paren arguments)).outcome m).1 =
        .error (.failure f)) ∨
      ∃ args m₂ m₃, (evalExprs w bound arguments).outcome m' = (.ok args, m₂) ∧
        (evalExpr w (bound + 1) (.call callee paren arguments)).outcome m =
          (.ok (.object (m₂.store.newObject k).1), m₃) ∧
        m.store.Grows m₂.store ∧ m₃.store.Has (m₂.store.newObject k).1 := by
  have stays := Unreturned.evalExpr w (bound + 1) (.call callee paren arguments) m
  rcases run : (evalExpr w (bound + 1) (.call callee paren arguments)).outcome m
    with ⟨(f | v) | v, m₄⟩
  · exact .inl ⟨f, rfl⟩
  · exact absurd (congrArg Prod.fst run) (stays v)
  · obtain ⟨c, args, m₂, m₃, applies, applied, same⟩ := Event.Applies.of_ok part run
    obtain ⟨m₁, first, second⟩ := applies.ready
    obtain ⟨result, rfl⟩ := Prod.mk.inj (value.symm.trans first)
    obtain rfl := Value.callable.inj (Except.ok.inj result)
    obtain ⟨proper, all, stored, grows⟩ := applies.proper
    have ends := (((Invariant.proper_kept (initial.eventsAll history) w).all bound).apply []
      { m₂ with depth := m₂.depth + 1 } (c := .ofClass k) proper all stored applies.applied).ends
    rw [applied] at ends
    obtain rfl := applyCallable_ok applied
    exact .inr ⟨args, m₂, m₄, second, rfl, grows, same ▸ And.right ends⟩

end Session

end

/-- Whatever a program gets hold of in a session, an initializer among it was bound to an object: the
frame of its scope was made for that and holds the object, and an object among it has been made.
Every call that comes about of an initializer, of a function that a program gets hold of or to set up
a new object, fails or gives the one object to which it is bound, however its body ends.  So does a
call of the initializer that is taken as a property of an object, with this object, and a call of the
one of the superclass, with the object that is `this`.  A call of a class fails or gives an object of
just this class, which is none of those that were there when its arguments had been evaluated, nor of
those that were there at any event before. -/
theorem initializers_give_their_object (history : List Request) :
    let events := Session.initial.eventsAll history
    (∀ v m, Session.Obtained history v m →
      (∀ f, v = .callable (.function f) → f.isInitializer →
        ∃ o, Event.Binds events f.decl f.scope o ∧ m.HoldsReceiver f.scope o) ∧
      ∀ o, v = .object o → m.Has o) ∧
    (∀ f out, Event.CallOf events f out → f.isInitializer →
      (∃ o, Event.Binds events f.decl f.scope o) ∧
        ∀ o, Event.Binds events f.decl f.scope o → FailsOrGives out o) ∧
    (∀ w bound object name paren arguments m m' o,
      Event.ofExpr w (bound + 2) (.call (.get object name) paren arguments) m <:+: events →
      name.lexeme = initializerName → (evalExpr w bound object).outcome m = (.ok (.object o), m') →
      m'.store.field? o initializerName = none →
      FailsOrGives
        ((evalExpr w (bound + 2) (.call (.get object name) paren arguments)).outcome m).1 o) ∧
    (∀ w bound id keyword name paren arguments m inner o,
      Event.ofExpr w (bound + 2) (.call (.super id keyword name) paren arguments) m <:+: events →
      name.lexeme = initializerName → w.distances[id]? = some (inner + 1) →
      m.store.getAt? m.scope inner "this" = some (.object o) →
      FailsOrGives
        ((evalExpr w (bound + 2) (.call (.super id keyword name) paren arguments)).outcome m).1 o) ∧
    ∀ before after w bound callee paren arguments m m₁ k,
      events = before ++ Event.ofExpr w (bound + 1) (.call callee paren arguments) m ++ after →
      (evalExpr w bound callee).outcome m = (.ok (.callable (.ofClass k)), m₁) →
      (∃ f, ((evalExpr w (bound + 1) (.call callee paren arguments)).outcome m).1 =
          .error (.failure f)) ∨
        ∃ o args m₂ m₃, o.kind = k ∧ (evalExprs w bound arguments).outcome m₁ = (.ok args, m₂) ∧
          (evalExpr w (bound + 1) (.call callee paren arguments)).outcome m =
            (.ok (.object o), m₃) ∧
          m₃.store.Has o ∧
          ∀ o', (m₂.store.Has o' ∨
            ∃ ev ∈ before, ∃ m₀, ev.machine? = some m₀ ∧ m₀.store.Has o') → o'.id ≠ o.id := by
  intro events
  refine ⟨fun v m obtained => ⟨?_, ?_⟩, fun f out call marked => ?_, ?_, ?_, ?_⟩
  · rintro f rfl marked
    exact obtained.holdsReceiver marked
  · rintro o rfl
    exact obtained.proper.2
  · obtain ⟨o, binds, gives⟩ := Session.callOf_gives call marked
    exact ⟨⟨o, binds⟩, fun o' binds' => Session.binds_unique binds binds' ▸ gives⟩
  · intro w bound object name paren arguments m m' o part named value unset
    exact Session.property_call_gives named part value unset
  · intro w bound id keyword name paren arguments m inner o part named distance this
    exact Session.super_call_gives named part distance this
  · intro before after w bound callee paren arguments m m₁ k split value
    have part : Event.ofExpr w (bound + 1) (.call callee paren arguments) m <:+: events :=
      ⟨before, after, split.symm⟩
    rcases Session.class_call_gives part value with
      fails | ⟨args, m₂, m₃, evaluated, gives, grows, made⟩
    · exact .inl fails
    · refine .inr ⟨_, args, m₂, m₃, rfl, evaluated, gives, made, fun o' there => ?_⟩
      have old : m₂.store.Has o' := by
        rcases there with there | ⟨ev, event, m₀, state, there⟩
        · exact there
        · exact grows.has ((Session.grows_before split event state).has there)
      exact Nat.ne_of_lt old

def Expr.callsInitializer (w : Surroundings) (bound : Nat) (m : Machine) : Expr → Bool
  | .call callee _ _ =>
    match ((evalExpr w bound callee).outcome m).1 with
    | .ok (.callable (.function f)) => f.isInitializer
    | _ => false
  | _ => false

private theorem Expr.callsInitializer_eq {w : Surroundings} {bound : Nat} {m : Machine} {e : Expr}
    (h : e.callsInitializer w bound m) : ∃ callee paren arguments f m₁,
      e = .call callee paren arguments ∧
        (evalExpr w bound callee).outcome m = (.ok (.callable (.function f)), m₁) ∧
        f.isInitializer := by
  cases e with
  | call callee paren arguments =>
    rw [callsInitializer] at h
    split at h
    · rename_i f value
      exact ⟨callee, paren, arguments, f, _, rfl, Prod.ext value rfl, h⟩
    · cases h
  | _ => cases h

def givesObject (id : ObjectId) : Except Interrupt Value → Bool
  | .ok (.object o) => o.id = id
  | _ => false

namespace Session

theorem eventsAll_append (s : Session) (rs rs' : List Request) :
    s.eventsAll (rs ++ rs') = s.eventsAll rs ++ (s.performAll rs).eventsAll rs' := by
  induction rs generalizing s with
  | nil => rfl
  | cons r rs ih =>
    rw [List.cons_append, eventsAll, eventsAll, ih, List.append_assoc]
    rfl

private theorem evaluated_part {history : List Request} {s : Session}
    (before : initial.performAll history = s) {config : Config} {source : String} {e : Expr}
    (read : (readExpression s.labels source).result = .ok e) :
    Event.ofExpr (s.interpreter.surroundings config) config.bound e s.interpreter.machine <:+:
      initial.eventsAll (history ++ [⟨config, .evaluate source⟩]) := by
  have own : s.eventsAll [⟨config, .evaluate source⟩] =
      Event.ofExpr (s.interpreter.surroundings config) config.bound e s.interpreter.machine := by
    simp only [eventsAll, events, executed?, evaluated?, read, Except.toOption, List.append_nil]
  rw [eventsAll_append, before, own]
  exact (List.suffix_append _ _).isInfix

end Session

/-- An initializer that returns from within a loop is taken of an object and put into a variable.
When it is called from there, in a later operation, it gives the object of which it was taken. -/
theorem initializer_in_variable_gives_its_object :
    let config : Config := ⟨none, .working, fun _ => 0, 100⟩
    let declared := "class A \x7b init() \x7b while (true) return; \x7d \x7d var f = A().init;"
    let before : List Request := [⟨config, .run declared⟩]
    let events := Session.initial.eventsAll (before ++ [⟨config, .evaluate "f()"⟩])
    let s := Session.initial.performAll before
    ∃ e, ∃ f : Closure, ∃ o, (readExpression s.labels "f()").result = .ok e ∧
      f.isInitializer ∧ Event.Binds events f.decl f.scope o ∧ o.id = 0 ∧
      ((evalExpr (s.interpreter.surroundings config) 100 e).outcome s.interpreter.machine).1 =
        .ok (.object o) := by
  intro config declared before events s
  have checked : (readExpression s.labels "f()").result.toOption.any fun e =>
      e.callsInitializer (s.interpreter.surroundings config) 99 s.interpreter.machine &&
        givesObject 0 ((evalExpr (s.interpreter.surroundings config) 100 e).outcome
          s.interpreter.machine).1 := by decide +kernel
  obtain ⟨e, some, both⟩ := (Option.any_eq_true _ _).mp checked
  obtain ⟨calls, gives⟩ := (Bool.and_eq_true _ _).mp both
  obtain ⟨callee, paren, arguments, f, m₁, rfl, value, marked⟩ := Expr.callsInitializer_eq calls
  have read : (readExpression s.labels "f()").result = .ok (.call callee paren arguments) := by
    cases result : (readExpression s.labels "f()").result with
    | error error =>
      rw [result] at some
      cases some
    | ok e =>
      rw [result] at some
      exact congrArg Except.ok (Option.some.inj some)
  have part : Event.ofExpr (s.interpreter.surroundings config) (99 + 1)
      (.call callee paren arguments) s.interpreter.machine <:+: events :=
    Session.evaluated_part (s := s) rfl read
  obtain ⟨_, calling, _⟩ :=
    initializers_give_their_object (before ++ [⟨config, .evaluate "f()"⟩])
  obtain ⟨⟨o, binds⟩, all⟩ := calling f _ (.expression part value) marked
  refine ⟨_, f, o, read, marked, binds, ?_⟩
  rcases all o binds with ⟨_, failed⟩ | given
  · rw [failed] at gives
    cases gives
  · rw [given] at gives
    exact ⟨of_decide_eq_true gives, given⟩

end LoxLang
