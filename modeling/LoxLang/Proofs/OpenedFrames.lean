import LoxLang.Proofs.SessionInvariants

/-!
What comes about a frame that is made for an object or for a superclass.  The frame for an object is
filled with it by the binding of a method, which is taken as a property of the object, by `super`
where the object is `this`, or to set the object up when it has just been made.  The frame for a
superclass is made by the declaration of a derived class: just before, the superclass expression was
evaluated, and what it gave is what the frame is filled with.
-/

set_option autoImplicit false
set_option relaxedAutoImplicit false

namespace LoxLang

open EvalM Event

namespace Event

/-- The frame of a scope is made for a method that is bound to an object, and filled with that. -/
def Binds (evs : List Event) (method : FunctionDecl) (t : Scope) (o : Object) : Prop :=
  entering (.receiver method) t (receiving o) <:+: evs

/-- How a method comes to be bound to an object: it is taken as a property of the object, or by
`super` where the object is `this`, or the object has just been made and is set up. -/
inductive Obtains (evs : List Event) (method : FunctionDecl) (t : Scope) (o : Object) : Prop where
  | property {w : Surroundings} {bound : Nat} {e : Expr} {name : Token} {f : Closure}
    {m m' : Machine} : (evalExpr w bound e).outcome m = (.ok (.object o), m') →
    m'.store.field? o name.lexeme = none → o.kind.method? name.lexeme = some f →
    f.decl = method →
    ((evalExpr w (bound + 1) (.get e name)).outcome m).1 =
      .ok (.callable (.function { f with scope := t })) →
    ofExpr w (bound + 1) (.get e name) m <:+: evs → Obtains evs method t o
  | super {w : Surroundings} {bound : Nat} {id : ExprId} {keyword name : Token} {inner : Nat}
    {c : Class} {f : Closure} {m : Machine} : w.distances[id]? = some (inner + 1) →
    m.store.getAt? m.scope inner "this" = some (.object o) →
    m.store.getAt? m.scope (inner + 1) "super" = some (.callable (.ofClass c)) →
    c.method? name.lexeme = some f → f.decl = method →
    ((evalExpr w (bound + 1) (.super id keyword name)).outcome m).1 =
      .ok (.callable (.function { f with scope := t })) →
    ofExpr w (bound + 1) (.super id keyword name) m <:+: evs → Obtains evs method t o
  | construction {w : Surroundings} {bound : Nat} {k : Class} {args : List Value} {f : Closure}
    {m : Machine} : (m.store.newObject k).1 = o → k.method? initializerName = some f →
    f.decl = method → ((m.store.newObject k).2.bind f o).1 = { f with scope := t } →
    ofApply w (bound + 1) (.ofClass k) args m <:+: evs → Obtains evs method t o

/-- The frame of a scope is made by executing the declaration of a derived class.  Right before it
is made the superclass expression is evaluated; the frame is filled with the class which that gives,
and the new class, which is below that one, is given its name. -/
def Inherits (evs : List Event) (name : Token) (superclass : Expr) (methods : List FunctionDecl)
    (t : Scope) (c : Class) : Prop :=
  ∃ w bound m m' k m'',
    (evalExpr w bound superclass).outcome m = (.ok (.callable (.ofClass c)), m') ∧
    k.ancestors = c.chain ∧ k.own.methods.map Closure.decl = methods ∧
    ofExpr w bound superclass m ++
      entering (.superclass name methods) t (inheriting c) ++
      [.declares (.classDecl name (some superclass) methods) (.callable (.ofClass k)) m''] <:+: evs

def Told (evs : List Event) (t : Scope) : Origin → Prop
  | .receiver method => ∃ o, Binds evs method t o ∧ Obtains evs method t o
  | .superclass name methods => ∃ e c, Inherits evs name e methods t c
  | .block _ | .call _ => True

private theorem Told.of_isText {evs : List Event} {t : Scope} {o : Origin} (h : o.isText) :
    Told evs t o := by
  cases o with
  | block _ | call _ => trivial
  | receiver _ | superclass _ _ => cases h

private theorem told_entering {evs : List Event} {o : Origin} {t : Scope} {bindings : Bindings}
    (h : Told evs t o) : ∀ o' t', .opened o' t' ∈ entering o t bindings → Told evs t' o' := by
  intro o' t' member
  rcases List.mem_cons.mp member with same | member
  · obtain ⟨rfl, rfl⟩ := Event.opened.inj same
    exact h
  · cases List.mem_singleton.mp member

end Event

def Invariant.telling (evs : List Event) : Invariant where
  tree := .any
  value _ _ := True
  event own := own <:+: evs
  path _ _ own _ := ∀ o t, .opened o t ∈ own → Event.Told evs t o
  failure _ := True

section

variable {evs : List Event} {w : Surroundings}

private theorem Invariant.Binding.obtains {f : Closure} {o : Object} {m : Machine}
    (h : (telling evs).Binding w f o m) :
    Event.Obtains evs f.decl (m.store.bind f o).1.scope o := by
  cases h with
  | property value unset found known =>
    refine .property value unset found rfl ?_ known
    rw [evalExpr, outcome_bind, value]
    exact congrArg Prod.fst (outcome_getProperty_method unset found)
  | super distance superclass receiver found known =>
    refine .super distance receiver superclass found rfl ?_ known
    rw [evalExpr, outcome_superMethod distance superclass receiver, found]
    rfl
  | construction found known => exact .construction rfl found rfl rfl known

private theorem Invariant.telling_kept (evs : List Event) (w : Surroundings) :
    (telling evs).Kept w where
  left _ _ part := (List.prefix_append _ _).isInfix.trans part
  right _ _ part := (List.suffix_append _ _).isInfix.trans part
  still _ _ _ _ := nofun
  trans h h' o t member := (List.mem_append.mp member).elim (h o t) (h' o t)
  mono h _ := h
  within h h' _ _ o t member := (List.mem_append.mp member).elim (h o t) (h' o t)
  calls _ h o t member := by
    rcases List.mem_cons.mp member with first | member
    · cases first
    · rcases List.mem_append.mp member with inner | last
      · exact h o t inner
      · cases List.mem_singleton.mp last
  later _ _ := trivial
  toValues := .any (fun _ _ => trivial) fun _ => trivial
  toFailures := .any fun _ => trivial
  function _ _ := trivial
  evaluated _ _ _ _ member := by cases List.mem_singleton.mp member
  takes _ _ _ _ member := by cases List.mem_singleton.mp member
  prints _ _ _ _ member := by cases List.mem_singleton.mp member
  misses _ _ _ _ _ member := by cases List.mem_singleton.mp member
  assigns _ _ _ _ _ member := by cases List.mem_singleton.mp member
  declares _ _ _ _ _ _ member := by cases List.mem_singleton.mp member
  sets _ _ _ _ _ member := by cases List.mem_singleton.mp member
  enters _ isText _ _ := Event.told_entering (.of_isText isText)
  newObject _ _ := ⟨nofun, trivial⟩
  binds _ _ _ binding known := ⟨Event.told_entering ⟨_, known, binding.obtains⟩, trivial⟩
  inherits {own bound e before m name c methods} _ _ value known := by
    rw [ofClass_some, ← List.append_assoc, ofClassIn_eq] at known
    have inherits : Event.Inherits evs name e methods
        (m.store.newScope (inheriting c) (some m.scope)).1 c :=
      ⟨w, bound, before, m, _, _, value, rfl,
        by simp [Class.below, ClassBody.of, Function.comp_def], known⟩
    have told : Event.Told evs _ (.superclass name methods) := ⟨e, c, inherits⟩
    exact Event.told_entering told
  names _ _ _ _ _ := ⟨fun _ _ member => (by cases List.mem_singleton.mp member), trivial⟩

end

/-- In every session it is told what comes about each frame that is made. -/
theorem Session.opened_told {history : List Request} {o : Origin} {t : Scope}
    (entered : .opened o t ∈ initial.eventsAll history) :
    Event.Told (initial.eventsAll history) t o := by
  obtain ⟨_, path⟩ := (performAll_kept (Invariant.telling_kept _) rfl (fun _ _ => trivial) reads_any
    (List.infix_refl (initial.eventsAll history))).path
  exact path o t entered

end LoxLang
