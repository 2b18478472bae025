import LoxLang.Proofs.UntouchedFrames

/-!
How `super` is dispatched.  The scope of a method of a derived class stands inside of the frame for
its object, and that one inside of the frame for the superclass.  Nothing ever writes these two
frames again, so wherever a `super` is evaluated they hold the object to which the method was bound,
and the class that the superclass expression gave when the class declaration was executed.
-/

set_option autoImplicit false
set_option relaxedAutoImplicit false

namespace LoxLang

open EvalM

/-! Methods on the chain of a class. -/

/-- A method of a class or of one of its superclasses that is the nearest one of its name: the last
in its class body, and there is none in the bodies before. -/
def Class.Nearest (k : Class) (name : String) (f : Closure) : Prop :=
  ∃ front b rest before after, k.chain = front ++ b :: rest ∧ b.methods = before ++ f :: after ∧
    f.name = name ∧ (∀ b' ∈ front, ∀ g ∈ b'.methods, g.name ≠ name) ∧ ∀ g ∈ after, g.name ≠ name

/-- Neither a class nor one of its superclasses has a method of a name. -/
def Class.Lacks (k : Class) (name : String) : Prop :=
  ∀ b ∈ k.chain, ∀ g ∈ b.methods, g.name ≠ name

private theorem ClassBody.method?_eq_none_iff {b : ClassBody} {name : String} :
    b.method? name = none ↔ ∀ g ∈ b.methods, g.name ≠ name := by
  simp [ClassBody.method?]

private theorem ClassBody.method?_eq_some_iff {b : ClassBody} {name : String} {f : Closure} :
    b.method? name = some f ↔ ∃ before after, b.methods = before ++ f :: after ∧ f.name = name ∧
      ∀ g ∈ after, g.name ≠ name := by
  rw [ClassBody.method?, List.find?_eq_some_iff_append]
  constructor
  · rintro ⟨named, front, rest, same, others⟩
    refine ⟨rest.reverse, front.reverse, ?_, beq_iff_eq.mp named, fun g member => ?_⟩
    · simpa using congrArg List.reverse same
    · simpa using others g (List.mem_reverse.mp member)
  · rintro ⟨before, after, same, named, others⟩
    refine ⟨beq_iff_eq.mpr named, after.reverse, before.reverse, by simp [same], fun g member => ?_⟩
    simpa using others g (List.mem_reverse.mp member)

theorem Class.method?_eq_some_iff {k : Class} {name : String} {f : Closure} :
    k.method? name = some f ↔ k.Nearest name f := by
  rw [Class.method?, List.findSome?_eq_some_iff]
  constructor
  · rintro ⟨front, b, rest, same, found, others⟩
    obtain ⟨before, after, own, named, last⟩ := ClassBody.method?_eq_some_iff.mp found
    exact ⟨front, b, rest, before, after, same, own, named,
      fun b' member => ClassBody.method?_eq_none_iff.mp (others b' member), last⟩
  · rintro ⟨front, b, rest, before, after, same, own, named, others, last⟩
    exact ⟨front, b, rest, same, ClassBody.method?_eq_some_iff.mpr ⟨before, after, own, named, last⟩,
      fun b' member => ClassBody.method?_eq_none_iff.mpr (others b' member)⟩

theorem Class.method?_eq_none_iff {k : Class} {name : String} :
    k.method? name = none ↔ k.Lacks name := by
  simp [Class.method?, Class.Lacks, ClassBody.method?_eq_none_iff]

/-! The frames around a method. -/

private theorem Stands.out {V : Known} {inner : StaticStack} {σ : StaticFrame} {Γ : StaticStack}
    {missing : Option String} {s : Scope} (h : Stands V missing (inner ++ σ :: Γ) s) :
    ∃ missing' t, s.ancestor? inner.length = some t ∧ Stands V missing' (σ :: Γ) t := by
  induction inner generalizing missing s with
  | nil => exact ⟨missing, s, rfl, h⟩
  | cons _ inner ih =>
    cases h with
    | @inside _ _ _ f s _ _ outer =>
      obtain ⟨missing', t, out, stands⟩ := ih outer
      refine ⟨missing', t, ?_, stands⟩
      rw [Scope.ancestor?_eq_some_iff] at out ⊢
      exact out

/-- In a scope that stands for the scopes inside of a method, the frame of a call of the method is
just inside of the one for its object, which holds `this`. -/
theorem Stands.inBody {V : Known} {missing : Option String} {Γ inner outer : StaticStack}
    {decl : FunctionDecl} {x : String} {s : Scope} (h : Stands V missing Γ s)
    (inBody : Γ.InBody x inner decl (outer.receiving decl)) :
    ∃ u r t, s.ancestor? inner.length = some u ∧ s.ancestor? (inner.length + 1) = some r ∧
      u.outer = r.frames ∧ r.outer = t.frames ∧ V.opened (.call decl) u ∧
      V.opened (.receiver decl) r ∧ V.holds r.frame "this" ∧ Stands V none outer t := by
  obtain ⟨names, rfl, _⟩ := inBody
  obtain ⟨missing', u, out, stands⟩ := h.out
  cases stands with
  | @inside _ _ _ f r called _ stands =>
  cases stands with
  | @inside _ _ _ g t received this stands =>
  refine ⟨_, _, t, out, ?_, rfl, rfl, called, received, this "this" ?_ ?_, stands⟩
  · rw [Scope.ancestor?_add, out]
    rfl
  all_goals simp

private theorem Stands.inMethod {V : Known} {missing : Option String} {Γ inner outer : StaticStack}
    {decl : FunctionDecl} {name : Token} {methods : List FunctionDecl} {s : Scope}
    (h : Stands V missing Γ s) (inMethod : Γ.InMethod inner decl name methods outer) :
    ∃ u r t, s.ancestor? inner.length = some u ∧ s.ancestor? (inner.length + 1) = some r ∧
      s.ancestor? (inner.length + 2) = some t ∧ V.opened (.call decl) u ∧
      V.opened (.receiver decl) r ∧ V.opened (.superclass name methods) t ∧
      V.holds r.frame "this" ∧ V.holds t.frame "super" := by
  obtain ⟨_, inBody⟩ := StaticStack.inMethod_iff.mp inMethod
  obtain ⟨u, r, t, toCall, toReceiver, _, around, called, received, this, stands⟩ :=
    h.inBody inBody
  cases stands with
  | @inside _ _ _ f t inherited super _ =>
  refine ⟨u, r, _, toCall, toReceiver, ?_, called, received, inherited, this, super "super" ?_ ?_⟩
  · rw [show inner.length + 2 = inner.length + 1 + 1 from rfl, Scope.ancestor?_add, toReceiver,
      Option.bind_some, Scope.ancestor?_eq_some_iff]
    exact around
  all_goals simp

/-- Wherever a `super` of an executed program is evaluated, it stands in a method of a derived class,
perhaps in functions and blocks inside of it, and the present scope leads out to the frame of a call
of that method, to the frame made when the method was bound to an object, and to the frame made when
the class was declared.  The lookup starts at the class that the superclass expression gave right
before that, and goes by nothing else: it yields the nearest method of the name on the chain of that
class, bound to the object to which the method around was bound, or it fails because the property is
undefined. -/
theorem super_dispatched_statically (history : List Request) {D : Distances} {id : ExprId}
    {keyword method : Token} {m : Machine}
    (event : .evaluated D (.super id keyword method) m ∈ Session.initial.eventsAll history)
    {program : List Stmt} (executed : program ∈ Session.initial.executed history) {Γ : StaticStack}
    (met : .met (.super id keyword method) Γ ∈ Walk.program program) :
    ∃ inner decl name superclass methods outer, Γ.InMethod inner decl name methods outer ∧
      ∃ u r t o c, m.scope.ancestor? inner.length = some u ∧
        m.scope.ancestor? (inner.length + 1) = some r ∧
        m.scope.ancestor? (inner.length + 2) = some t ∧
        .opened (.call decl) u ∈ Session.initial.eventsAll history ∧
        Event.Binds (Session.initial.eventsAll history) decl r o ∧
        Event.Inherits (Session.initial.eventsAll history) name superclass methods t c ∧
        ∀ w bound, w.distances = D →
          (∃ f, c.Nearest method.lexeme f ∧
            (evalExpr w (bound + 1) (.super id keyword method)).outcome m =
              (.ok (.callable (.function (m.store.bind f o).1)),
                { m with store := (m.store.bind f o).2 })) ∨
          c.Lacks method.lexeme ∧
            (evalExpr w (bound + 1) (.super id keyword method)).outcome m =
              (.error (.failure (.fault ⟨method.line, .undefinedProperty method.lexeme⟩)), m) := by
  obtain ⟨V, ⟨⟨_, opened, _⟩, situated⟩, _⟩ := Session.Scoped.initial.performAll_situated history
  have told : ∀ o t, V.opened o t ↔ .opened o t ∈ Session.initial.eventsAll history :=
    fun o t => by simpa using opened o t
  obtain ⟨missing, Γ', met', distance, stands⟩ := situated _ event id keyword rfl
  obtain rfl : Γ = Γ' := met_unique (Session.notesAll_numbered .initial history).nodup rfl
    (Session.met_of_executed executed met) met'
  obtain ⟨spelled, inSubclass⟩ := Session.executed_placed executed _ met
  obtain ⟨inner, decl, name, methods, outer, inMethod⟩ := inSubclass id keyword method rfl
  obtain ⟨u, r, t, toCall, toReceiver, toSuperclass, called, received, inherited, this, super⟩ :=
    stands.inMethod inMethod
  obtain ⟨o, binds, _⟩ := Session.opened_told ((told _ _).mp received)
  obtain ⟨superclass, c, inherits⟩ := Session.opened_told ((told _ _).mp inherited)
  have object : m.store.getAt? m.scope (inner.length + 1) "this" = some (.object o) := by
    rw [Store.getAt?, toReceiver, Option.bind_some,
      Session.sealed_local? binds.sealed event rfl (Store.lt_size_of_holds this),
      Event.getElem?_receiving, if_pos rfl]
  have superclassHeld :
      m.store.getAt? m.scope (inner.length + 2) "super" = some (.callable (.ofClass c)) := by
    rw [Store.getAt?, toSuperclass, Option.bind_some,
      Session.sealed_local? inherits.sealed event rfl (Store.lt_size_of_holds super),
      Event.getElem?_inheriting, if_pos rfl]
  refine ⟨inner, decl, name, superclass, methods, outer, inMethod, u, r, t, o, c, toCall, toReceiver,
    toSuperclass, (told _ _).mp called, binds, inherits, fun w bound same => ?_⟩
  have found : w.distances[id]? = some (inner.length + 1 + 1) := by
    have keyword_eq : keyword.lexeme = "super" := spelled
    rw [same, distance, keyword_eq, inMethod.distance?]
  have outcome : (superMethod w.distances id keyword method).outcome m = _ :=
    outcome_superMethod found superclassHeld object
  have step : (evalExpr w (bound + 1) (.super id keyword method)).outcome m =
      (superMethod w.distances id keyword method).outcome m := by
    rw [evalExpr]
  rw [step, outcome]
  cases taken : c.method? method.lexeme with
  | some f => exact .inl ⟨f, Class.method?_eq_some_iff.mp taken, rfl⟩
  | none => exact .inr ⟨Class.method?_eq_none_iff.mp taken, rfl⟩

def Expr.isSuper (id : ExprId) (keyword method : Token) : Expr → Bool
  | .super id' keyword' method' => id' = id && keyword' = keyword && method' = method
  | _ => false

private theorem Expr.isSuper_eq {id : ExprId} {keyword method : Token} {e : Expr}
    (h : e.isSuper id keyword method) : e = .super id keyword method := by
  cases e with
  | super id' keyword' method' =>
    simp only [Expr.isSuper, Bool.and_eq_true, decide_eq_true_eq] at h
    rw [h.1.1, h.1.2, h.2]
  | _ => cases h

def Event.evaluated? : Event → Option Expr
  | .evaluated _ e _ => some e
  | _ => none

def Note.met? : Note → Option Expr
  | .met e _ => some e
  | .fault _ => none

theorem Session.evaluated_and_met {history : List Request} {e : Expr} {wanted : Expr → Bool}
    (only : ∀ e', wanted e' → e' = e)
    (passed : (initial.eventsAll history).any (·.evaluated?.any wanted))
    (present : (initial.executed history).any
      fun program => (Walk.program program).any (·.met?.any wanted)) :
    ∃ D m, .evaluated D e m ∈ initial.eventsAll history ∧
      ∃ program ∈ initial.executed history, ∃ Γ, .met e Γ ∈ Walk.program program := by
  obtain ⟨ev, event, found⟩ := List.any_eq_true.mp passed
  obtain ⟨program, executed, present⟩ := List.any_eq_true.mp present
  obtain ⟨n, met, found'⟩ := List.any_eq_true.mp present
  cases ev with
  | evaluated D e' m =>
    cases n with
    | fault _ => cases found'
    | met e'' Γ =>
      obtain rfl : e' = e := only e' found
      obtain rfl : e'' = e' := only e'' found'
      exact ⟨D, m, event, program, executed, Γ, met⟩
  | _ => cases found

/-- A method is called on an object of a class below its own, in which the name of the method that
it calls by `super` is taken again. -/
theorem inherited_method_calls_above_its_class :
    let config : Config := ⟨none, .working, fun _ => 0, 100⟩
    let classes := "class A \x7b m() \x7b\x7d \x7d class B < A \x7b f() \x7b super.m(); \x7d \x7d "
    let history : List Request :=
      [⟨config, .run (classes ++ "class C < B \x7b m() \x7b\x7d \x7d C().f();")⟩]
    let e : Expr := .super 1 ⟨.superWord, "super", 1⟩ ⟨.identifier, "m", 1⟩
    ∃ D m, .evaluated D e m ∈ Session.initial.eventsAll history ∧
      ∃ program ∈ Session.initial.executed history, ∃ Γ, .met e Γ ∈ Walk.program program ∧
        ∃ inner decl name superclass methods outer, Γ.InMethod inner decl name methods outer ∧
          ∃ r t o c, Event.Binds (Session.initial.eventsAll history) decl r o ∧
            Event.Inherits (Session.initial.eventsAll history) name superclass methods t c := by
  intro config classes history e
  obtain ⟨D, m, event, program, executed, Γ, met⟩ : ∃ D m,
      .evaluated D e m ∈ Session.initial.eventsAll history ∧
      ∃ program ∈ Session.initial.executed history, ∃ Γ, .met e Γ ∈ Walk.program program :=
    Session.evaluated_and_met (fun _ => Expr.isSuper_eq) (by decide +kernel) (by decide +kernel)
  obtain ⟨inner, decl, name, superclass, methods, outer, inMethod, _, r, t, o, c, _, _, _, _,
    binds, inherits, _⟩ := super_dispatched_statically history event executed met
  exact ⟨D, m, event, program, executed, Γ, met, inner, decl, name, superclass, methods, outer,
    inMethod, r, t, o, c, binds, inherits⟩

end LoxLang
