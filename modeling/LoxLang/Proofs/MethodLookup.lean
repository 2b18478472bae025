import LoxLang.Proofs.FieldAccesses
import LoxLang.Proofs.MadeValues

/-!
How methods and fields are looked up.  The chain of a class is fixed when the class is declared: it
goes down in the order of declaration, so it ends, and no class comes twice on it.  A method is
taken from the nearest class on the chain that has one of the name; a property of an object is the
value that the field was last given, and otherwise the method of the name, bound to the object.
-/

set_option autoImplicit false
set_option relaxedAutoImplicit false

namespace LoxLang

open EvalM

/-! The classes that were declared. -/

namespace Class.Declared

variable {evs evs' : List Event} {k k' : Class}

private theorem mem_classes (h : k.Declared evs) : k ∈ Event.classes evs := by
  cases h with
  | base event => exact List.mem_filterMap.mpr ⟨_, event, rfl⟩
  | derived _ _ _ part =>
    have event := part.subset (List.mem_append_right _ (List.mem_singleton_self _))
    exact List.mem_filterMap.mpr ⟨_, event, rfl⟩

private theorem mono (h : k.Declared evs) (more : evs <:+: evs') : k.Declared evs' := by
  induction h with
  | base event scope next => exact .base (more.subset event) scope next
  | derived _ earlier value part next above =>
    exact .derived above earlier value (part.trans more) next

private theorem onChain (h : k.Declared evs) {front rest : List ClassBody} {b : ClassBody}
    (chain : k.chain = front ++ b :: rest) : (⟨b, rest⟩ : Class).Declared evs := by
  induction h generalizing front with
  | base event scope next =>
    cases front with
    | nil =>
      obtain ⟨rfl, rfl⟩ := List.cons.inj chain
      exact .base event scope next
    | cons _ front => exact absurd (List.cons.inj chain).2 (by simp)
  | derived superclass earlier value part next above =>
    cases front with
    | nil =>
      obtain ⟨rfl, rfl⟩ := List.cons.inj chain
      exact .derived superclass earlier value part next
    | cons _ front => exact above (List.cons.inj chain).2

private theorem descending (h : k.Declared evs) : (k.chain.map (·.id)).Pairwise (· > ·) := by
  induction h with
  | base => exact List.pairwise_singleton _ _
  | @derived _ _ _ _ _ _ id superclass _ _ _ _ earlier _ _ _ above =>
    refine List.pairwise_cons.mpr ⟨fun i member => ?_, above⟩
    rcases List.mem_cons.mp member with rfl | member
    · exact earlier
    · exact Nat.lt_trans ((List.pairwise_cons.mp above).1 i member) earlier

end Class.Declared

private theorem Event.Counts.class_unique {n n' : ClassId} {evs : List Event} (h : Counts n evs n')
    {k k' : Class} (declared : k ∈ classes evs) (declared' : k' ∈ classes evs)
    (same : k.own.id = k'.own.id) : k = k' := by
  have distinct : ((classes evs).map (·.own.id)).Nodup := h.1 ▸ List.nodup_range'
  exact List.inj_on_of_nodup_map distinct declared declared' same

private theorem Class.arity_eq (k : Class) :
    (∀ f, k.Nearest initializerName f → k.arity = f.decl.params.length) ∧
      (k.Lacks initializerName → k.arity = 0) := by
  refine ⟨fun f nearest => ?_, fun lacks => ?_⟩
  · rw [arity, method?_eq_some_iff.mpr nearest]
    rfl
  · rw [arity, method?_eq_none_iff.mpr lacks]

/-- The class that a value is, or of which it is an object. -/
def Value.class? : Value → Option Class
  | .callable (.ofClass k) => some k
  | .object o => some o.kind
  | _ => none

private theorem Value.Made.declared {T : TreeProperty} {evs : List Event} {n : ClassId} {v : Value}
    (h : v.Made T evs n) {k : Class} (isClass : v.class? = some k) : k.Declared evs := by
  cases v with
  | callable c =>
    cases c with
    | ofClass k' => exact Option.some.inj isClass ▸ Class.Made.declared h
    | _ => cases isClass
  | object o => exact Option.some.inj isClass ▸ Class.Made.declared h
  | _ => cases isClass

/-! Properties. -/

section

variable {o : Object} {name : Token} {m : Machine}

private theorem EvalM.outcome_getProperty_field {v : Value}
    (field : m.store.field? o name.lexeme = some v) :
    (getProperty (.object o) name).outcome m = (.ok v, m) := by
  rw [getProperty, outcome_bind, outcome_store]
  simp only [field]
  rfl

private theorem EvalM.outcome_getProperty_undefined (unset : m.store.field? o name.lexeme = none)
    (lacks : o.kind.method? name.lexeme = none) :
    (getProperty (.object o) name).outcome m =
      (.error (.failure (.fault ⟨name.line, .undefinedProperty name.lexeme⟩)), m) := by
  rw [getProperty, outcome_bind, outcome_store]
  simp only [unset, lacks]
  rfl

end

namespace Session

variable {history : List Request}

/-- A state that a session comes to by some accesses: a property is about to be taken there, or
everything is over. -/
inductive Reaches (history : List Request) : List Access → Machine → Prop where
  | taking {before after : List Access} {o : Object} {name : Token} {m : Machine} :
    initial.accessesAll history = before ++ .gets o name m :: after → Reaches history before m
  | ended : Reaches history (initial.accessesAll history)
    (initial.performAll history).interpreter.machine

private theorem Reaches.field? {accs : List Access} {m : Machine} (h : Reaches history accs m)
    (o : Object) (x : String) : m.store.field? o x = Access.lastSet? accs o.id x := by
  have told : Accessed initial.interpreter.machine.store accs m.store := by
    have all := accessed history
    cases h with
    | taking split => exact (split ▸ all).before
    | ended => exact all
  rw [told.field?, initial_fields, Option.or_none]

private theorem reaches_property {before after : List Access} {w : Surroundings} {bound : Nat}
    {object : Expr} {name : Token} {o : Object} {m m' : Machine}
    (split : initial.accessesAll history =
      before ++ Access.ofExpr w (bound + 1) (.get object name) m ++ after)
    (value : (evalExpr w bound object).outcome m = (.ok (.object o), m')) :
    Reaches history (before ++ Access.ofExpr w bound object m) m' ∧
      (evalExpr w (bound + 1) (.get object name)).outcome m =
        (getProperty (.object o) name).outcome m' := by
  constructor
  · rw [Access.ofExpr_get value, ← List.append_assoc, List.append_assoc (before ++ _)] at split
    exact .taking split
  · rw [evalExpr, outcome_bind, value]

private theorem class_declared {v : Value} {m : Store} (h : Obtained history v m) {k : Class}
    (isClass : v.class? = some k) : k.Declared (initial.eventsAll history) :=
  (h.made reads_distinct).declared isClass

private theorem class_unique {more : List Request} {k k' : Class}
    (declared : k.Declared (initial.eventsAll history))
    (declared' : k'.Declared (initial.eventsAll (history ++ more)))
    (same : k.own.id = k'.own.id) : k = k' := by
  have earlier : k.Declared (initial.eventsAll (history ++ more)) := by
    refine declared.mono ?_
    rw [eventsAll_append]
    exact (List.prefix_append _ _).isInfix
  exact (making .distinct reads_distinct (history ++ more)).1.counts.class_unique
    earlier.mem_classes declared'.mem_classes same

end Session

/-- Every class that a program gets hold of in a session, or an object of which, was declared by an
event of the session, below the class that its superclass expression had just given.  The chain of a
class that was declared goes down in the order of declaration, and from each of its superclasses on
it is the chain of that one, which was declared as well.  A class with the identity of an earlier
one is that class, with the same chain, whatever the session executes in between.  The method of a
name is the nearest one on the chain, the last of its class body, and there is none just if the
chain has none; a class takes as many arguments as its nearest initializer, or none.  Wherever a
property expression takes a property of an object, and when everything is over, the property is the
value last set in the field of the name; if there is none, it is the nearest method of the name,
bound to the object; and if that is missing too, it is a fault at the name. -/
theorem methods_found_on_fixed_chains (history : List Request) :
    let events := Session.initial.eventsAll history
    (∀ v m k, Session.Obtained history v m → v.class? = some k → k.Declared events) ∧
    (∀ k, k.Declared events → k ∈ Event.classes events ∧
      (k.chain.map (·.id)).Pairwise (· > ·) ∧
      ∀ front b rest, k.chain = front ++ b :: rest → (⟨b, rest⟩ : Class).Declared events) ∧
    (∀ more (k k' : Class), k.Declared events →
      k'.Declared (Session.initial.eventsAll (history ++ more)) → k.own.id = k'.own.id → k = k') ∧
    (∀ (k : Class) name, (∀ f, k.method? name = some f ↔ k.Nearest name f) ∧
      (k.method? name = none ↔ k.Lacks name)) ∧
    (∀ k : Class, (∀ f, k.Nearest initializerName f → k.arity = f.decl.params.length) ∧
      (k.Lacks initializerName → k.arity = 0)) ∧
    (∀ before after w bound object name o m m', Session.initial.accessesAll history =
        before ++ Access.ofExpr w (bound + 1) (.get object name) m ++ after →
      (evalExpr w bound object).outcome m = (.ok (.object o), m') →
      Session.Reaches history (before ++ Access.ofExpr w bound object m) m' ∧
        (evalExpr w (bound + 1) (.get object name)).outcome m =
          (getProperty (.object o) name).outcome m') ∧
    ∀ accs m, Session.Reaches history accs m → ∀ o name,
      (∀ v, Access.LastSets accs o.id name.lexeme v →
        (getProperty (.object o) name).outcome m = (.ok v, m)) ∧
      (Access.Unset accs o.id name.lexeme →
        (∀ f, o.kind.Nearest name.lexeme f → (getProperty (.object o) name).outcome m =
          (.ok (.callable (.function (m.store.bind f o).1)),
            { m with store := (m.store.bind f o).2 })) ∧
        (o.kind.Lacks name.lexeme → (getProperty (.object o) name).outcome m =
          (.error (.failure (.fault ⟨name.line, .undefinedProperty name.lexeme⟩)), m))) := by
  intro events
  refine ⟨fun v m k obtained isClass => Session.class_declared obtained isClass,
    fun k declared => ⟨declared.mem_classes, declared.descending,
      fun front b rest chain => declared.onChain chain⟩,
    fun more k k' declared declared' same => Session.class_unique declared declared' same,
    fun k name => ⟨fun f => Class.method?_eq_some_iff, Class.method?_eq_none_iff⟩,
    Class.arity_eq,
    fun before after w bound object name o m m' split value =>
      Session.reaches_property split value,
    fun accs m reaches o name => ⟨fun v set => ?_, fun unset => ?_⟩⟩
  · have field := reaches.field? o name.lexeme
    rw [Access.lastSet?_eq_some_iff.mpr set] at field
    exact outcome_getProperty_field field
  · have field := reaches.field? o name.lexeme
    rw [Access.lastSet?_eq_none_iff.mpr unset] at field
    refine ⟨fun f nearest => ?_, fun lacks => ?_⟩
    · exact outcome_getProperty_method field (Class.method?_eq_some_iff.mpr nearest)
    · exact outcome_getProperty_undefined field (Class.method?_eq_none_iff.mpr lacks)

def Session.inheritsPast (s : Session) (x y method : String) : Bool :=
  match s.interpreter.machine.store.local? Scope.globals.frame x,
    s.interpreter.machine.store.local? Scope.globals.frame y with
  | some (.object o), some (.callable (.ofClass k)) =>
    o.id == 0 && (o.kind.method? method).isSome && (k.method? method).isNone
  | _, _ => false

/-- An object has the method of its superclass when a class without methods has taken the name of
the superclass, and other fields of the object have been set. -/
theorem method_kept_past_redeclared_superclass :
    let config : Config := ⟨none, .working, fun _ => 0, 100⟩
    let history : List Request :=
      [⟨config, .run "class A \x7b m() \x7b\x7d \x7d class B < A \x7b\x7d var b = B(); b.x = b.m;"⟩,
        ⟨config, .run "class A \x7b\x7d"⟩]
    let m := (Session.initial.performAll history).interpreter.machine
    ∃ o k f, m.store.local? Scope.globals.frame "b" = some (.object o) ∧
      m.store.local? Scope.globals.frame "A" = some (.callable (.ofClass k)) ∧
      o.kind.Declared (Session.initial.eventsAll history) ∧
      k.Declared (Session.initial.eventsAll history) ∧ o.kind.Nearest "m" f ∧ k.Lacks "m" ∧
      (getProperty (.object o) ⟨.identifier, "m", 1⟩).outcome m =
        (.ok (.callable (.function (m.store.bind f o).1)),
          { m with store := (m.store.bind f o).2 }) := by
  intro config history m
  have past : (Session.initial.performAll history).inheritsPast "b" "A" "m" := by decide +kernel
  have unset : (Session.initial.accessesAll history).all fun a => (a.sets? 0 "m").isNone := by
    decide +kernel
  unfold Session.inheritsPast at past
  split at past
  · rename_i o k first second
    simp only [Bool.and_eq_true, beq_iff_eq] at past
    obtain ⟨⟨number, has⟩, lacks⟩ := past
    obtain ⟨f, found⟩ := Option.isSome_iff_exists.mp has
    obtain ⟨classes, _, _, lookup, _, _, property⟩ := methods_found_on_fixed_chains history
    have nearest := ((lookup o.kind "m").1 f).mp found
    have none := (lookup k "m").2.mp (Option.isNone_iff_eq_none.mp lacks)
    have quiet : Access.Unset (Session.initial.accessesAll history) o.id "m" := by
      rw [number]
      exact fun a member => Option.isNone_iff_eq_none.mp (List.all_eq_true.mp unset a member)
    obtain ⟨_, taken⟩ := property _ _ .ended o ⟨.identifier, "m", 1⟩
    exact ⟨o, k, f, first, second, classes _ _ _ (.left (.inl ⟨_, _, first⟩)) rfl,
      classes _ _ _ (.left (.inl ⟨_, _, second⟩)) rfl, nearest, none, (taken quiet).1 f nearest⟩
  · cases past

end LoxLang
