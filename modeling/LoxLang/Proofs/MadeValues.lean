import LoxLang.Proofs.Initializers

/-!
The values that a program makes.  A function is made by executing its declaration or by binding a
method to an object, a class by executing its declaration, and nothing else makes one.  Every class
has an identity of its own, one more than that of the class before, and the superclass of a class is
one that was made before it.  Each step of an execution keeps this of all that is stored.  So in every
session each function and each class that a program gets hold of was made at an event, and the
classes that are declared have the identities from zero on, in order.
-/

set_option autoImplicit false
set_option relaxedAutoImplicit false

namespace LoxLang

open EvalM Event

namespace Event

/-- A function is made at a place among some events: its declaration is executed there, or a method
is bound to an object. -/
inductive Creates (evs : List Event) (i : Nat) (f : Closure) : Prop where
  | declared {m : Machine} :
    [.declares (.function f.decl) (.callable (.function f)) m] <+: evs.drop i →
    m.scope = f.scope → f.isInitializer = false → Creates evs i f
  | bound {o : Object} : entering (.receiver f.decl) f.scope (receiving o) <+: evs.drop i →
    Creates evs i f

def class? : Event → Option Class
  | declares (.classDecl _ _ _) (.callable (.ofClass k)) _ => some k
  | _ => none

/-- The classes that are declared at some events, in order. -/
def classes (evs : List Event) : List Class := evs.filterMap class?

private theorem classes_append (evs evs' : List Event) :
    classes (evs ++ evs') = classes evs ++ classes evs' :=
  List.filterMap_append

def Counts (n : ClassId) (evs : List Event) (n' : ClassId) : Prop :=
  (classes evs).map (·.own.id) = List.range' n (classes evs).length ∧
    n' = n + (classes evs).length

namespace Counts

variable {n n' n'' : ClassId} {evs evs' : List Event}

private theorem of_none (none : classes evs = []) : Counts n evs n := by
  rw [Counts, none]
  exact ⟨rfl, rfl⟩

private theorem trans (h : Counts n evs n') (h' : Counts n' evs' n'') : Counts n
    (evs ++ evs') n'' := by
  obtain ⟨ids, rfl⟩ := h
  obtain ⟨ids', rfl⟩ := h'
  rw [Counts, classes_append, List.map_append, List.length_append, ids, ids', Nat.add_assoc]
  exact ⟨List.range'_append_1, rfl⟩

private theorem le (h : Counts n evs n') : n ≤ n' := h.2 ▸ Nat.le_add_right _ _

end Counts

end Event

/-- A class that was declared: its declaration was executed, which gave it the next identity.  If it
has a superclass, the superclass expression had just given it, and it was declared before. -/
inductive Class.Declared (evs : List Event) : Class → Prop where
  | base {name : Token} {methods : List FunctionDecl} {id : ClassId} {t : Scope} {m : Machine} :
    .declares (.classDecl name none methods) (.callable (.ofClass ⟨.of id name methods t, []⟩)) m ∈
      evs →
    m.scope = t → m.store.nextClass = id + 1 → Class.Declared evs ⟨.of id name methods t, []⟩
  | derived {w : Surroundings} {bound : Nat} {e : Expr} {name : Token} {methods : List FunctionDecl}
    {t : Scope} {id : ClassId} {superclass : Class} {m m' m'' : Machine} :
    Class.Declared evs superclass → superclass.own.id < id →
    (evalExpr w bound e).outcome m = (.ok (.callable (.ofClass superclass)), m') →
    Event.ofExpr w bound e m ++
      Event.entering (.superclass name methods) t (Event.inheriting superclass) ++
      [.declares (.classDecl name (some e) methods)
        (.callable (.ofClass ⟨.of id name methods t, superclass.chain⟩)) m''] <:+: evs →
    m''.store.nextClass = id + 1 → Class.Declared evs ⟨.of id name methods t, superclass.chain⟩

/-- What is right about a class when some count of classes has been declared. -/
structure Class.Made (T : TreeProperty) (evs : List Event) (n : ClassId) (k : Class) : Prop where
  declared : k.Declared evs
  earlier : k.own.id < n
  methods : k.Methods (T.decl ·.decl)

def Value.Made (T : TreeProperty) (evs : List Event) (n : ClassId) : Value → Prop
  | .callable (.function f) => (∃ i, Event.Creates evs i f) ∧ T.decl f.decl
  | .callable (.ofClass k) => k.Made T evs n
  | .object o => o.kind.Made T evs n
  | _ => True

def Store.Made (T : TreeProperty) (evs : List Event) (m : Store) : Prop :=
  ∀ v, m.Keeps v → v.Made T evs m.nextClass

def Event.Made (T : TreeProperty) (evs : List Event) : Event → Prop
  | .evaluated _ e m => m.store.Made T evs ∧ T.expr e
  | .opened o _ => T.stmts o.body
  | .assigns _ _ v m => m.store.Made T evs ∧ v.Made T evs m.store.nextClass
  | .declares s v m => m.store.Made T evs ∧ v.Made T evs m.store.nextClass ∧
      ∀ decl, s = .function decl → v = .callable (.function ⟨decl, m.scope, false⟩)
  | _ => True

section

variable {T : TreeProperty} {evs : List Event} {n n' : ClassId} {m m' : Store}

private theorem Class.Made.mono {k : Class} (h : k.Made T evs n) (le : n ≤ n') : k.Made T evs n' :=
  { h with earlier := Nat.lt_of_lt_of_le h.earlier le }

private theorem Value.Made.mono {v : Value} (h : v.Made T evs n) (le : n ≤ n') : v.Made T evs n' :=
  by
  cases v with
  | callable c =>
    cases c with
    | ofClass k => exact Class.Made.mono h le
    | function f => exact h
    | native f => trivial
  | object o => exact Class.Made.mono h le
  | _ => trivial

private theorem Value.IsConstant.made {v : Value} (h : v.IsConstant) : v.Made T evs n := by
  cases v with
  | callable c => cases h
  | object o => cases h
  | _ => trivial

private theorem Event.Made.stored {ev : Event} (h : ev.Made T evs) {machine : Machine}
    (state : ev.machine? = some machine) : machine.store.Made T evs := by
  unfold Event.machine? at state
  split at state
  case h_4 => cases state
  all_goals
    obtain rfl := Option.some.inj state
    exact h.1

private theorem Event.infix_place {own : List Event} (part : own <:+: evs) : ∃ i, own <+:
    evs.drop i := by
  obtain ⟨before, after, rfl⟩ := part
  refine ⟨before.length, ?_⟩
  rw [List.append_assoc, List.drop_left]
  exact List.prefix_append _ _
end

/-! Executions. -/

structure Event.Making (T : TreeProperty) (evs : List Event) (n : ClassId) (own : List Event)
    (n' : ClassId) : Prop where
  events : ∀ ev ∈ own, ev.Made T evs
  counts : Counts n own n'

namespace Event.Making

variable {T : TreeProperty} {evs own own' : List Event} {n n₁ n' : ClassId}

private theorem nothing : Making T evs n [] n := ⟨List.forall_mem_nil _, .of_none rfl⟩

private theorem single {ev : Event} (made : ev.Made T evs) (none : ev.class? = none) :
    Making T evs n [ev] n :=
  ⟨List.forall_mem_singleton.mpr made, .of_none (List.filterMap_cons_none none)⟩

private theorem trans (h : Making T evs n own n₁) (h' : Making T evs n₁ own' n') :
    Making T evs n (own ++ own') n' where
  events := List.forall_mem_append.mpr ⟨h.events, h'.events⟩
  counts := h.counts.trans h'.counts

private theorem entering {o : Origin} {t : Scope} {b : Bindings} (text : T.stmts o.body) :
    Making T evs n (entering o t b) n := by
  have opened : Making T evs n [.opened o t] n := single text rfl
  exact opened.trans (single trivial rfl)

end Event.Making

def Invariant.making (T : TreeProperty) (evs : List Event) : Invariant where
  tree := T
  value m v := v.Made T evs m.nextClass
  event own := own <:+: evs
  path _ m own m' := Making T evs m.store.nextClass own m'.store.nextClass
  failure _ := True

section

variable {T : TreeProperty} {evs : List Event} {w : Surroundings}

private theorem Invariant.Naming.declared {name : Token} {methods : List FunctionDecl}
    {clause : Option Expr} {superclass : Option Class} {scope : Scope} {m : Machine}
    (h : (making T evs).Naming w name methods clause superclass scope m)
    (above : ∀ k ∈ superclass, k.Made T evs m.store.nextClass) :
    (Class.below (.of m.store.nextClass name methods scope) superclass).Declared evs := by
  cases h with
  | root known =>
    have event : .declares (.classDecl name none methods)
        (.callable (.ofClass ⟨.of m.store.nextClass name methods m.scope, []⟩))
        { m with store := m.store.newClass.2 } ∈ evs := known.subset (List.mem_singleton_self _)
    exact .base event rfl rfl
  | below value known =>
    rw [ofClass_some, ofClassIn_eq, ← List.append_assoc] at known
    have made := above _ rfl
    exact .derived made.declared made.earlier value known rfl

private theorem Invariant.Naming.made {name : Token} {methods : List FunctionDecl}
    {clause : Option Expr} {superclass : Option Class} {scope : Scope} {m : Machine}
    (h : (making T evs).Naming w name methods clause superclass scope m)
    (above : ∀ k ∈ superclass, k.Made T evs m.store.nextClass) (text : ∀ d ∈ methods, T.decl d) :
    (Class.below (.of m.store.nextClass name methods scope) superclass).Made T evs
      (m.store.nextClass + 1) := by
  refine ⟨h.declared above, ?_, .below (fun k same => (above k same).methods) text⟩
  cases superclass <;> exact Nat.lt_succ_self _

private theorem Invariant.making_kept (T : TreeProperty) (evs : List Event) (w : Surroundings) :
    (making T evs).Kept w where
  left _ _ part := (List.prefix_append _ _).isInfix.trans part
  right _ _ part := (List.suffix_append _ _).isInfix.trans part
  still {_ m _} store _ _ _ := show Making T evs m.store.nextClass [] _ from store ▸ .nothing
  trans := .trans
  mono h _ := h
  within h h' _ _ := h.trans h'
  calls {_ m paren _ _} _ h := by
    have begins : Making T evs m.store.nextClass [.begins paren { m with depth := m.depth + 1 }] _ :=
      .single trivial rfl
    exact begins.trans (h.trans (.single trivial rfl))
  later h v := v.mono h.counts.le
  constant := Value.IsConstant.made
  kind := id
  closure h := h.2
  method h found := (Class.Made.methods h).method found |>.1
  toFailures := .any fun _ => trivial
  function text known := by
    obtain ⟨i, place⟩ := infix_place known
    exact ⟨⟨i, .declared place rfl rfl⟩, text⟩
  evaluated stored text := .single ⟨stored, text⟩ rfl
  takes _ _ := .single trivial rfl
  prints _ _ := .single trivial rfl
  misses stored given _ := .single ⟨stored, given⟩ rfl
  assigns stored given _ := .single ⟨stored, given⟩ rfl
  declares stored given declaration _ := by
    cases declaration with
    | var name initializer v m => exact .single ⟨stored, given, nofun⟩ rfl
    | function decl m =>
      refine .single ⟨stored, given, fun decl' same => ?_⟩ rfl
      rw [Stmt.function.inj same]
  sets _ _ _ := .single trivial rfl
  enters _ _ text _ := .entering text
  newObject _ made := ⟨.nothing, made⟩
  binds _ _ text _ known := by
    obtain ⟨i, place⟩ := infix_place known
    exact ⟨.entering T.nil, ⟨i, .bound place⟩, text⟩
  inherits _ _ _ _ := .entering T.nil
  names {_ m name clause superclass methods scope} stored above text _ naming := by
    have made := naming.made above text
    have fresh : m.store.newClass.2.Made T evs := fun v keeps =>
      (stored v keeps).mono (Nat.le_succ m.store.nextClass)
    refine ⟨⟨List.forall_mem_singleton.mpr ⟨fresh, made, nofun⟩, ?_, rfl⟩, made⟩
    cases superclass <;> rfl

end

/-! Sessions. -/

namespace Session

theorem reads_distinct (s : Session) (r : Request) : s.Reads .distinct r := by
  refine ⟨fun program taken => ?_, fun _ _ => trivial⟩
  obtain ⟨_, _, read, _⟩ := executed?_eq taken
  exact (readProgram_numbered read).nodup

variable (T : TreeProperty) (text : ∀ s r, Reads T s r)

include text

theorem making (history : List Request) :
    Making T (initial.eventsAll history) initial.interpreter.machine.store.nextClass
        (initial.eventsAll history) (initial.performAll history).interpreter.machine.store.nextClass ∧
      (initial.performAll history).interpreter.machine.store.Made T (initial.eventsAll history) := by
  have kept := performAll_kept (Invariant.making_kept T (initial.eventsAll history)) rfl
    (fun _ keeps => Store.eq_of_keeps_initial keeps ▸ trivial) text (List.infix_refl _)
  obtain ⟨_, path⟩ := kept.path
  exact ⟨path, kept.stored⟩

theorem all_made (history : List Request) :
    ∀ ev ∈ initial.eventsAll history, ev.Made T (initial.eventsAll history) :=
  (making T text history).1.events

variable {T}

/-- What a program gets hold of has been made, while some count of classes has been declared. -/
theorem Obtained.made {history : List Request} {v : Value} {m : Store}
    (h : Obtained history v m) : v.Made T (initial.eventsAll history) m.nextClass := by
  have all := all_made T text history
  cases h with
  | @kept ev m _ event state keeps =>
    exact (all ev event).stored state v keeps
  | left keeps => exact (making T text history).2 v keeps
  | @given w bound e m m' _ part run =>
    obtain ⟨b, rfl⟩ := evalExpr_ok run
    have made : (Event.evaluated w.distances e m).Made T (initial.eventsAll history) := by
      refine all _ (part.subset ?_)
      rw [Event.ofExpr]
      exact List.mem_cons_self
    have ends := (((Invariant.making_kept T (initial.eventsAll history) w).all (b + 1)).expr [] m
      made.2 made.1 part).ends
    rw [run] at ends
    exact ends

end Session

end LoxLang
