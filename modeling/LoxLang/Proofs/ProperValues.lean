import LoxLang.Proofs.OpenedFrames

/-!
What is right about every value that a program gets hold of.  A function that is marked as an
initializer was bound to an object, a class marks the methods that have the name of an initializer,
and an object has been made.  Methods that are not bound are there only in classes.  Each step of an
execution keeps this of all variables and fields, in whatever states it passes, and only adds frames
and objects.
-/

set_option autoImplicit false
set_option relaxedAutoImplicit false

namespace LoxLang

open EvalM Event

/-! Classes and what is stored. -/

def Class.Marked (k : Class) : Prop :=
  k.Methods fun f => f.name = initializerName → f.isInitializer

theorem Class.Marked.initializer {k : Class} (h : k.Marked) {f : Closure}
    (found : k.method? initializerName = some f) : f.isInitializer :=
  (Class.Methods.method h found).1 (Class.Methods.method h found).2

/-! Proper values. -/

def Value.Proper (evs : List Event) (m : Store) : Value → Prop
  | .callable (.function f) =>
    f.isInitializer → (∃ o, Event.Binds evs f.decl f.scope o) ∧ f.scope.frame < m.frames.size
  | .callable (.ofClass k) => k.Marked
  | .object o => o.kind.Marked ∧ m.Has o
  | _ => True

def Store.Proper (evs : List Event) (m : Store) : Prop := ∀ v, m.Keeps v → v.Proper evs m

section

variable {evs : List Event} {m m' : Store}

theorem Value.Proper.mono {v : Value} (h : v.Proper evs m) (grows : m.Grows m') :
    v.Proper evs m' := by
  cases v with
  | callable c =>
    cases c with
    | function f =>
      intro marked
      obtain ⟨binds, made⟩ := h marked
      exact ⟨binds, Nat.lt_of_lt_of_le made grows.frames⟩
    | ofClass k => exact h
    | native f => trivial
  | object o => exact ⟨h.1, grows.has h.2⟩
  | _ => trivial

private theorem Value.IsConstant.proper {v : Value} (h : v.IsConstant) : v.Proper evs m := by
  cases v with
  | callable c => cases h
  | object o => cases h
  | _ => trivial

private theorem Value.Proper.plain (decl : FunctionDecl) (scope : Scope) :
    (Value.callable (.function ⟨decl, scope, false⟩)).Proper evs m := by
  intro marked
  cases marked

private theorem Value.Proper.bound {method : Closure} {o : Object} {machine : Machine}
    (told : Event.ofBind method o machine <:+: evs) :
    (Value.callable (.function (machine.store.bind method o).1)).Proper evs
      (machine.store.bind method o).2 := by
  intro _
  refine ⟨⟨o, told⟩, ?_⟩
  exact Nat.lt_of_lt_of_le (Nat.lt_succ_self _)
    (Nat.le_of_eq (Store.size_newScope machine.store _ (some method.scope)).symm)

end

/-! Executions. -/

def Event.Passes (evs : List Event) : Store → List Event → Store → Prop
  | m, [], m' => m.Grows m'
  | m, ev :: own, m' =>
    match ev.machine? with
    | none => Passes evs m own m'
    | some m₁ => m.Grows m₁.store ∧ m₁.store.Proper evs ∧ Passes evs m₁.store own m'

namespace Event.Passes

variable {evs own own' : List Event} {m m₀ m₁ m' : Store}

private theorem grown (h : Passes evs m own m') (grows : m₀.Grows m) : Passes evs m₀ own m' := by
  induction own with
  | nil => exact grows.trans h
  | cons ev own ih =>
    unfold Passes at h ⊢
    split at h
    · exact ih h
    · exact ⟨grows.trans h.1, h.2⟩

theorem trans (h : Passes evs m own m₁) (h' : Passes evs m₁ own' m') :
    Passes evs m (own ++ own') m' := by
  induction own generalizing m with
  | nil => exact h'.grown h
  | cons ev own ih =>
    rw [List.cons_append]
    unfold Passes at h ⊢
    split at h
    · exact ih h
    · exact ⟨h.1, h.2.1, ih h.2.2⟩

theorem grows (h : Passes evs m own m') : m.Grows m' := by
  induction own generalizing m with
  | nil => exact h
  | cons ev own ih =>
    unfold Passes at h
    split at h
    · exact ih h
    · exact h.1.trans (ih h.2.2)

/-- What comes before some event, and what comes behind. -/
theorem split {ev : Event} {machine : Machine} (state : ev.machine? = some machine)
    (h : Passes evs m (own ++ ev :: own') m') :
    Passes evs m own machine.store ∧ machine.store.Proper evs ∧
      Passes evs machine.store own' m' := by
  induction own generalizing m with
  | nil =>
    rw [List.nil_append, Passes, state] at h
    exact h
  | cons first own ih =>
    rw [List.cons_append, Passes] at h
    rw [Passes]
    split at h
    · exact ih h
    · obtain ⟨before, rest⟩ := ih h.2.2
      exact ⟨⟨h.1, h.2.1, before⟩, rest⟩

theorem mem (h : Passes evs m own m') {ev : Event} (event : ev ∈ own) {machine : Machine}
    (state : ev.machine? = some machine) :
    machine.store.Proper evs ∧ machine.store.Grows m' := by
  obtain ⟨before, after, rfl⟩ := List.append_of_mem event
  obtain ⟨_, proper, behind⟩ := h.split state
  exact ⟨proper, behind.grows⟩

end Event.Passes

def Invariant.proper (evs : List Event) : Invariant where
  tree := .any
  value m v := v.Proper evs m
  event own := own <:+: evs
  path _ m own m' := Passes evs m.store own m'.store
  failure _ := True

section

variable {evs : List Event} {m : Machine} {ev : Event}

private theorem Event.Passes.single {before behind : Store} (state : ev.machine? = some m)
    (stored : m.store.Proper evs) (grows : before.Grows m.store) (grows' : m.store.Grows behind) :
    Passes evs before [ev] behind := by
  rw [Passes, state]
  exact ⟨grows, stored, grows'⟩

theorem Invariant.proper_kept (evs : List Event) (w : Surroundings) : (proper evs).Kept w where
  left _ _ part := (List.prefix_append _ _).isInfix.trans part
  right _ _ part := (List.suffix_append _ _).isInfix.trans part
  still {_ m _} store _ _ _ := show m.store.Grows _ from store ▸ .refl _
  trans := .trans
  mono h _ := h
  within h h' _ _ := h.trans h'
  calls {_ _ _ _ m'} _ h := h.trans (Store.Grows.refl m'.store)
  later h v := v.mono h.grows
  constant := Value.IsConstant.proper
  kind h := h.1
  closure _ := trivial
  method _ _ := trivial
  toFailures := .any fun _ => trivial
  function {decl m} _ _ := Value.Proper.plain decl m.scope
  evaluated stored _ := show Passes .. from .single rfl stored (.refl _) (.refl _)
  takes {_ m _ _} _ _ := Store.Grows.refl m.store
  prints {_ m _ _} _ _ := Store.Grows.refl m.store
  misses stored _ _ := show Passes .. from .single rfl stored (.refl _) (.refl _)
  assigns stored _ _ := show Passes .. from
    .single rfl stored (.refl _) (Store.grows_setLocal ..)
  declares stored _ _ _ := show Passes .. from
    .single rfl stored (.refl _) (Store.grows_setLocal ..)
  sets {_ m o name v} _ _ _ := m.store.grows_setField o name.lexeme v
  enters {_ m _ b s} _ _ _ _ := m.store.grows_newScope b (some s)
  newObject {_ m k} _ marked := by
    refine ⟨m.store.grows_newObject k, marked, ?_⟩
    rw [Store.Has, Store.size_newObject]
    exact Nat.lt_succ_self _
  binds {_ m f o} _ _ _ _ known := ⟨m.store.grows_newScope (receiving o) (some f.scope), .bound known⟩
  inherits {_ _ _ _ m _ c _} _ _ _ _ := m.store.grows_newScope (inheriting c) (some m.scope)
  names {_ m name _ _ methods scope} stored above _ _ _ := by
    have fresh : m.store.Grows m.store.newClass.2 := ⟨Nat.le_refl _, Nat.le_refl _⟩
    have stored' : m.store.newClass.2.Proper evs := fun v keeps => (stored v keeps).mono fresh
    refine ⟨show Passes .. from .single rfl stored' fresh (Store.grows_setLocal ..), ?_⟩
    exact Class.Methods.below above fun d _ named => decide_eq_true named

end

namespace Session

private theorem initial_proper {evs : List Event} : initial.interpreter.machine.store.Proper evs :=
  fun _ keeps => Store.eq_of_keeps_initial keeps ▸ trivial

theorem passes (history : List Request) :
    Event.Passes (initial.eventsAll history) initial.interpreter.machine.store
        (initial.eventsAll history) (initial.performAll history).interpreter.machine.store ∧
      (initial.performAll history).interpreter.machine.store.Proper (initial.eventsAll history) := by
  have kept := performAll_kept (Invariant.proper_kept (initial.eventsAll history)) rfl
    initial_proper reads_any (List.infix_refl _)
  obtain ⟨_, path⟩ := kept.path
  exact ⟨path, kept.stored⟩

end Session

end LoxLang
