import LoxLang.Proofs.SessionInvariants
import LoxLang.Proofs.Traces

/-!
The events of every execution tell what it does to the variables.  Declarations act on the present
frame alone: of the frames that are there when an execution begins, no other one gets a declaration,
and the present one gets none either if the statement does not itself declare a name.
-/

set_option autoImplicit false
set_option relaxedAutoImplicit false

namespace LoxLang

open EvalM Event

def Invariant.tracing : Invariant where
  tree := .any
  value _ _ := True
  event _ := True
  path own m evs m' := m.scope.frame < m.store.frames.size → Traced m own evs m'
  failure _ := True

namespace Traced

variable {own : List String} {m : Machine} {D : Distances}

private theorem declares (present : m.scope.frame < m.store.frames.size) {s : Stmt} {name : Token}
    (names : s.declares? = some name) (v : Value) (mine : name.lexeme ∈ own) :
    Traced m own [.declares s v m] { m with store := m.store.define m.scope name.lexeme v } := by
  refine .wrote present rfl (by rw [write?, names, Option.map_some]) present (.inr ⟨rfl, mine⟩)
    fun f other => List.filterMap_cons_none (if_neg fun same => ?_)
  rw [other same.symm] at mine
  cases mine

private theorem assigns (present : m.scope.frame < m.store.frames.size) {id : ExprId} {name : Token}
    (value : Expr) (v : Value) {f : FrameId} (target : m.target? D id name = some f) :
    Traced m own [.assigns D (.assign id name value) v m]
      { m with store := m.store.setLocal f name.lexeme v } := by
  have held := Machine.target?_holds target
  exact .wrote present rfl (by rw [write?, target, Option.map_some]) (Store.lt_size_of_holds held)
    (.inl held) fun _ _ => rfl

private theorem misses (present : m.scope.frame < m.store.frames.size) {id : ExprId} {name : Token}
    (value : Expr) (v : Value) (target : m.target? D id name = none) :
    Traced m own [.assigns D (.assign id name value) v m] m := by
  refine .passing rfl rfl ?_ (.single present rfl nofun) fun _ => rfl
  rw [next, write?, target, Option.map_none]
  exact nofun

end Traced

private theorem Invariant.tracing_kept (w : Surroundings) : tracing.Kept w where
  left _ _ _ := trivial
  right _ _ _ := trivial
  still store scope _ _ _ := .quiet (congrArg Store.frames store) scope
  trans h h' present := (h present).trans (h' ((h present).present present))
  mono h more present := (h present).mono more
  within h h' new made present := (h present).within (h' made) new
  calls := by
    intro own m paren evs m' _ h present
    obtain ⟨scope, told, tell, names, spared⟩ := h present
    have begins : Traced m own [.begins paren { m with depth := m.depth + 1 }] m :=
      .passing rfl rfl rfl (.silent rfl nofun) fun _ => rfl
    have inner : Traced m own evs m' := ⟨scope, told, tell, names, spared⟩
    have ends : Traced m' own [.ends { m' with depth := m'.depth - 1 }]
        { m' with depth := m'.depth - 1 } :=
      .passing rfl rfl rfl (.silent rfl nofun) fun _ => rfl
    exact begins.trans (inner.trans ends)
  later _ _ := trivial
  toValues := .any (fun _ _ => trivial) fun _ => trivial
  toFailures := .any fun _ => trivial
  function _ _ := trivial
  evaluated _ _ present := .passing rfl rfl rfl (.single present rfl nofun) fun _ => rfl
  takes _ _ _ := .passing rfl rfl rfl (.silent rfl nofun) fun _ => rfl
  prints _ _ _ := .passing rfl rfl rfl (.silent rfl nofun) fun _ => rfl
  misses _ _ target present := .misses present _ _ target
  assigns _ _ target present := .assigns present _ _ target
  declares _ _ declaration mine present := by
    cases declaration <;> exact .declares present rfl _ mine
  sets _ _ _ _ := .passing rfl rfl rfl (.silent rfl nofun) fun _ => rfl
  enters _ _ _ _ _ := .opened ..
  newObject _ _ := ⟨fun _ => .quiet rfl rfl, trivial⟩
  binds _ _ _ _ _ := ⟨fun _ => .opened .., trivial⟩
  inherits _ _ _ _ _ := .opened ..
  names {own m name clause _ _ _} _ _ _ mine _ := by
    refine ⟨fun present => ?_, trivial⟩
    have fresh : Traced m own [] { m with store := m.store.newClass.2 } := .quiet rfl rfl
    exact fresh.trans (.declares (fresh.present present) rfl _ mine)

def TracedRun {α : Type} (own : List String) (act : EvalM α) (events : Machine → List Event) :
    Prop :=
  ∀ m : Machine, m.scope.frame < m.store.frames.size → Traced m own (events m) (act.outcome m).2

namespace TracedRun

variable {own : List String} (w : Surroundings) (bound : Nat)

private theorem of_keeps {α : Type} {P : Store → α → Prop} {act : EvalM α}
    {events : Machine → List Event}
    (h : ∀ m, Invariant.tracing.Keeps own P act m (events m)) : TracedRun own act events :=
  fun m present => (h m (fun _ _ => trivial) trivial).path present

theorem expr (e : Expr) : TracedRun own (evalExpr w bound e) (ofExpr w bound e) :=
  of_keeps fun m => ((Invariant.tracing_kept w).all bound).expr own m trivial

theorem option (e : Option Expr) :
    TracedRun own (evalOption w bound e) (Event.ofOption w bound e) :=
  of_keeps fun m => ((Invariant.tracing_kept w).all bound).option own m fun _ _ => trivial

theorem stmt (s : Stmt) : TracedRun s.declared (execStmt w bound s) (ofStmt w bound s) :=
  of_keeps fun m => ((Invariant.tracing_kept w).all bound).stmt m trivial

theorem expectObject (v : Value) (name : Token) :
    TracedRun own (expectObject v name) fun _ => [] := by
  intro m present
  cases v <;> exact .quiet rfl rfl

end TracedRun

namespace Session

/-- What the frames of a session hold. -/
def contents (s : Session) : Contents := s.interpreter.machine.store.contents

variable {s : Session} (globals : s.interpreter.machine.scope = .globals)
  (made : 0 < s.interpreter.machine.store.frames.size)

include globals made

theorem perform_traced (r : Request) :
    ∃ own, Traced s.interpreter.machine own (s.events r) (s.perform r).2.interpreter.machine := by
  obtain ⟨own, path⟩ := (perform_kept (fun _ => Invariant.tracing_kept _) globals
    (fun _ _ => trivial) (s.reads_any r) trivial).path
  exact ⟨own, path (globals ▸ made)⟩

theorem performAll_traced (rs : List Request) :
    ∃ own, Traced s.interpreter.machine own (s.eventsAll rs)
      (s.performAll rs).interpreter.machine := by
  have kept : Invariant.tracing.Reaches _ (s.eventsAll rs) _ :=
    performAll_kept Invariant.tracing_kept globals (fun _ _ => trivial) reads_any trivial
  obtain ⟨own, path⟩ := kept.path
  exact ⟨own, path (globals ▸ made)⟩

omit globals made

/-- The events of a whole session tell what the frames hold, from the beginning on. -/
theorem tell_eventsAll (history : List Request) :
    Event.Tell initial.contents (initial.eventsAll history) := by
  obtain ⟨_, traced⟩ := performAll_traced (s := .initial) rfl Nat.one_pos history
  exact traced.tell

theorem contents_performAll (history : List Request) : (initial.performAll history).contents =
    (initial.eventsAll history).foldl Event.next initial.contents := by
  obtain ⟨_, traced⟩ := performAll_traced (s := .initial) rfl Nat.one_pos history
  exact traced.told

end Session

end LoxLang
