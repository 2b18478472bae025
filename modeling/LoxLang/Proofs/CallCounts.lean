import LoxLang.Proofs.ClosedSteps
import LoxLang.Proofs.InvariantSteps

/-!
The count of active calls along an execution.  It changes only where a call begins and where it
ends, by one each time, whatever ends the call; so every call gives back just what it took, and
under a limit the count is never above the limit.
-/

set_option autoImplicit false
set_option relaxedAutoImplicit false

namespace LoxLang

open EvalM Event

namespace Event

def count? : Event → Option Nat
  | begins _ m | ends m => some m.depth
  | _ => none

def counts (evs : List Event) : List Nat := evs.filterMap count?

end Event

inductive Climbs (limit : Option Nat) : Nat → List Event → Nat → Prop where
  | stay (n : Nat) : Climbs limit n [] n
  | pass {n n' : Nat} {ev : Event} {evs : List Event} : ev.count? = none → Climbs limit n evs n' →
    Climbs limit n (ev :: evs) n'
  | up {n n' : Nat} {paren : Token} {m : Machine} {evs : List Event} :
    (∀ l, limit = some l → n < l) → m.depth = n + 1 → Climbs limit (n + 1) evs n' →
    Climbs limit n (.begins paren m :: evs) n'
  | down {n n' : Nat} {m : Machine} {evs : List Event} : (∀ l, limit = some l → n < l) →
    m.depth = n → Climbs limit n evs n' → Climbs limit (n + 1) (.ends m :: evs) n'

namespace Climbs

variable {limit : Option Nat} {n n' n'' : Nat} {evs evs' : List Event}

private theorem single {ev : Event} (none : ev.count? = none) : Climbs limit n [ev] n :=
  .pass none (.stay n)

private theorem trans (h : Climbs limit n evs n') (h' : Climbs limit n' evs' n'') :
    Climbs limit n (evs ++ evs') n'' := by
  induction h with
  | stay _ => exact h'
  | pass none _ ih => exact (ih h').pass none
  | up below counted _ ih => exact (ih h').up below counted
  | down below counted _ ih => exact (ih h').down below counted

private theorem le {l : Nat} (h : Climbs (some l) n evs n') : ∀ count ∈ counts evs, count ≤ l := by
  induction h with
  | stay _ => exact List.forall_mem_nil _
  | pass none _ ih =>
    rw [counts, List.filterMap_cons_none none]
    exact ih
  | up below counted _ ih => exact List.forall_mem_cons.mpr ⟨counted ▸ below l rfl, ih⟩
  | down below counted _ ih =>
    exact List.forall_mem_cons.mpr ⟨counted ▸ Nat.le_of_lt (below l rfl), ih⟩

end Climbs

def Invariant.climbing (limit : Option Nat) : Invariant where
  tree := .any
  value _ _ := True
  event _ := True
  path _ m evs m' := m'.depth = m.depth ∧ Climbs limit m.depth evs m.depth
  failure f := limit = none → ∀ line, f ≠ .fault ⟨line, .stackOverflow⟩

/-- Each single step but a call leaves the count of active calls alone. -/
theorem Invariant.climbing_kept (w : Surroundings) : (climbing w.config.callLimit).Kept w where
  left _ _ _ := trivial
  right _ _ _ := trivial
  still _ _ depth _ := ⟨depth, .stay _⟩
  trans h h' := ⟨h'.1.trans h.1, h.2.trans (h.1 ▸ h'.2)⟩
  mono h _ := h
  within h h' _ _ := ⟨h'.1.trans h.1, h.2.trans (h.1 ▸ h'.2)⟩
  calls {_ m _ _ m'} below h := by
    have given : m'.depth - 1 = m.depth := congrArg (· - 1) h.1
    exact ⟨given, .up below rfl (h.2.trans (.down below given (.stay _)))⟩
  later _ _ := trivial
  toValues := .any (fun _ _ => trivial) fun _ => trivial
  exhausted _ := nofun
  ordinary ordinary _ _ same := by
    cases same
    cases ordinary
  overflow limited unlimited := absurd unlimited limited
  unary _ failed _ _ same := by
    cases same
    exact absurd failed (applyUnary_ne_overflow _ _)
  binary _ failed _ _ same := by
    cases same
    exact absurd failed (applyBinary_ne_overflow _ _ _)
  sink _ _ := nofun
  function _ _ := trivial
  evaluated _ _ := ⟨rfl, .single rfl⟩
  takes _ _ := ⟨rfl, .single rfl⟩
  prints _ _ := ⟨rfl, .single rfl⟩
  misses _ _ _ := ⟨rfl, .single rfl⟩
  assigns _ _ _ := ⟨rfl, .single rfl⟩
  declares _ _ _ _ := ⟨rfl, .single rfl⟩
  sets _ _ _ := ⟨rfl, .single rfl⟩
  enters _ _ _ _ := ⟨rfl, .pass rfl (.single rfl)⟩
  newObject _ _ := ⟨⟨rfl, .stay _⟩, trivial⟩
  binds _ _ _ _ _ := ⟨⟨rfl, .pass rfl (.single rfl)⟩, trivial⟩
  inherits _ _ _ _ := ⟨rfl, .pass rfl (.single rfl)⟩
  names _ _ _ _ _ := ⟨⟨rfl, .single rfl⟩, trivial⟩

/-- What is consulted with a limit on calls. -/
def Surroundings.limited (w : Surroundings) (limit : Nat) : Surroundings :=
  { w with config := { w.config with callLimit := some limit } }

def Counted {α : Type} (limit : Nat) (act : EvalM α) (events : Machine → List Event) : Prop :=
  ∀ m, Climbs (some limit) m.depth (events m) (act.outcome m).2.depth ∧
    ∀ count ∈ counts (events m), count ≤ limit

/-- The counts of active calls in trees and callables under a limit, with a bound on nested
steps. -/
structure CountedSteps (w : Surroundings) (limit bound : Nat) : Prop where
  expr : ∀ e, Counted limit (evalExpr w bound e) (ofExpr w bound e)
  exprs : ∀ es, Counted limit (evalExprs w bound es) (ofExprs w bound es)
  apply : ∀ c args, Counted limit (applyCallable w bound c args) (ofApply w bound c args)
  invoke : ∀ f args, Counted limit (invokeClosure w bound f args) (ofInvoke w bound f args)
  stmt : ∀ s, Counted limit (execStmt w bound s) (ofStmt w bound s)
  option : ∀ e, Counted limit (evalOption w bound e) (Event.ofOption w bound e)
  stmts : ∀ ss, Counted limit (execStmts w bound ss) (ofStmts w bound ss)
  loop : ∀ c s, Counted limit (execLoop w bound c s) (ofLoop w bound c s)

private theorem Counted.of_keeps {α : Type} {limit : Nat} {own : List String} {P : Store → α → Prop}
    {act : EvalM α} {events : Machine → List Event}
    (h : ∀ m, (Invariant.climbing (some limit)).Keeps own P act m (events m)) :
    Counted limit act events := by
  intro m
  obtain ⟨depth, climbs⟩ := (h m (fun _ _ => trivial) trivial).path
  exact ⟨depth ▸ climbs, climbs.le⟩

theorem CountedSteps.all (w : Surroundings) (limit bound : Nat) :
    CountedSteps (w.limited limit) limit bound :=
  have steps := (Invariant.climbing_kept (w.limited limit)).all bound
  { expr := fun _ => .of_keeps fun m => steps.expr [] m trivial
    exprs := fun _ => .of_keeps fun m => steps.exprs [] m fun _ _ => trivial
    apply := fun _ _ => .of_keeps fun m => steps.apply [] m trivial fun _ _ => trivial
    invoke := fun _ _ => .of_keeps fun m => steps.invoke [] m trivial fun _ _ => trivial
    stmt := fun _ => .of_keeps fun m => steps.stmt m trivial
    option := fun _ => .of_keeps fun m => steps.option [] m fun _ _ => trivial
    stmts := fun _ => .of_keeps fun m => steps.stmts m trivial
    loop := fun _ _ => .of_keeps fun m => steps.loop m trivial trivial }

end LoxLang
