import LoxLang.Proofs.ClosedSteps
import LoxLang.Proofs.Events

/-!
Executions that are cut short.  What is given from outside may stop an execution at a call as it
begins, or at a print.  Up to the first such event the execution is the one that nothing stops; there
it fails, in the state of the event but for the scope and the count of active calls, which are again
what they were at the beginning.
-/

set_option autoImplicit false
set_option relaxedAutoImplicit false

namespace LoxLang

open EvalM Event

/-- Where an execution is stopped: the failure, and the state in which it comes to that. -/
structure Stop where
  failure : Failure
  machine : Machine

/-- What stops executions: some calls as they begin, and some prints. -/
structure Barrier where
  begins : Token → Machine → Option Stop
  prints : String → Machine → Option Stop

namespace Barrier

variable (b : Barrier)

def stop? : Event → Option Stop
  | .begins paren m => b.begins paren m
  | .prints line m => b.prints line m
  | _ => none

def first? (evs : List Event) : Option Stop := evs.findSome? b.stop?

theorem first?_cons (ev : Event) (evs : List Event) :
    b.first? (ev :: evs) = (b.stop? ev).or (b.first? evs) := by
  rw [first?, List.findSome?_cons]
  cases b.stop? ev <;> rfl

theorem first?_append (evs evs' : List Event) :
    b.first? (evs ++ evs') = (b.first? evs).or (b.first? evs') :=
  List.findSome?_append

private theorem first?_ofProperty (v : Value) (name : Token) (m : Machine) :
    b.first? (ofProperty v name m) = none := by
  unfold ofProperty
  split
  · split <;> rfl
  · rfl

private theorem first?_ofSuper (D : Distances) (id : ExprId) (method : Token) (m : Machine) :
    b.first? (ofSuper D id method m) = none := by
  unfold ofSuper
  repeat' split
  all_goals rfl

private theorem first?_ofClass (s : Stmt) (name : Token) (superclass : Option Class)
    (methods : List FunctionDecl) (m : Machine) :
    b.first? (ofClass s name superclass methods m) = none := by
  cases superclass <;> rfl

end Barrier

def Machine.at (m place : Machine) : Machine :=
  { m with scope := place.scope, depth := place.depth }

/-- The end of an execution from a state that is stopped at some place, if anywhere, told by the end
of the one that is not. -/
def StopsAt {α : Type} (m : Machine) : Option Stop →
    Except Interrupt α × Machine → Except Interrupt α × Machine → Prop
  | none, out, out' => out = out'
  | some stop, out, _ => out = (.error (.failure stop.failure), stop.machine.at m)

namespace StopsAt

variable {α β : Type} {m m' : Machine} {first? : Option Stop}
  {out out' : Except Interrupt α × Machine}

private theorem through (h : StopsAt m' first? out out')
    (leave : Except Interrupt α × Machine → Except Interrupt β × Machine)
    (back : ∀ f (stopped : Machine), leave (.error (.failure f), stopped.at m') =
      (.error (.failure f), stopped.at m)) :
    StopsAt m first? (leave out) (leave out') := by
  cases first? with
  | none => exact congrArg leave h
  | some stop => exact (congrArg leave h).trans (back _ _)

private theorem moved (h : StopsAt m' first? out out') (scope : m'.scope = m.scope)
    (depth : m'.depth = m.depth) : StopsAt m first? out out' := by
  cases first? with
  | none => exact h
  | some stop =>
    rw [StopsAt, Machine.at, scope, depth] at h
    exact h

end StopsAt

def Cut {α : Type} (b : Barrier) (act act' : EvalM α) (events : Machine → List Event) : Prop :=
  ∀ m, StopsAt m (b.first? (events m)) (act.outcome m) (act'.outcome m)

namespace Cut

variable {α β : Type} {b : Barrier} {act act' : EvalM α} {events : Machine → List Event}

/-- At other events nothing is stopped. -/
theorem same {act : EvalM α} (silent : ∀ m, b.first? (events m) = none) : Cut b act act events := by
  intro m
  rw [silent m]
  rfl

private theorem bind {next next' : α → EvalM β} {events' : α → Machine → List Event}
    (h : Cut b act act' events) (restores : Restores act')
    (h' : ∀ a, Cut b (next a) (next' a) (events' a)) :
    Cut b (act >>= next) (act' >>= next') fun m => events m ++ behind act' events' m := by
  intro m
  have first := h m
  have place := restores m
  rw [b.first?_append, outcome_bind, outcome_bind]
  cases found : b.first? (events m) with
  | some stop =>
    rw [found] at first
    have stopped : act.outcome m = _ := first
    rw [stopped]
    exact rfl
  | none =>
    rw [found] at first
    have alike : act.outcome m = act'.outcome m := first
    rw [alike, Option.none_or, behind]
    generalize act'.outcome m = ended at place ⊢
    rcases ended with ⟨i | a, m'⟩
    · exact rfl
    · exact (h' a m').moved place.1 place.2

private theorem after {next next' : α → EvalM β} {events' : α → Machine → List Event}
    (restores : Restores act) (h : ∀ a, Cut b (next a) (next' a) (events' a)) :
    Cut b (act >>= next) (act >>= next') (behind act events') := by
  have silent : Cut b act act fun _ => [] := same fun _ => rfl
  exact silent.bind restores h

private theorem andThen {next : α → EvalM β} (h : Cut b act act' events)
    (restores : Restores act') :
    Cut b (act >>= next) (act' >>= next) events := by
  have rest : ∀ a, Cut b (next a) (next a) fun _ => [] := fun a => same fun _ => rfl
  have both := h.bind restores rest
  simp only [behind_nothing, List.append_nil] at both
  exact both

private theorem get_bind {next next' : Machine → EvalM α}
    (h : ∀ m, StopsAt m (b.first? (events m)) ((next m).outcome m) ((next' m).outcome m)) :
    Cut b (get >>= next) (get >>= next') events := by
  intro m
  rw [outcome_bind, outcome_bind, outcome_get]
  exact h m

private theorem before (first : Machine → List Event) (silent : ∀ m, b.first? (first m) = none)
    (h : Cut b act act' events) : Cut b act act' fun m => first m ++ events m := by
  intro m
  rw [b.first?_append, silent, Option.none_or]
  exact h m

private theorem inScope (scope : Scope) (h : Cut b act act' events) :
    Cut b (inScope scope act) (EvalM.inScope scope act') fun m => events { m with scope } :=
  fun m => (h { m with scope }).through (fun out => (out.1, { out.2 with scope := m.scope }))
    fun _ _ => rfl

private theorem asCall (h : Cut b act act' events) :
    Cut b (asCall act) (EvalM.asCall act') fun m =>
      events { m with depth := m.depth + 1 } ++ [.ends ((EvalM.asCall act').outcome m).2] := by
  intro m
  rw [b.first?_append, show b.first? [.ends _] = none from rfl, Option.or_none]
  exact (h { m with depth := m.depth + 1 }).through
    (fun out => (out.1, { out.2 with depth := out.2.depth - 1 })) fun _ _ => rfl

private theorem catchReturn {act act' : EvalM Unit} (h : Cut b act act' events) :
    Cut b (catchReturn act) (EvalM.catchReturn act') events :=
  -- What is caught depends on how the execution ends alone.
  fun m => (h m).through (fun out => (EvalM.catchReturn fun _ => out).outcome m) fun _ _ => rfl

private theorem entering (origin : Origin) (bindings : Bindings) (s : Scope)
    (h : Cut b act act' events) :
    Cut b (onStore (·.newScope bindings (some s)) >>= fun t => EvalM.inScope t act)
      (onStore (·.newScope bindings (some s)) >>= fun t => EvalM.inScope t act') fun m =>
        Event.entering origin (m.store.newScope bindings (some s)).1 bindings ++
          events { m with
            store := (m.store.newScope bindings (some s)).2
            scope := (m.store.newScope bindings (some s)).1 } := by
  refine before _ (fun _ => rfl) ?_
  exact after (fun _ => ⟨rfl, rfl⟩) fun t => h.inScope t

end Cut

/-- A barrier tells where one execution is stopped and another one is not, by what they are given
from outside. -/
structure Barrier.Between (b : Barrier) (config config' : Config) : Prop where
  bound : config.bound = config'.bound
  clock : config.clock = config'.clock
  print : ∀ line, Cut b (print config.sink line) (EvalM.print config'.sink line)
    fun m => [.prints line m]
  call : ∀ f given paren,
    Cut b (expectCallable config.callLimit f given paren)
      (expectCallable config'.callLimit f given paren)
      (behind (expectCallable config'.callLimit f given paren) fun _ m =>
        [.begins paren { m with depth := m.depth + 1 }])

/-- With a bound on nested steps, every execution is stopped where the barrier tells. -/
structure CutSteps (b : Barrier) (w w' : Surroundings) (bound : Nat) : Prop where
  expr : ∀ e, Cut b (evalExpr w bound e) (evalExpr w' bound e) (ofExpr w' bound e)
  exprs : ∀ es, Cut b (evalExprs w bound es) (evalExprs w' bound es) (ofExprs w' bound es)
  apply : ∀ c args, Cut b (applyCallable w bound c args) (applyCallable w' bound c args)
    (ofApply w' bound c args)
  invoke : ∀ f args, Cut b (invokeClosure w bound f args) (invokeClosure w' bound f args)
    (ofInvoke w' bound f args)
  stmt : ∀ s, Cut b (execStmt w bound s) (execStmt w' bound s) (ofStmt w' bound s)
  option : ∀ e, Cut b (evalOption w bound e) (evalOption w' bound e) (ofOption w' bound e)
  stmts : ∀ ss, Cut b (execStmts w bound ss) (execStmts w' bound ss) (ofStmts w' bound ss)
  loop : ∀ c s, Cut b (execLoop w bound c s) (execLoop w' bound c s) (ofLoop w' bound c s)

namespace CutSteps

variable {b : Barrier} {config config' : Config} {D : Distances} {bound : Nat}
  (h : CutSteps b ⟨config, D⟩ ⟨config', D⟩ bound)

include h

private theorem expr_succ (between : b.Between config config') (e : Expr) : Cut b
    (evalExpr ⟨config, D⟩ (bound + 1) e)
    (evalExpr ⟨config', D⟩ (bound + 1) e) (ofExpr ⟨config', D⟩ (bound + 1) e) := by
  have restores := Restores.all ⟨config', D⟩ bound
  have closed := Restores.closed config'
  unfold evalExpr ofExpr
  refine .before (fun m => [.evaluated D e m]) (fun _ => rfl) ?_
  cases e with
  | literal l => exact .same fun _ => rfl
  | grouping inner => exact h.expr inner
  | unary operator operand => exact (h.expr operand).andThen (restores.expr operand)
  | binary operator left right =>
    exact (h.expr left).bind (restores.expr left) fun a =>
      (h.expr right).andThen (restores.expr right)
  | logical operator left right =>
    refine (h.expr left).bind (restores.expr left) fun a => ?_
    dsimp only
    generalize (if operator.kind = .orWord then a.truthy else !a.truthy) = decided
    split
    · exact .same fun _ => rfl
    · exact h.expr right
  | «variable» id name => exact .same fun _ => rfl
  | assign id name value =>
    exact (h.expr value).bind (restores.expr value) fun v => .same fun _ => rfl
  | call callee paren args =>
    refine (h.expr callee).bind (restores.expr callee) fun f =>
      (h.exprs args).bind (restores.exprs args) fun args => ?_
    have called := (between.call f args.length paren).bind
      (closed.expectCallable f args.length paren) fun c => (h.apply c args).asCall
    simp only [behind_append] at called
    exact called
  | get object name =>
    exact (h.expr object).bind (restores.expr object) fun v =>
      .same fun m => b.first?_ofProperty v name m
  | set object name value =>
    exact (h.expr object).bind (restores.expr object) fun v =>
      .after (closed.composed.expectObject v name) fun o =>
        (h.expr value).bind (restores.expr value) fun u => .same fun _ => rfl
  | this id keyword => exact .same fun _ => rfl
  | super id keyword method => exact .same fun m => b.first?_ofSuper D id method m

private theorem exprs_succ (es : List Expr) : Cut b (evalExprs ⟨config, D⟩ (bound + 1) es)
    (evalExprs ⟨config', D⟩ (bound + 1) es) (ofExprs ⟨config', D⟩ (bound + 1) es) := by
  have restores := Restores.all ⟨config', D⟩ bound
  unfold evalExprs ofExprs
  cases es with
  | nil => exact .same fun _ => rfl
  | cons e es =>
    exact (h.expr e).bind (restores.expr e) fun v => (h.exprs es).andThen (restores.exprs es)

private theorem apply_succ (between : b.Between config config') (c : Callable) (args : List Value) :
    Cut b (applyCallable ⟨config, D⟩ (bound + 1) c args)
      (applyCallable ⟨config', D⟩ (bound + 1) c args) (ofApply ⟨config', D⟩ (bound + 1) c args) := by
  have restores := Restores.all ⟨config', D⟩ bound
  have closed := Restores.closed config'
  unfold applyCallable ofApply
  cases c with
  | native f =>
    cases f
    dsimp only
    rw [between.clock]
    exact .same fun _ => rfl
  | function f => exact h.invoke f args
  | ofClass k =>
    refine .after (closed.onStore _) fun o => ?_
    cases k.method? initializerName with
    | none => exact .same fun _ => rfl
    | some i =>
      refine .before (ofBind i o) (fun _ => rfl) ?_
      exact .after (closed.onStore _) fun f => (h.invoke f args).andThen (restores.invoke f args)

private theorem invoke_succ (f : Closure) (args : List Value) :
    Cut b (invokeClosure ⟨config, D⟩ (bound + 1) f args)
      (invokeClosure ⟨config', D⟩ (bound + 1) f args) (ofInvoke ⟨config', D⟩ (bound + 1) f args) := by
  have restores := Restores.all ⟨config', D⟩ bound
  have closed := Restores.closed config'
  unfold invokeClosure ofInvoke
  dsimp only
  rw [← bind_assoc, ← bind_assoc]
  refine (Cut.entering (.call f.decl) _ f.scope (h.stmts f.decl.body).catchReturn).andThen ?_
  exact closed.bind (closed.onStore _) fun scope =>
    closed.inScope scope (closed.catchReturn (restores.stmts _))

private theorem stmt_succ (between : b.Between config config') (s : Stmt) :
    Cut b (execStmt ⟨config, D⟩ (bound + 1) s)
    (execStmt ⟨config', D⟩ (bound + 1) s) (ofStmt ⟨config', D⟩ (bound + 1) s) := by
  have restores := Restores.all ⟨config', D⟩ bound
  have closed := Restores.closed config'
  unfold execStmt ofStmt
  cases s with
  | expression e => exact (h.expr e).andThen (restores.expr e)
  | print e => exact (h.expr e).bind (restores.expr e) fun v => between.print v.text
  | var name initializer =>
    exact (h.option initializer).bind (restores.option initializer) fun v => .same fun _ => rfl
  | block body =>
    exact .get_bind fun m => Cut.entering (.block body) ∅ m.scope (h.stmts body) m
  | branch condition thenBranch elseBranch =>
    refine (h.expr condition).bind (restores.expr condition) fun v => ?_
    split
    · exact h.stmt thenBranch
    · cases elseBranch with
      | none => exact .same fun _ => rfl
      | some s => exact h.stmt s
  | loop condition body => exact h.loop condition body
  | function decl => exact .same fun _ => rfl
  | ret keyword value => exact (h.option value).andThen (restores.option value)
  | classDecl name superclass methods =>
    cases superclass with
    | none => exact .same fun m => b.first?_ofClass _ name none methods m
    | some e =>
      refine (h.expr e).bind (restores.expr e) fun v => .same fun m => ?_
      split
      · exact b.first?_ofClass ..
      · rfl

private theorem option_succ (e : Option Expr) : Cut b (evalOption ⟨config, D⟩ (bound + 1) e)
    (evalOption ⟨config', D⟩ (bound + 1) e) (Event.ofOption ⟨config', D⟩ (bound + 1) e) := by
  unfold evalOption Event.ofOption
  cases e with
  | none => exact .same fun _ => rfl
  | some e => exact h.expr e

private theorem stmts_succ (ss : List Stmt) : Cut b (execStmts ⟨config, D⟩ (bound + 1) ss)
    (execStmts ⟨config', D⟩ (bound + 1) ss) (ofStmts ⟨config', D⟩ (bound + 1) ss) := by
  unfold execStmts ofStmts
  cases ss with
  | nil => exact .same fun _ => rfl
  | cons s ss =>
    exact (h.stmt s).bind ((Restores.all ⟨config', D⟩ bound).stmt s) fun _ => h.stmts ss

private theorem loop_succ (c : Expr) (s : Stmt) : Cut b (execLoop ⟨config, D⟩ (bound + 1) c s)
    (execLoop ⟨config', D⟩ (bound + 1) c s) (ofLoop ⟨config', D⟩ (bound + 1) c s) := by
  have restores := Restores.all ⟨config', D⟩ bound
  unfold execLoop ofLoop
  refine (h.expr c).bind (restores.expr c) fun v => ?_
  split
  · exact (h.stmt s).bind (restores.stmt s) fun _ => h.loop c s
  · exact .same fun _ => rfl

omit h in
theorem all (between : b.Between config config') (D : Distances) (bound : Nat) :
    CutSteps b ⟨config, D⟩ ⟨config', D⟩ bound := by
  induction bound with
  | zero =>
    constructor
    case expr => exact fun e => by unfold evalExpr ofExpr; exact .same fun _ => rfl
    case exprs => exact fun es => by unfold evalExprs ofExprs; exact .same fun _ => rfl
    case apply => exact fun c args => by unfold applyCallable ofApply; exact .same fun _ => rfl
    case invoke => exact fun f args => by unfold invokeClosure ofInvoke; exact .same fun _ => rfl
    case stmt => exact fun s => by unfold execStmt ofStmt; exact .same fun _ => rfl
    case option => exact fun e => by unfold evalOption Event.ofOption; exact .same fun _ => rfl
    case stmts => exact fun ss => by unfold execStmts ofStmts; exact .same fun _ => rfl
    case loop => exact fun c s => by unfold execLoop ofLoop; exact .same fun _ => rfl
  | succ bound ih =>
    exact ⟨ih.expr_succ between, ih.exprs_succ, ih.apply_succ between, ih.invoke_succ,
      ih.stmt_succ between, ih.option_succ, ih.stmts_succ, ih.loop_succ⟩

end CutSteps

end LoxLang
