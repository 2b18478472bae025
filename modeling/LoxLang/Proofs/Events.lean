import LoxLang.Proofs.EvalRuns
import LoxLang.Proofs.StaticScopes

/-!
The points that an execution passes: the expressions that it evaluates, each with the state in which
it does, the frames that it makes, each with what it comes from, the values that it gives to names
and to fields, the calls and the prints.  The events of an execution follow the execution itself:
what comes behind a step is told from the result and the state that the step leads to.  This is the
only traversal of the evaluator; what is asked of some events only is read off from the list.
-/

set_option autoImplicit false
set_option relaxedAutoImplicit false

namespace LoxLang

/-- Something that happens in an execution. -/
inductive Event where
  /-- An expression is about to be evaluated, with some distances recorded. -/
  | evaluated (distances : Distances) (e : Expr) (m : Machine)
  /-- A scope is entered whose innermost frame has just been made. -/
  | opened (origin : Origin) (scope : Scope)
  /-- A frame has just been made that holds some variables. -/
  | filled (frame : FrameId) (bindings : Bindings)
  /-- A declaration is about to give a value to its name in the present frame. -/
  | declares (s : Stmt) (v : Value) (m : Machine)
  /-- An assignment is about to give a value to its name, with some distances recorded. -/
  | assigns (distances : Distances) (e : Expr) (v : Value) (m : Machine)
  /-- A property of a value is about to be taken. -/
  | takes (v : Value) (name : Token) (m : Machine)
  /-- A field of an object is about to be given a value. -/
  | sets (o : Object) (name : Token) (v : Value) (m : Machine)
  /-- A call has begun and counts as active; the token is its closing parenthesis. -/
  | begins (paren : Token) (m : Machine)
  /-- A call has ended, in whatever way, and counts no longer. -/
  | ends (m : Machine)
  /-- A line is about to be printed. -/
  | prints (line : String) (m : Machine)

/-- What the declaration of a class contributes to it. -/
def ClassBody.of (id : ClassId) (name : Token) (methods : List FunctionDecl) (scope : Scope) :
    ClassBody where
  id := id
  name := name.lexeme
  methods := methods.map fun decl => ⟨decl, scope, decl.name.lexeme = initializerName⟩

def EvalM.nameClass (name : Token) (superclass : Option Class) (methods : List FunctionDecl)
    (scope : Scope) : EvalM Unit := do
  let id ← onStore (·.newClass)
  define name.lexeme (.callable (.ofClass (.below (.of id name methods scope) superclass)))

namespace Event

open EvalM

/-- The state in which an event comes about, where it matters. -/
def machine? : Event → Option Machine
  | evaluated _ _ m | declares _ _ m | assigns _ _ _ m => some m
  | _ => none

/-- What the frame holds that is made for a bound object. -/
def receiving (o : Object) : Bindings := (∅ : Bindings).insert "this" (.object o)

/-- What the frame holds that is made for a superclass. -/
def inheriting (c : Class) : Bindings := (∅ : Bindings).insert "super" (.callable (.ofClass c))

theorem getElem?_receiving (o : Object) (x : String) :
    (receiving o)[x]? = if x = "this" then some (.object o) else none := by
  by_cases same : x = "this"
  · subst same
    simp [receiving]
  · simp [receiving, same, Ne.symm same]

theorem receiving_inj {o o' : Object} (h : receiving o = receiving o') : o = o' := by
  have held := congrArg (fun b : Bindings => b["this"]?) h
  simpa [getElem?_receiving] using held

theorem getElem?_inheriting (c : Class) (x : String) :
    (inheriting c)[x]? = if x = "super" then some (.callable (.ofClass c)) else none := by
  by_cases same : x = "super"
  · subst same
    simp [inheriting]
  · simp [inheriting, same, Ne.symm same]

/-- The events behind a step, which come about only if the step gives a result. -/
def behind {α : Type} (act : EvalM α) (next : α → Machine → List Event) (m : Machine) :
    List Event :=
  match outcome act m with
  | (.ok a, m') => next a m'
  | (.error _, _) => []

theorem behind_nothing {α : Type} (act : EvalM α) (m : Machine) :
    behind act (fun _ _ => []) m = [] := by
  unfold behind
  split <;> rfl

theorem behind_append {α : Type} (act : EvalM α) (next next' : α → Machine → List Event)
    (m : Machine) :
    behind act next m ++ behind act next' m = behind act (fun a m => next a m ++ next' a m) m := by
  unfold behind
  split <;> rfl

/-- The events of entering a scope whose innermost frame has just been made. -/
def entering (origin : Origin) (scope : Scope) (bindings : Bindings) : List Event :=
  [.opened origin scope, .filled scope.frame bindings]

def ofBind (method : Closure) (o : Object) (m : Machine) : List Event :=
  entering (.receiver method.decl) (m.store.bind method o).1.scope (receiving o)

def ofProperty (v : Value) (name : Token) (m : Machine) : List Event :=
  match v with
  | .object o =>
    match m.store.field? o name.lexeme, o.kind.method? name.lexeme with
    | none, some method => ofBind method o m
    | _, _ => []
  | _ => []

/-- The events of taking a method of the superclass. -/
def ofSuper (distances : Distances) (id : ExprId) (method : Token) (m : Machine) : List Event :=
  match distances[id]? with
  | some (inner + 1) =>
    match m.store.getAt? m.scope (inner + 1) "super" with
    | some (.callable (.ofClass superclass)) =>
      match m.store.getAt? m.scope inner "this" with
      | some (.object o) =>
        match superclass.method? method.lexeme with
        | some found => ofBind found o m
        | none => []
      | _ => []
    | _ => []
  | _ => []

/-- The events of giving a class its name, once the scope around its methods is there. -/
def ofClassIn (s : Stmt) (name : Token) (superclass : Option Class) (methods : List FunctionDecl)
    (scope : Scope) : Machine → List Event :=
  behind (onStore (·.newClass)) fun id m =>
    let closures := methods.map fun decl =>
      Closure.mk decl scope (decl.name.lexeme = initializerName)
    [.declares s (.callable (.ofClass (.below ⟨id, name.lexeme, closures⟩ superclass))) m]

/-- The events of declaring a class by a statement. -/
def ofClass (s : Stmt) (name : Token) (superclass : Option Class) (methods : List FunctionDecl)
    (m : Machine) : List Event :=
  match superclass with
  | none => ofClassIn s name none methods m.scope m
  | some c =>
    let (scope, store) := m.store.newScope (inheriting c) (some m.scope)
    entering (.superclass name methods) scope (inheriting c) ++
      ofClassIn s name (some c) methods scope { m with store }

mutual

/-- The events of evaluating an expression. -/
def ofExpr (w : Surroundings) : Nat → Expr → Machine → List Event
  | 0, _ => fun _ => []
  | bound + 1, e => fun m =>
    .evaluated w.distances e m ::
      match e with
      | .literal _ | .variable _ _ | .this _ _ => []
      | .grouping inner => ofExpr w bound inner m
      | .unary _ operand => ofExpr w bound operand m
      | .binary _ left right =>
        ofExpr w bound left m ++
          behind (evalExpr w bound left) (fun _ m => ofExpr w bound right m) m
      | .logical operator left right =>
        ofExpr w bound left m ++
          behind (evalExpr w bound left) (fun a m =>
            if (if operator.kind = .orWord then a.truthy else !a.truthy) then []
            else ofExpr w bound right m) m
      | .assign _ _ value =>
        ofExpr w bound value m ++
          behind (evalExpr w bound value) (fun v m => [.assigns w.distances e v m]) m
      | .call callee paren args =>
        ofExpr w bound callee m ++ behind (evalExpr w bound callee) (fun f m =>
          ofExprs w bound args m ++ behind (evalExprs w bound args) (fun args m =>
            behind (expectCallable w.config.callLimit f args.length paren) (fun c m =>
              let begun := { m with depth := m.depth + 1 }
              .begins paren begun :: (ofApply w bound c args begun ++
                [.ends ((asCall (applyCallable w bound c args)).outcome m).2])) m) m) m
      | .get object name =>
        ofExpr w bound object m ++
          behind (evalExpr w bound object) (fun v m => .takes v name m :: ofProperty v name m) m
      | .set object name value =>
        ofExpr w bound object m ++ behind (evalExpr w bound object) (fun v m =>
          behind (expectObject v name) (fun o m =>
            ofExpr w bound value m ++
              behind (evalExpr w bound value) (fun u m => [.sets o name u m]) m) m) m
      | .super id _ method => ofSuper w.distances id method m

def ofExprs (w : Surroundings) : Nat → List Expr → Machine → List Event
  | 0, _ => fun _ => []
  | _ + 1, [] => fun _ => []
  | bound + 1, e :: es => fun m =>
    ofExpr w bound e m ++ behind (evalExpr w bound e) (fun _ m => ofExprs w bound es m) m

def ofApply (w : Surroundings) : Nat → Callable → List Value → Machine → List Event
  | 0, _, _ => fun _ => []
  | bound + 1, c, args => fun m =>
    match c with
    | .native _ => []
    | .function f => ofInvoke w bound f args m
    | .ofClass k =>
      behind (onStore (·.newObject k)) (fun o m =>
        match k.method? initializerName with
        | none => []
        | some initializer =>
          ofBind initializer o m ++ behind (onStore (·.bind initializer o)) (fun f m =>
            ofInvoke w bound f args m) m) m

/-- The events of running the body of a function. -/
def ofInvoke (w : Surroundings) : Nat → Closure → List Value → Machine → List Event
  | 0, _, _ => fun _ => []
  | bound + 1, f, args => fun m =>
    let params := (f.decl.params.map Token.lexeme).zip args
    let bindings := params.foldl (fun b (name, v) => b.insert name v) (∅ : Bindings)
    let (scope, store) := m.store.newScope bindings (some f.scope)
    entering (.call f.decl) scope bindings ++ ofStmts w bound f.decl.body { m with store, scope }

/-- The events of executing a statement. -/
def ofStmt (w : Surroundings) : Nat → Stmt → Machine → List Event
  | 0, _ => fun _ => []
  | bound + 1, s => fun m =>
    match s with
    | .expression e => ofExpr w bound e m
    | .print e =>
      ofExpr w bound e m ++
        behind (evalExpr w bound e) (fun v m => [.prints v.text m]) m
    | .var _ initializer =>
      ofOption w bound initializer m ++
        behind (evalOption w bound initializer) (fun v m => [.declares s v m]) m
    | .block body =>
      let (scope, store) := m.store.newScope ∅ (some m.scope)
      entering (.block body) scope ∅ ++ ofStmts w bound body { m with store, scope }
    | .branch condition thenBranch elseBranch =>
      ofExpr w bound condition m ++ behind (evalExpr w bound condition) (fun v m =>
        if v.truthy then ofStmt w bound thenBranch m
        else
          match elseBranch with
          | some s => ofStmt w bound s m
          | none => []) m
    | .loop condition body => ofLoop w bound condition body m
    | .function decl => [.declares s (.callable (.function ⟨decl, m.scope, false⟩)) m]
    | .ret _ value => ofOption w bound value m
    | .classDecl name superclass methods =>
      match superclass with
      | none => ofClass s name none methods m
      | some e =>
        ofExpr w bound e m ++ behind (evalExpr w bound e) (fun v m =>
          match v with
          | .callable (.ofClass c) => ofClass s name (some c) methods m
          | _ => []) m

def ofOption (w : Surroundings) : Nat → Option Expr → Machine → List Event
  | 0, _ => fun _ => []
  | _ + 1, none => fun _ => []
  | bound + 1, some e => ofExpr w bound e

def ofStmts (w : Surroundings) : Nat → List Stmt → Machine → List Event
  | 0, _ => fun _ => []
  | _ + 1, [] => fun _ => []
  | bound + 1, s :: ss => fun m =>
    ofStmt w bound s m ++ behind (execStmt w bound s) (fun _ m => ofStmts w bound ss m) m

def ofLoop (w : Surroundings) : Nat → Expr → Stmt → Machine → List Event
  | 0, _, _ => fun _ => []
  | bound + 1, condition, body => fun m =>
    ofExpr w bound condition m ++ behind (evalExpr w bound condition) (fun v m =>
      if v.truthy then
        ofStmt w bound body m ++
          behind (execStmt w bound body) (fun _ m => ofLoop w bound condition body m) m
      else []) m

end

theorem ofClassIn_eq (s : Stmt) (name : Token) (superclass : Option Class)
    (methods : List FunctionDecl) (scope : Scope) (m : Machine) :
    ofClassIn s name superclass methods scope m =
      [.declares s
        (.callable (.ofClass (.below (.of m.store.nextClass name methods scope) superclass)))
        { m with store := m.store.newClass.2 }] := rfl

/-- A class with a superclass gets its name in the scope that the superclass is kept in. -/
theorem ofClass_some (s : Stmt) (name : Token) (superclass : Class) (methods : List FunctionDecl)
    (m : Machine) :
    ofClass s name (some superclass) methods m =
      entering (.superclass name methods)
        (m.store.newScope (inheriting superclass) (some m.scope)).1 (inheriting superclass) ++
      ofClassIn s name (some superclass) methods
        (m.store.newScope (inheriting superclass) (some m.scope)).1
        { m with store := (m.store.newScope (inheriting superclass) (some m.scope)).2 } := rfl

end Event

theorem EvalM.outcome_declareClass_none (name : Token) (methods : List FunctionDecl) (m : Machine) :
    (declareClass name none methods).outcome m =
      (nameClass name none methods m.scope).outcome m := by
  rw [declareClass, outcome_bind, outcome_get]
  rfl

theorem EvalM.outcome_declareClass_some (name : Token) (superclass : Class)
    (methods : List FunctionDecl) (m : Machine) :
    (declareClass name (some superclass) methods).outcome m =
      (onStore (·.newScope (Event.inheriting superclass) (some m.scope)) >>=
        nameClass name (some superclass) methods).outcome m := by
  rw [declareClass, outcome_bind, outcome_get]
  rfl

end LoxLang
