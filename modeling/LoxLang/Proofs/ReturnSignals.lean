import LoxLang.Proofs.BindingRules
import LoxLang.Proofs.EvaluatedExpressions

/-!
The ends of executions by `return`.  No expression and no call ends so, whatever is called: a call
takes the value.  A statement ends so just where the execution comes through blocks, branches and
loops to a `return` of its own, which stands in it with nothing but blocks around.  So no statement
of a program that obeys the rules of binding does.
-/

set_option autoImplicit false
set_option relaxedAutoImplicit false

namespace LoxLang

open EvalM

/-! What leads to a `return`, one rule for each way through a statement. -/

section

variable (w : Surroundings) (keyword : Token) (value : Option Expr) (v : Value)

mutual

/-- Executing a statement comes to a `return` with a value, and what that leads to. -/
inductive Stmt.Returns : Nat → Stmt → Machine → Machine → Prop where
  | ret {bound : Nat} {m m' : Machine} :
    (evalOption w bound value).outcome m = (.ok v, m') →
    Returns (bound + 1) (.ret keyword value) m m'
  | block {bound : Nat} {body : List Stmt} {scope : Scope} {m m₁ m' : Machine} :
    (onStore (·.newScope ∅ (some m.scope))).outcome m = (.ok scope, m₁) →
    Stmt.ReturnsAmong bound body { m₁ with scope } m' →
    Returns (bound + 1) (.block body) m { m' with scope := m.scope }
  | thenBranch {bound : Nat} {condition : Expr} {s : Stmt} {other : Option Stmt} {c : Value}
    {m m₁ m' : Machine} :
    (evalExpr w bound condition).outcome m = (.ok c, m₁) → c.truthy → Returns bound s m₁ m' →
    Returns (bound + 1) (.branch condition s other) m m'
  | elseBranch {bound : Nat} {condition : Expr} {other s : Stmt} {c : Value} {m m₁ m' : Machine} :
    (evalExpr w bound condition).outcome m = (.ok c, m₁) → ¬c.truthy → Returns bound s m₁ m' →
    Returns (bound + 1) (.branch condition other (some s)) m m'
  | loop {bound : Nat} {condition : Expr} {body : Stmt} {m m' : Machine} :
    Stmt.ReturnsWhile bound condition body m m' →
    Returns (bound + 1) (.loop condition body) m m'

inductive Stmt.ReturnsAmong : Nat → List Stmt → Machine → Machine → Prop where
  | here {bound : Nat} {s : Stmt} {ss : List Stmt} {m m' : Machine} : Stmt.Returns bound s m m' →
    ReturnsAmong (bound + 1) (s :: ss) m m'
  | behind {bound : Nat} {s : Stmt} {ss : List Stmt} {m m₁ m' : Machine} :
    (execStmt w bound s).outcome m = (.ok (), m₁) → ReturnsAmong bound ss m₁ m' →
    ReturnsAmong (bound + 1) (s :: ss) m m'

inductive Stmt.ReturnsWhile : Nat → Expr → Stmt → Machine → Machine → Prop where
  | here {bound : Nat} {condition : Expr} {body : Stmt} {c : Value} {m m₁ m' : Machine} :
    (evalExpr w bound condition).outcome m = (.ok c, m₁) → c.truthy →
    Stmt.Returns bound body m₁ m' → ReturnsWhile (bound + 1) condition body m m'
  | later {bound : Nat} {condition : Expr} {body : Stmt} {c : Value} {m m₁ m₂ m' : Machine} :
    (evalExpr w bound condition).outcome m = (.ok c, m₁) → c.truthy →
    (execStmt w bound body).outcome m₁ = (.ok (), m₂) →
    ReturnsWhile bound condition body m₂ m' → ReturnsWhile (bound + 1) condition body m m'

end

end

variable {w : Surroundings} {keyword : Token} {value : Option Expr} {v : Value}

theorem Stmt.mem_placesAll {ss : List Stmt} {s : Stmt} (member : s ∈ ss) {around : List Enclosure}
    {p : Location} (here : p ∈ s.places around) : p ∈ Stmt.placesAll around ss := by
  induction ss with
  | nil => cases member
  | cons s' ss ih =>
    rcases List.mem_cons.mp member with rfl | member
    · exact List.mem_append_left _ here
    · exact List.mem_append_right _ (ih member)

mutual

private theorem Stmt.Returns.placed : ∀ {bound} {s : Stmt} {m m'},
    Stmt.Returns w keyword value v bound s m m' → ∀ around,
    ∃ n, ⟨.stmt (.ret keyword value), List.replicate n .block ++ around⟩ ∈ s.places around
  | _, _, _, _, .ret _, around => by
    rw [Stmt.places]
    exact ⟨0, List.mem_cons_self⟩
  | _, _, _, _, .block _ inner, around => by
    obtain ⟨n, member⟩ := inner.placed (.block :: around)
    rw [Stmt.places]
    refine ⟨n + 1, List.mem_cons_of_mem _ ?_⟩
    rwa [List.replicate_succ', List.append_assoc]
  | _, _, _, _, .thenBranch _ _ inner, around => by
    obtain ⟨n, member⟩ := inner.placed around
    rw [Stmt.places]
    exact ⟨n, List.mem_cons_of_mem _ (List.mem_append_right _ (List.mem_append_left _ member))⟩
  | _, _, _, _, .elseBranch _ _ inner, around => by
    obtain ⟨n, member⟩ := inner.placed around
    rw [Stmt.places, Stmt.placesOption]
    exact ⟨n, List.mem_cons_of_mem _ (List.mem_append_right _ (List.mem_append_right _ member))⟩
  | _, _, _, _, .loop inner, around => by
    obtain ⟨n, member⟩ := inner.placed around
    rw [Stmt.places]
    exact ⟨n, List.mem_cons_of_mem _ (List.mem_append_right _ member)⟩

private theorem Stmt.ReturnsAmong.placed : ∀ {bound ss m m'},
    Stmt.ReturnsAmong w keyword value v bound ss m m' → ∀ around,
    ∃ n, ⟨.stmt (.ret keyword value), List.replicate n .block ++ around⟩ ∈
      Stmt.placesAll around ss
  | _, _, _, _, .here inner, around => by
    obtain ⟨n, member⟩ := inner.placed around
    rw [Stmt.placesAll]
    exact ⟨n, List.mem_append_left _ member⟩
  | _, _, _, _, .behind _ inner, around => by
    obtain ⟨n, member⟩ := inner.placed around
    rw [Stmt.placesAll]
    exact ⟨n, List.mem_append_right _ member⟩

private theorem Stmt.ReturnsWhile.placed : ∀ {bound condition} {body : Stmt} {m m'},
    Stmt.ReturnsWhile w keyword value v bound condition body m m' → ∀ around,
    ∃ n, ⟨.stmt (.ret keyword value), List.replicate n .block ++ around⟩ ∈ body.places around
  | _, _, _, _, _, .here _ _ inner, around => inner.placed around
  | _, _, _, _, _, .later _ _ _ inner, around => inner.placed around

end

namespace EvalM

variable {α β : Type} {act : EvalM α} {next : α → EvalM β} {m m' : Machine}

private theorem returned_bind (h : Unreturned act) :
    (act >>= next).outcome m = (.error (.returned v), m') ↔
      ∃ a m₁, act.outcome m = (.ok a, m₁) ∧
        (next a).outcome m₁ = (.error (.returned v), m') := by
  have stays := h m v
  rw [outcome_bind]
  generalize act.outcome m = ended at stays ⊢
  rcases ended with ⟨i | a, m₁⟩
  · refine iff_of_false (fun same => stays ?_) nofun
    cases same
    rfl
  · simp

private theorem returned_iff_false (h : Unreturned act) {p : Prop} (none : ¬p) :
    act.outcome m = (.error (.returned v), m') ↔ p :=
  iff_of_false (fun ended => h m v (congrArg Prod.fst ended)) none

private theorem returned_inScope {scope : Scope} :
    (inScope scope act).outcome m = (.error (.returned v), m') ↔
      ∃ m₁, act.outcome { m with scope } = (.error (.returned v), m₁) ∧
        m' = { m₁ with scope := m.scope } := by
  rw [outcome_inScope]
  rcases act.outcome { m with scope } with ⟨r, m₁⟩
  simp only [Prod.mk.injEq]
  constructor
  · rintro ⟨rfl, rfl⟩
    exact ⟨m₁, ⟨rfl, rfl⟩, rfl⟩
  · rintro ⟨_, ⟨rfl, rfl⟩, rfl⟩
    exact ⟨rfl, rfl⟩

end EvalM

namespace Unreturned

private theorem print (sink : Sink) (line : String) : Unreturned (print sink line) := by
  cases sink with
  | working => exact modify _
  | broken text => exact failure _

private theorem define (name : String) (v : Value) : Unreturned (define name v) := modify _

private theorem evalOption (w : Surroundings) (bound : Nat) (e : Option Expr) :
    Unreturned (evalOption w bound e) := by
  unfold LoxLang.evalOption
  cases bound with
  | zero => exact failure _
  | succ bound =>
    cases e with
    | none => exact pure _
    | some e => exact evalExpr w bound e

private theorem declareClass (name : Token) (superclass : Option Class)
    (methods : List FunctionDecl) :
    Unreturned (declareClass name superclass methods) := by
  have named (scope : Scope) := (onStore (·.newClass)).bind fun id =>
    define name.lexeme (.callable (.ofClass (.below ⟨id, name.lexeme, methods.map fun decl =>
      Closure.mk decl scope (decl.name.lexeme = initializerName)⟩ superclass)))
  refine get.bind fun m => ?_
  cases superclass with
  | none => exact named m.scope
  | some c => exact (onStore _).bind named

end Unreturned

structure ReturnSteps (w : Surroundings) (bound : Nat) : Prop where
  stmt : ∀ s m v m', (execStmt w bound s).outcome m = (.error (.returned v), m') ↔
    ∃ keyword value, Stmt.Returns w keyword value v bound s m m'
  stmts : ∀ ss m v m', (execStmts w bound ss).outcome m = (.error (.returned v), m') ↔
    ∃ keyword value, Stmt.ReturnsAmong w keyword value v bound ss m m'
  loop : ∀ condition body m v m',
    (execLoop w bound condition body).outcome m = (.error (.returned v), m') ↔
      ∃ keyword value, Stmt.ReturnsWhile w keyword value v bound condition body m m'

namespace ReturnSteps

variable {bound : Nat}

private theorem block_succ (h : ReturnSteps w bound) (body : List Stmt) (m : Machine) (v : Value)
    (m' : Machine) :
    (execStmt w (bound + 1) (.block body)).outcome m = (.error (.returned v), m') ↔
      ∃ keyword value, Stmt.Returns w keyword value v (bound + 1) (.block body) m m' := by
  unfold execStmt
  rw [returned_bind .get]
  constructor
  · rintro ⟨_, _, got, ended⟩
    obtain ⟨rfl, rfl⟩ : m = _ ∧ m = _ := by simpa [outcome_get] using got
    obtain ⟨scope, m₁, made, ended⟩ := (returned_bind (.onStore _)).mp ended
    obtain ⟨m₂, inside, rfl⟩ := returned_inScope.mp ended
    obtain ⟨keyword, value, inner⟩ := (h.stmts _ _ _ _).mp inside
    have kept : m₁.scope = m.scope := by rw [outcome_onStore] at made; cases made; rfl
    rw [kept]
    exact ⟨keyword, value, .block made inner⟩
  · rintro ⟨keyword, value, inner⟩
    cases inner with
    | block made inner =>
      rename_i m₁ m₂
      have kept : m₁.scope = m.scope := by rw [outcome_onStore] at made; cases made; rfl
      refine ⟨m, m, outcome_get m, (returned_bind (.onStore _)).mpr ⟨_, _, made, ?_⟩⟩
      rw [← kept]
      exact returned_inScope.mpr ⟨m₂, (h.stmts _ _ _ _).mpr ⟨keyword, value, inner⟩, rfl⟩

private theorem branch_succ (h : ReturnSteps w bound) (condition : Expr) (s : Stmt)
    (other : Option Stmt) (m : Machine) (v : Value) (m' : Machine) :
    (execStmt w (bound + 1) (.branch condition s other)).outcome m = (.error (.returned v), m') ↔
      ∃ keyword value,
        Stmt.Returns w keyword value v (bound + 1) (.branch condition s other) m m' := by
  unfold execStmt
  rw [returned_bind (.evalExpr w bound condition)]
  constructor
  · rintro ⟨c, m₁, decided, ended⟩
    by_cases truthy : c.truthy
    · rw [if_pos truthy] at ended
      obtain ⟨keyword, value, inner⟩ := (h.stmt _ _ _ _).mp ended
      exact ⟨keyword, value, .thenBranch decided truthy inner⟩
    · rw [if_neg truthy] at ended
      cases other with
      | none => cases ended
      | some s =>
        obtain ⟨keyword, value, inner⟩ := (h.stmt _ _ _ _).mp ended
        exact ⟨keyword, value, .elseBranch decided truthy inner⟩
  · rintro ⟨keyword, value, inner⟩
    cases inner with
    | thenBranch decided truthy inner =>
      refine ⟨_, _, decided, ?_⟩
      rw [if_pos truthy]
      exact (h.stmt _ _ _ _).mpr ⟨keyword, value, inner⟩
    | elseBranch decided truthy inner =>
      refine ⟨_, _, decided, ?_⟩
      rw [if_neg truthy]
      exact (h.stmt _ _ _ _).mpr ⟨keyword, value, inner⟩

private theorem stmt_succ (h : ReturnSteps w bound) (s : Stmt) (m : Machine) (v : Value)
    (m' : Machine) :
    (execStmt w (bound + 1) s).outcome m = (.error (.returned v), m') ↔
      ∃ keyword value, Stmt.Returns w keyword value v (bound + 1) s m m' := by
  cases s with
  | block body => exact h.block_succ body m v m'
  | branch condition s other => exact h.branch_succ condition s other m v m'
  | loop condition body =>
    unfold execStmt
    refine (h.loop condition body m v m').trans (exists₂_congr fun keyword value => ⟨.loop, ?_⟩)
    rintro ⟨⟩
    assumption
  | ret keyword value =>
    unfold execStmt
    rw [returned_bind (.evalOption w bound value)]
    constructor
    · rintro ⟨v', m₁, evaluated, ended⟩
      cases ended
      exact ⟨keyword, value, .ret evaluated⟩
    · rintro ⟨_, _, ⟨evaluated⟩⟩
      exact ⟨v, m', evaluated, rfl⟩
  | expression e =>
    unfold execStmt
    refine returned_iff_false ((Unreturned.evalExpr w bound e).bind fun _ => .pure _) ?_
    rintro ⟨_, _, ⟨⟩⟩
  | print e =>
    unfold execStmt
    refine returned_iff_false ((Unreturned.evalExpr w bound e).bind fun v => .print _ _) ?_
    rintro ⟨_, _, ⟨⟩⟩
  | var name initializer =>
    unfold execStmt
    refine returned_iff_false
      ((Unreturned.evalOption w bound initializer).bind fun v => .define _ _) ?_
    rintro ⟨_, _, ⟨⟩⟩
  | function decl =>
    unfold execStmt
    refine returned_iff_false (Unreturned.get.bind fun m => .define _ _) ?_
    rintro ⟨_, _, ⟨⟩⟩
  | classDecl name superclass methods =>
    unfold execStmt
    refine returned_iff_false ?_ (by rintro ⟨_, _, ⟨⟩⟩)
    cases superclass with
    | none => exact .declareClass name none methods
    | some e =>
      refine (Unreturned.evalExpr w bound e).bind fun v => ?_
      split
      · exact .declareClass name _ methods
      · exact .fault _ _

private theorem stmts_succ (h : ReturnSteps w bound) (ss : List Stmt) (m : Machine) (v : Value)
    (m' : Machine) :
    (execStmts w (bound + 1) ss).outcome m = (.error (.returned v), m') ↔
      ∃ keyword value, Stmt.ReturnsAmong w keyword value v (bound + 1) ss m m' := by
  unfold execStmts
  cases ss with
  | nil => exact returned_iff_false (.pure _) nofun
  | cons s ss =>
    have first := h.stmt s m v m'
    rw [outcome_bind]
    constructor
    · intro ended
      rcases outcome : (execStmt w bound s).outcome m with ⟨i | _, m₁⟩
      · rw [outcome] at ended
        obtain ⟨keyword, value, inner⟩ := first.mp (outcome.trans ended)
        exact ⟨keyword, value, .here inner⟩
      · rw [outcome] at ended
        obtain ⟨keyword, value, inner⟩ := (h.stmts ss m₁ v m').mp ended
        exact ⟨keyword, value, .behind outcome inner⟩
    · rintro ⟨keyword, value, inner⟩
      cases inner with
      | here inner => rw [first.mpr ⟨keyword, value, inner⟩]
      | behind outcome inner =>
        rw [outcome]
        exact (h.stmts ss _ v m').mpr ⟨keyword, value, inner⟩

private theorem loop_succ (h : ReturnSteps w bound) (condition : Expr) (body : Stmt) (m : Machine)
    (v : Value) (m' : Machine) :
    (execLoop w (bound + 1) condition body).outcome m = (.error (.returned v), m') ↔
      ∃ keyword value,
        Stmt.ReturnsWhile w keyword value v (bound + 1) condition body m m' := by
  unfold execLoop
  rw [returned_bind (.evalExpr w bound condition)]
  constructor
  · rintro ⟨c, m₁, decided, ended⟩
    by_cases truthy : c.truthy
    · rw [if_pos truthy, outcome_bind] at ended
      rcases outcome : (execStmt w bound body).outcome m₁ with ⟨i | _, m₂⟩
      · rw [outcome] at ended
        obtain ⟨keyword, value, inner⟩ := (h.stmt body m₁ v m').mp (outcome.trans ended)
        exact ⟨keyword, value, .here decided truthy inner⟩
      · rw [outcome] at ended
        obtain ⟨keyword, value, inner⟩ := (h.loop condition body m₂ v m').mp ended
        exact ⟨keyword, value, .later decided truthy outcome inner⟩
    · rw [if_neg truthy] at ended
      cases ended
  · rintro ⟨keyword, value, inner⟩
    cases inner with
    | here decided truthy inner =>
      refine ⟨_, _, decided, ?_⟩
      rw [if_pos truthy, outcome_bind, (h.stmt body _ v m').mpr ⟨keyword, value, inner⟩]
    | later decided truthy outcome inner =>
      refine ⟨_, _, decided, ?_⟩
      rw [if_pos truthy, outcome_bind, outcome]
      exact (h.loop condition body _ v m').mpr ⟨keyword, value, inner⟩

private theorem all (w : Surroundings) (bound : Nat) : ReturnSteps w bound := by
  induction bound with
  | zero =>
    constructor
    case stmt =>
      intro s m v m'
      unfold execStmt
      exact returned_iff_false (.failure _) nofun
    case stmts =>
      intro ss m v m'
      unfold execStmts
      exact returned_iff_false (.failure _) nofun
    case loop =>
      intro condition body m v m'
      unfold execLoop
      exact returned_iff_false (.failure _) nofun
  | succ bound ih => exact ⟨ih.stmt_succ, ih.stmts_succ, ih.loop_succ⟩

end ReturnSteps

theorem Unreturned.execStmt {s : Stmt} (sound : ∀ p ∈ s.places [], p.Sound) (w : Surroundings)
    (n : Nat) : Unreturned (execStmt w n s) := by
  rintro m v ended
  obtain ⟨keyword, value, inner⟩ := ((ReturnSteps.all w n).stmt s m v _).mp (Prod.ext ended rfl)
  obtain ⟨k, here⟩ := inner.placed []
  -- The rules ask for a function around every `return`, and around this one are only blocks.
  obtain ⟨c, around, function⟩ := (sound _ here).1
  rw [List.append_nil] at around
  obtain rfl := List.eq_of_mem_replicate around
  cases function

/-- Nor does one in which the resolver finds no fault. -/
theorem Unreturned.topLevel {s : Stmt} (faultless : ∀ e, .fault e ∉ Walk.stmt .top [] s)
    (w : Surroundings) (n : Nat) : Unreturned (LoxLang.execStmt w n s) := by
  have outside : Walk.Agrees [] [] := ⟨fun _ => rfl, iff_of_true rfl rfl⟩
  exact .execStmt ((Walk.stmt_clear outside s).mp (Walk.clear_of_not_fault faultless)).2 w n

namespace Interpreter

/-- Executes statements one after the other up to the first failure, with any other way to go on
where one of them ends with a `return`. -/
def executeOr (config : Config) (caught : Value → Interpreter → Except Failure Unit × Interpreter)
    (i : Interpreter) : List Stmt → Except Failure Unit × Interpreter
  | [] => (.ok (), i)
  | s :: ss =>
    match i.run (execStmt (i.surroundings config) config.bound s) with
    | (.ok (), i) => executeOr config caught i ss
    | (.error (.returned v), i) => caught v i
    | (.error (.failure f), i) => (.error f, i.atGlobals)

/-- Evaluates an expression, with any other way to go on where it ends with a `return`. -/
def evaluateOr (config : Config) (caught : Value → Interpreter → Except Failure Value × Interpreter)
    (i : Interpreter) (e : Expr) : Except Failure Value × Interpreter :=
  match i.run (evalExpr (i.surroundings config) config.bound e) with
  | (.ok v, i) => (.ok v, i)
  | (.error (.returned v), i) => caught v i
  | (.error (.failure f), i) => (.error f, i)

variable {config : Config}

private theorem execute_unreturned
    (caught : Value → Interpreter → Except Failure Unit × Interpreter) {ss : List Stmt}
    (stays : ∀ s ∈ ss, ∀ w n, Unreturned (execStmt w n s)) (i : Interpreter) :
    i.execute config ss = i.executeOr config caught ss := by
  induction ss generalizing i with
  | nil => rfl
  | cons s ss ih =>
    obtain ⟨here, behind⟩ := List.forall_mem_cons.mp stays
    have ends := here (i.surroundings config) config.bound i.machine
    rw [execute_cons, executeOr, run_eq]
    generalize (execStmt (i.surroundings config) config.bound s).outcome i.machine = ended
      at ends ⊢
    rcases ended with ⟨(f | v) | v, m⟩
    · rfl
    · exact absurd rfl (ends v)
    · exact ih behind { i with machine := m }

private theorem evaluate_unreturned
    (caught : Value → Interpreter → Except Failure Value × Interpreter) (i : Interpreter)
    (e : Expr) : i.evaluate config e = i.evaluateOr config caught e := by
  have ends := Unreturned.evalExpr (i.surroundings config) config.bound e i.machine
  rw [evaluate, evaluateOr, run_eq]
  generalize (evalExpr (i.surroundings config) config.bound e).outcome i.machine = ended at ends ⊢
  rcases ended with ⟨(f | v) | v, m⟩
  · rfl
  · exact absurd rfl (ends v)
  · rfl

end Interpreter

/-- No expression and no call ends with a `return`, whatever the state.  A statement ends with one
just where its execution comes to a `return` of its own, which has a value and stands in it with
only blocks around.  In a program that the resolver accepts no statement does, whatever it is
executed with; so for programs and for expressions it makes no difference how an end by `return` is
treated at the top level. -/
theorem returns_end_only_own_bodies :
    (∀ w bound, (∀ e, Unreturned (evalExpr w bound e)) ∧
      ∀ c args, Unreturned (applyCallable w bound c args)) ∧
    (∀ w bound s m v m', (execStmt w bound s).outcome m = (.error (.returned v), m') ↔
      ∃ keyword value, Stmt.Returns w keyword value v bound s m m' ∧
        ∀ around, ∃ n, ⟨.stmt (.ret keyword value), List.replicate n .block ++ around⟩ ∈
          s.places around) ∧
    (∀ D program, (resolve D program).errors = [] →
      (∀ s ∈ program, ∀ w bound, Unreturned (execStmt w bound s)) ∧
        ∀ config caught (i : Interpreter),
          i.execute config program = i.executeOr config caught program) ∧
    ∀ config caught (i : Interpreter) e, i.evaluate config e = i.evaluateOr config caught e := by
  refine ⟨fun w bound => ⟨Unreturned.evalExpr w bound, Unreturned.applyCallable w bound⟩,
    fun w bound s m v m' => ?_, fun D program accepted => ?_,
    fun config caught i e => i.evaluate_unreturned caught e⟩
  · refine ((ReturnSteps.all w bound).stmt s m v m').trans (exists₂_congr fun keyword value => ?_)
    exact ⟨fun inner => ⟨inner, inner.placed⟩, And.left⟩
  · have sound := (Walk.program_clear program).mp
      (Walk.clear_of_not_fault (Walk.not_fault_program accepted))
    have stays : ∀ s ∈ program, ∀ w bound, Unreturned (execStmt w bound s) :=
      fun s member => .execStmt fun p here => sound p (Stmt.mem_placesAll member here)
    exact ⟨stays, fun config caught i => i.execute_unreturned caught stays⟩

/-- A `return` inside of a block, a branch and a loop ends the call of the function around them, and
no statement at the top level. -/
theorem nested_return_ends_own_body :
    let source := "fun f() \x7b while (true) \x7b if (true) return true; \x7d \x7d print f();"
    let program := (readProgram ⟨0, 0⟩ source).result.toOption.getD []
    program.length = 2 ∧ (resolve ∅ program).errors = [] ∧
      (∀ s ∈ program, ∀ w bound, Unreturned (execStmt w bound s)) ∧
      ∀ config caught (i : Interpreter),
        i.execute config program = i.executeOr config caught program := by
  intro source program
  have accepted : (resolve ∅ program).errors = [] := by decide +kernel
  exact ⟨by decide +kernel, accepted, returns_end_only_own_bodies.2.2.1 ∅ program accepted⟩

end LoxLang
