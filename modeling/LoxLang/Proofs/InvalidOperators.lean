import LoxLang.Proofs.ErrorPhases
import LoxLang.Proofs.MethodLookup
import LoxLang.Proofs.RegularTrees

/-!
Only operators with a rule are ever applied.  An execution can stop at an operator without a rule
only if it evaluates an expression whose operator does not fit.  In a session there is no such
expression: all trees come from the parser, and functions and classes keep them as they are.
-/

set_option autoImplicit false
set_option relaxedAutoImplicit false

namespace LoxLang

open EvalM Event

/-! Operators. -/

def RuntimeFault.isInvalidOperator : RuntimeFault → Bool
  | .invalidUnary | .invalidBinary => true
  | _ => false

private theorem RuntimeFault.isInvalidOperator_of_message {f : RuntimeFault}
    (h : f.message = "Invalid unary operator." ∨ f.message = "Invalid binary operator.") :
    f.isInvalidOperator = true := by
  have first : f.message.toList.head? = some 'I' := by
    rcases h with h | h <;> simp [h]
  unfold message at first
  cases f with
  | invalidUnary | invalidBinary => rfl
  | _ => simp at first

private theorem RuntimeFault.isInvalidOperator_of_isOrdinary {f : RuntimeFault} (h : f.isOrdinary) :
    f.isInvalidOperator = false := by
  cases f with
  | invalidUnary | invalidBinary => cases h
  | _ => rfl

private theorem applyUnary_invalid_iff {operator : Kind} {v : Value} :
    (∃ f, applyUnary operator v = .error f ∧ f.isInvalidOperator = true) ↔
      operator ∉ unaryKinds := by
  unfold applyUnary
  constructor
  · rintro ⟨f, failed, invalid⟩ member
    split at failed
    · split at failed <;> cases failed
      cases invalid
    · cases failed
    · simp_all [unaryKinds]
  · intro other
    split
    · exact absurd (by decide) other
    · exact absurd (by decide) other
    · exact ⟨.invalidUnary, rfl, rfl⟩

private theorem applyBinary_invalid_iff {operator : Kind} {a b : Value} :
    (∃ f, applyBinary operator a b = .error f ∧ f.isInvalidOperator = true) ↔
      operator ∉ binaryKinds := by
  unfold applyBinary
  constructor
  · rintro ⟨f, failed, invalid⟩ member
    split at failed
    case h_1 => simp [addValues_error failed, RuntimeFault.isInvalidOperator] at invalid
    case h_9 | h_10 => cases failed
    case h_11 => simp_all [binaryKinds]
    all_goals simp [onNumbers_error failed, RuntimeFault.isInvalidOperator] at invalid
  · intro other
    split
    case h_11 => exact ⟨.invalidBinary, rfl, rfl⟩
    all_goals exact absurd (by decide) other

/-- A logical operation with a rule of its own for `or` and for `and`, and none for other
operators. -/
def evalLogical (w : Surroundings) (bound : Nat) (operator : Token) (left right : Expr) :
    EvalM Value := do
  let a ← evalExpr w bound left
  match operator.kind with
  | .orWord => if a.truthy then pure a else evalExpr w bound right
  | .andWord => if a.truthy then evalExpr w bound right else pure a
  | _ => fault operator .invalidBinary

private theorem evalExpr_logical {operator : Token} (fits : operator.kind ∈ logicalKinds)
    (w : Surroundings) (bound : Nat) (left right : Expr) :
    evalExpr w (bound + 1) (.logical operator left right) =
      evalLogical w bound operator left right := by
  rw [evalExpr, evalLogical]
  refine bind_congr fun a => ?_
  rcases List.mem_cons.mp fits with isAnd | isOr
  · rw [isAnd]
    cases a.truthy <;> rfl
  · rw [List.mem_singleton.mp isOr]
    cases a.truthy <;> rfl

/-! Executions. -/

def Failure.isInvalidOperator : Failure → Bool
  | .fault e => e.fault.isInvalidOperator
  | .sink _ | .exhausted => false

def Class.Regular (k : Class) : Prop := k.Methods fun f => ∀ s ∈ f.decl.body, s.Regular

def Value.Regular : Value → Prop
  | .callable (.function f) => ∀ s ∈ f.decl.body, s.Regular
  | .callable (.ofClass k) => k.Regular
  | .object o => o.kind.Regular
  | _ => True

private theorem Value.IsConstant.regular {v : Value} (h : v.IsConstant) : v.Regular := by
  cases v with
  | callable c => cases h
  | object o => cases h
  | _ => trivial

def Invariant.regular : Invariant where
  tree := .regular
  value _ v := v.Regular
  event _ := True
  path _ _ _ _ := True
  failure f := f.isInvalidOperator = false

private theorem Invariant.regular_kept (w : Surroundings) : regular.Kept w where
  left _ _ _ := trivial
  right _ _ _ := trivial
  still _ _ _ _ := trivial
  trans _ _ := trivial
  mono _ _ := trivial
  within _ _ _ _ := trivial
  calls _ _ := trivial
  later _ h := h
  constant := Value.IsConstant.regular
  kind := id
  closure := id
  method h found := (Class.Methods.method h found).1
  exhausted := rfl
  ordinary ordinary := RuntimeFault.isInvalidOperator_of_isOrdinary ordinary
  overflow _ := rfl
  unary text failed := Bool.eq_false_iff.mpr fun invalid =>
    applyUnary_invalid_iff.mp ⟨_, failed, invalid⟩ text.here
  binary text failed := Bool.eq_false_iff.mpr fun invalid =>
    applyBinary_invalid_iff.mp ⟨_, failed, invalid⟩ text.here
  sink _ := rfl
  function text _ := text
  evaluated _ _ := trivial
  takes _ _ := trivial
  prints _ _ := trivial
  misses _ _ _ := trivial
  assigns _ _ _ := trivial
  declares _ _ _ _ := trivial
  sets _ _ _ := trivial
  enters _ _ _ _ := trivial
  newObject _ kind := ⟨trivial, kind⟩
  binds _ _ text _ _ := ⟨trivial, text⟩
  inherits _ _ _ _ := trivial
  names _ above text _ _ := ⟨trivial, Class.Methods.below above text⟩

/-! Trees in a session. -/

namespace Session

private theorem reads_regular (s : Session) (r : Request) : s.Reads .regular r := by
  refine ⟨fun program taken => ?_, fun e taken => ?_⟩
  · obtain ⟨source, _, read, _⟩ := executed?_eq taken
    exact parseProgram_regular (readProgram_ok read).2
  · obtain ⟨source, _, read⟩ := evaluated?_eq taken
    exact parseExpression_regular (congrArg Parsed.result (readExpression_ok read).2)

private theorem evaluated_regular {history : List Request} {D : Distances} {e : Expr} {m : Machine}
    (event : .evaluated D e m ∈ initial.eventsAll history) : e.Regular :=
  (all_made .regular reads_regular history _ event).2

private theorem answers_regular {s : Session} (globals : s.interpreter.machine.scope = .globals)
    (stored : Invariant.regular.Stored s.interpreter.machine.store) (rs : List Request)
    {f : Failure} :
    ∀ a ∈ s.answers rs, a.error? = some (.failed f) → f.isInvalidOperator = false := by
  induction rs generalizing s with
  | nil => exact List.forall_mem_nil _
  | cons r rs ih =>
    have kept :=
      perform_kept (fun _ => Invariant.regular_kept _) globals stored (reads_regular s r) trivial
    exact List.forall_mem_cons.mpr
      ⟨perform_failure (fun _ => Invariant.regular_kept _) globals stored (reads_regular s r) trivial,
        ih (perform_scope globals r) kept.stored⟩

end Session

private theorem Value.Made.regular {evs : List Event} {n : ClassId} {v : Value}
    (h : v.Made .regular evs n) : v.Regular := by
  cases v with
  | callable c =>
    cases c with
    | native f => trivial
    | function f => exact h.2
    | ofClass k => exact Class.Made.methods h
  | object o => exact Class.Made.methods h
  | _ => trivial

/-- Whatever tokens are parsed, the operators in the tree are among those that the nodes around them
are made for, and the superclasses are given by names.  The functions and the classes that programs
get hold of in a session keep such trees, so nothing else is ever evaluated; there a logical operator
other than `or` is `and`, and no operation fails for want of a rule for its operator. -/
theorem operators_have_rules (history : List Request) :
    (∀ labels tokens lastLine,
      (∀ program, (parseProgram labels tokens lastLine).result = .ok program →
        ∀ s ∈ program, s.Everywhere Expr.OperatorFits Stmt.SuperclassNamed) ∧
      ∀ e, (parseExpression labels tokens lastLine).result = .ok e →
        e.Everywhere Expr.OperatorFits) ∧
    (∀ v m, Session.Obtained history v m → v.Regular) ∧
    (∀ D e m, .evaluated D e m ∈ Session.initial.eventsAll history →
      e.Everywhere Expr.OperatorFits ∧
      ∀ operator left right, e = .logical operator left right →
        ∀ w bound, evalExpr w (bound + 1) e = evalLogical w bound operator left right) ∧
    ∀ a ∈ Session.initial.answers history, ∀ error, a.error? = some (.failed (.fault error)) →
      error.fault.message ≠ "Invalid unary operator." ∧
        error.fault.message ≠ "Invalid binary operator." := by
  have stored : Invariant.regular.Stored Session.initial.interpreter.machine.store :=
    fun _ keeps => Store.eq_of_keeps_initial keeps ▸ trivial
  refine ⟨fun labels tokens lastLine => ⟨fun _ => parseProgram_regular,
    fun _ => parseExpression_regular⟩, fun v m obtained => ?_, fun D e m event => ?_,
    fun a answer error failed => ?_⟩
  · exact (obtained.made Session.reads_regular).regular
  · have regular := Session.evaluated_regular event
    refine ⟨regular, ?_⟩
    rintro operator left right rfl w bound
    exact evalExpr_logical regular.here w bound left right
  · have valid : error.fault.isInvalidOperator = false :=
      Session.answers_regular rfl stored history a answer failed
    have other : ∀ {text : String},
        text = "Invalid unary operator." ∨ text = "Invalid binary operator." →
        error.fault.message ≠ text := by
      rintro text wording rfl
      rw [RuntimeFault.isInvalidOperator_of_message wording] at valid
      cases valid
    exact ⟨other (.inl rfl), other (.inr rfl)⟩

def Expr.isLogical (kind : Kind) : Expr → Bool
  | .logical operator _ _ => operator.kind = kind
  | _ => false

def Session.hasClass (s : Session) (x : String) : Bool :=
  ((s.interpreter.machine.store.local? Scope.globals.frame x).bind Value.class?).isSome

private theorem Session.exists_of_hasClass {s : Session} {x : String} (h : s.hasClass x) :
    ∃ v, s.interpreter.machine.store.local? Scope.globals.frame x = some v ∧ v.class?.isSome := by
  obtain ⟨k, found⟩ := Option.isSome_iff_exists.mp h
  obtain ⟨v, held, isClass⟩ := Option.bind_eq_some_iff.mp found
  exact ⟨v, held, Option.isSome_iff_exists.mpr ⟨k, isClass⟩⟩

/-- A method with an `and` is declared in one run.  In a later one it is called on an object of a
class below, and fails at the operand of its `-`. -/
theorem inherited_method_has_known_operators :
    let config : Config := ⟨none, .working, fun _ => 0, 100⟩
    let classes := "class A \x7b f(x) \x7b return x and -x; \x7d \x7d class B < A \x7b\x7d "
    let history : List Request :=
      [⟨config, .run (classes ++ "var b = B();")⟩, ⟨config, .run "b.f(true);"⟩]
    (∃ v m, Session.Obtained history v m ∧ v.class?.isSome ∧ v.Regular) ∧
      (∃ D operator left right m',
        .evaluated D (.logical operator left right) m' ∈ Session.initial.eventsAll history ∧
        operator.kind = .andWord ∧ ∀ w bound,
          evalExpr w (bound + 1) (.logical operator left right) =
            evalLogical w bound operator left right) ∧
      ∃ a ∈ Session.initial.answers history, ∃ error, a.error? = some (.failed (.fault error)) ∧
        error.fault.message ≠ "Invalid unary operator." := by
  intro config classes history
  obtain ⟨_, stored, trees, valid⟩ := operators_have_rules history
  refine ⟨?_, ?_, ?_⟩
  · have object : (Session.initial.performAll history).hasClass "b" := by decide +kernel
    obtain ⟨v, held, isClass⟩ := Session.exists_of_hasClass object
    have obtained : Session.Obtained history v _ := .left (.inl ⟨_, _, held⟩)
    exact ⟨v, _, obtained, isClass, stored v _ obtained⟩
  · have passed : (Session.initial.eventsAll history).any
        (·.evaluated?.any (Expr.isLogical .andWord)) := by decide +kernel
    obtain ⟨ev, event, wanted⟩ := List.any_eq_true.mp passed
    cases ev with
    | evaluated D e m' =>
      cases e with
      | logical operator left right =>
        have isAnd : operator.kind = .andWord := of_decide_eq_true wanted
        exact ⟨D, operator, left, right, m', event, isAnd, (trees D _ m' event).2 _ _ _ rfl⟩
      | _ => cases wanted
    | _ => cases wanted
  · let error : RuntimeError := ⟨1, .operandNotNumber⟩
    have failed : (Session.initial.answers history).any
        (·.error? = some (.failed (.fault error))) := by decide +kernel
    obtain ⟨a, answer, wanted⟩ := List.any_eq_true.mp failed
    have told := of_decide_eq_true wanted
    exact ⟨a, answer, error, told, (valid a answer error told).1⟩

end LoxLang
