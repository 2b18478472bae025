import LoxLang.Proofs.DeclaredNames
import LoxLang.Proofs.OperatorResults
import LoxLang.Proofs.StoredValues
import LoxLang.Proofs.TreeProperties

/-!
What executions keep.  An invariant tells what all trees are that are executed and what all values
are that a program gets hold of, how events lead from one state to another, and which failures there
are.  It is one of all executions if each single step keeps it.
-/

set_option autoImplicit false
set_option relaxedAutoImplicit false

namespace LoxLang

open EvalM Event

/-- What is to be kept along executions. -/
structure Invariant where
  tree : TreeProperty
  /-- What all values are, while something is stored. -/
  value : Store → Value → Prop
  /-- What is known of the events that are passed. -/
  event : List Event → Prop
  /-- How events lead from one state to another, if only some names are declared in the present
  frame. -/
  path : List String → Machine → List Event → Machine → Prop
  failure : Failure → Prop

namespace Invariant

/-- All values in variables and fields are what the invariant tells. -/
def Stored (I : Invariant) (m : Store) : Prop := ∀ v, m.Keeps v → I.value m v

/-- How it comes that a method is bound to an object: it is taken as a property of the object, or by
`super` where the object is `this`, or the object has just been made and is set up. -/
inductive Binding (I : Invariant) (w : Surroundings) : Closure → Object → Machine → Prop where
  | property {bound : Nat} {e : Expr} {name : Token} {f : Closure} {o : Object} {m m' : Machine} :
    (evalExpr w bound e).outcome m = (.ok (.object o), m') →
    m'.store.field? o name.lexeme = none → o.kind.method? name.lexeme = some f →
    I.event (ofExpr w (bound + 1) (.get e name) m) → Binding I w f o m'
  | super {bound : Nat} {id : ExprId} {keyword name : Token} {inner : Nat} {c : Class} {f : Closure}
    {o : Object} {m : Machine} : w.distances[id]? = some (inner + 1) →
    m.store.getAt? m.scope (inner + 1) "super" = some (.callable (.ofClass c)) →
    m.store.getAt? m.scope inner "this" = some (.object o) → c.method? name.lexeme = some f →
    I.event (ofExpr w (bound + 1) (.super id keyword name) m) → Binding I w f o m
  | construction {bound : Nat} {k : Class} {args : List Value} {f : Closure} {m : Machine} :
    k.method? initializerName = some f → I.event (ofApply w (bound + 1) (.ofClass k) args m) →
    Binding I w f (m.store.newObject k).1 { m with store := (m.store.newObject k).2 }

/-- The declarations that give a name to a value at hand. -/
inductive Declaration : Stmt → Token → Value → Machine → Prop where
  | var (name : Token) (initializer : Option Expr) (v : Value) (m : Machine) :
    Declaration (.var name initializer) name v m
  | function (decl : FunctionDecl) (m : Machine) :
    Declaration (.function decl) decl.name (.callable (.function ⟨decl, m.scope, false⟩)) m

/-- How it comes that a class is given its name in some state: by a declaration without a superclass,
or right behind the superclass expression, once there is the scope around its methods. -/
inductive Naming (I : Invariant) (w : Surroundings) (name : Token) (methods : List FunctionDecl) :
    Option Expr → Option Class → Scope → Machine → Prop where
  | root {m : Machine} : I.event (ofClass (.classDecl name none methods) name none methods m) →
    Naming I w name methods none none m.scope m
  | below {bound : Nat} {e : Expr} {c : Class} {m m' : Machine} :
    (evalExpr w bound e).outcome m = (.ok (.callable (.ofClass c)), m') →
    I.event (ofExpr w bound e m ++
      ofClass (.classDecl name (some e) methods) name (some c) methods m') →
    Naming I w name methods (some e) (some c) (m'.store.newScope (inheriting c) (some m'.scope)).1
      { m' with store := (m'.store.newScope (inheriting c) (some m'.scope)).2 }

/-- How events are put together, on the way from one state to another. -/
structure Paths (I : Invariant) (w : Surroundings) : Prop where
  left : ∀ evs {evs'}, I.event (evs ++ evs') → I.event evs
  right : ∀ evs {evs'}, I.event (evs ++ evs') → I.event evs'
  still : ∀ {own} {m m' : Machine}, m'.store = m.store → m'.scope = m.scope → m'.depth = m.depth →
    m'.printed = m.printed → I.path own m [] m'
  trans : ∀ {own m evs m₁ evs' m'}, I.path own m evs m₁ → I.path own m₁ evs' m' →
    I.path own m (evs ++ evs') m'
  mono : ∀ {own own' m evs m'}, I.path own m evs m' → own ⊆ own' → I.path own' m evs m'
  within : ∀ {own own'} {m : Machine} {evs} {m₁ : Machine} {t : Scope} {evs' m'},
    I.path own m evs m₁ → I.path own' { m₁ with scope := t } evs' m' →
    m.store.frames.size ≤ t.frame → t.frame < m₁.store.frames.size →
    I.path own m (evs ++ evs') { m' with scope := m.scope }
  calls : ∀ {own} {m : Machine} {paren evs m'},
    (∀ limit, w.config.callLimit = some limit → m.depth < limit) →
    I.path own { m with depth := m.depth + 1 } evs m' →
    I.path own m (.begins paren { m with depth := m.depth + 1 } ::
      (evs ++ [.ends { m' with depth := m'.depth - 1 }])) { m' with depth := m'.depth - 1 }
  later : ∀ {own} {m : Machine} {evs} {m' : Machine} {v}, I.path own m evs m' →
    I.value m.store v → I.value m'.store v

/-- What follows for values from what they are made of. -/
structure Values (I : Invariant) : Prop where
  constant : ∀ {m v}, v.IsConstant → I.value m v
  kind : ∀ {m o}, I.value m (.object o) → I.value m (.callable (.ofClass o.kind))
  closure : ∀ {m f}, I.value m (.callable (.function f)) → I.tree.decl f.decl
  method : ∀ {m k name f}, I.value m (.callable (.ofClass k)) → k.method? name = some f →
    I.tree.decl f.decl

/-- The failures that there may be. -/
structure Failures (I : Invariant) (w : Surroundings) : Prop where
  exhausted : I.failure .exhausted
  ordinary : ∀ {line} {f : RuntimeFault}, f.isOrdinary → I.failure (.fault ⟨line, f⟩)
  overflow : ∀ {line}, w.config.callLimit ≠ none → I.failure (.fault ⟨line, .stackOverflow⟩)
  unary : ∀ {operator operand v f}, I.tree.expr (.unary operator operand) →
    applyUnary operator.kind v = .error f → I.failure (.fault ⟨operator.line, f⟩)
  binary : ∀ {operator left right a b f}, I.tree.expr (.binary operator left right) →
    applyBinary operator.kind a b = .error f → I.failure (.fault ⟨operator.line, f⟩)
  sink : ∀ {text}, w.config.sink = .broken text → I.failure (.sink text)

/-- An invariant that each single step keeps. -/
structure Kept (I : Invariant) (w : Surroundings) : Prop
    extends I.Paths w, I.Values, I.Failures w where
  function : ∀ {decl} {m : Machine}, I.tree.decl decl →
    I.event [.declares (.function decl) (.callable (.function ⟨decl, m.scope, false⟩)) m] →
    I.value m.store (.callable (.function ⟨decl, m.scope, false⟩))
  evaluated : ∀ {own} {m : Machine} {e}, I.Stored m.store → I.tree.expr e →
    I.path own m [.evaluated w.distances e m] m
  takes : ∀ {own} {m : Machine} {v name}, I.Stored m.store → I.value m.store v →
    I.path own m [.takes v name m] m
  prints : ∀ {own} {m : Machine} {line printed}, I.Stored m.store →
    (w.config.sink = .working → printed = m.printed.push line) →
    I.path own m [.prints line m] { m with printed }
  misses : ∀ {own} {m : Machine} {id name value v}, I.Stored m.store → I.value m.store v →
    m.target? w.distances id name = none →
    I.path own m [.assigns w.distances (.assign id name value) v m] m
  assigns : ∀ {own} {m : Machine} {id name value v f}, I.Stored m.store → I.value m.store v →
    m.target? w.distances id name = some f →
    I.path own m [.assigns w.distances (.assign id name value) v m]
      { m with store := m.store.setLocal f name.lexeme v }
  declares : ∀ {own} {m : Machine} {s name v}, I.Stored m.store → I.value m.store v →
    Declaration s name v m → name.lexeme ∈ own →
    I.path own m [.declares s v m] { m with store := m.store.define m.scope name.lexeme v }
  sets : ∀ {own} {m : Machine} {o} {name : Token} {v}, I.Stored m.store →
    I.value m.store (.object o) → I.value m.store v →
    I.path own m [.sets o name v m] { m with store := m.store.setField o name.lexeme v }
  enters : ∀ {own} {m : Machine} {origin : Origin} {b : Bindings} {s : Scope}, I.Stored m.store →
    origin.isText → I.tree.stmts origin.body →
    (∀ (x : String) v, b[x]? = some v → I.value m.store v) →
    I.path own m (entering origin (m.store.newScope b (some s)).1 b)
      { m with store := (m.store.newScope b (some s)).2 }
  newObject : ∀ {own} {m : Machine} {k}, I.Stored m.store → I.value m.store (.callable (.ofClass k)) →
    I.path own m [] { m with store := (m.store.newObject k).2 } ∧
      I.value (m.store.newObject k).2 (.object (m.store.newObject k).1)
  binds : ∀ {own} {m : Machine} {f o}, I.Stored m.store → I.value m.store (.object o) →
    I.tree.decl f.decl → Binding I w f o m → I.event (ofBind f o m) →
    I.path own m (ofBind f o m) { m with store := (m.store.bind f o).2 } ∧
      I.value (m.store.bind f o).2 (.callable (.function (m.store.bind f o).1))
  inherits : ∀ {own bound e} {before m : Machine} {name : Token} {c methods}, I.Stored m.store →
    I.value m.store (.callable (.ofClass c)) →
    (evalExpr w bound e).outcome before = (.ok (.callable (.ofClass c)), m) →
    I.event (ofExpr w bound e before ++
      ofClass (.classDecl name (some e) methods) name (some c) methods m) →
    let opened := m.store.newScope (inheriting c) (some m.scope)
    I.path own m (entering (.superclass name methods) opened.1 (inheriting c))
      { m with store := opened.2 }
  names : ∀ {own} {m : Machine} {name : Token} {clause superclass methods scope}, I.Stored m.store →
    (∀ k ∈ superclass, I.value m.store (.callable (.ofClass k))) →
    (∀ d ∈ methods, I.tree.decl d) → name.lexeme ∈ own →
    Naming I w name methods clause superclass scope m →
    let v := .callable (.ofClass (.below (.of m.store.nextClass name methods scope) superclass))
    let store := m.store.newClass.2.define m.scope name.lexeme v
    I.path own m (ofClassIn (.classDecl name clause methods) name superclass methods scope m)
      { m with store } ∧ I.value store v

theorem Failures.any {I : Invariant} {w : Surroundings} (all : ∀ f, I.failure f) :
    I.Failures w where
  exhausted := all _
  ordinary _ := all _
  overflow _ := all _
  unary _ _ := all _
  binary _ _ := all _
  sink _ := all _

theorem Values.any {I : Invariant} (values : ∀ m v, I.value m v) (decls : ∀ d, I.tree.decl d) :
    I.Values where
  constant _ := values _ _
  kind _ := values _ _
  closure _ := decls _
  method _ _ := decls _

/-! What is stored. -/

section

variable {I : Invariant} {m : Store}

private theorem Stored.local? (h : I.Stored m) {f : FrameId} {x : String} {v : Value}
    (held : m.local? f x = some v) : I.value m v :=
  h v (.inl ⟨f, x, held⟩)

theorem Stored.getAt? (h : I.Stored m) {s : Scope} {d : Nat} {x : String} {v : Value}
    (held : m.getAt? s d x = some v) : I.value m v := by
  obtain ⟨t, _, held⟩ := Option.bind_eq_some_iff.mp held
  exact h.local? held

theorem Stored.get? (h : I.Stored m) {s : Scope} {x : String} {v : Value}
    (held : m.get? s x = some v) : I.value m v := by
  obtain ⟨f, _, held⟩ := List.exists_of_findSome?_eq_some held
  exact h.local? held

theorem Stored.field? (h : I.Stored m) {o : Object} {x : String} {v : Value}
    (held : m.field? o x = some v) : I.value m v :=
  h v (.inr ⟨o, x, held⟩)

end

/-! Executions. -/

/-- How an execution ends: with something of which is known what it is, with a value that is
returned, or with a failure. -/
def Ends {α : Type} (I : Invariant) (P : Store → α → Prop) (m : Store) : Except Interrupt α → Prop
  | .ok a => P m a
  | .error (.returned v) => I.value m v
  | .error (.failure f) => I.failure f

/-- What an execution comes to that passes some events. -/
structure Leads {α : Type} (I : Invariant) (own : List String) (P : Store → α → Prop) (m : Machine)
    (evs : List Event) (out : Except Interrupt α × Machine) : Prop where
  path : I.path own m evs out.2
  stored : I.Stored out.2.store
  ends : I.Ends P out.2.store out.1

def Keeps {α : Type} (I : Invariant) (own : List String) (P : Store → α → Prop) (act : EvalM α)
    (m : Machine) (evs : List Event) : Prop :=
  I.Stored m.store → I.event evs → I.Leads own P m evs (act.outcome m)

namespace Keeps

variable {I : Invariant} {α : Type} {own : List String} {P : Store → α → Prop} {m : Machine}
  {evs : List Event}

theorem knowing {act : EvalM α} (h : I.event evs → I.Keeps own P act m evs) :
    I.Keeps own P act m evs :=
  fun stored known => h known stored known

theorem get_bind {next : Machine → EvalM α} (h : I.Keeps own P (next m) m evs) :
    I.Keeps own P (get >>= next) m evs := by
  unfold Keeps
  rw [outcome_bind, outcome_get]
  exact h

theorem store_bind {next : Store → EvalM α} (h : I.Keeps own P (next m.store) m evs) :
    I.Keeps own P (EvalM.store >>= next) m evs := by
  unfold Keeps
  rw [outcome_bind, outcome_store]
  exact h

theorem catchReturn {act : EvalM Unit} (h : I.Keeps own (fun _ _ => True) act m evs) :
    I.Keeps own (fun m r => ∀ v ∈ r, I.value m v) (catchReturn act) m evs := by
  intro stored known
  obtain ⟨path, stored', ends⟩ := h stored known
  rw [outcome_catchReturn]
  rcases ended : act.outcome m with ⟨(f | v) | _, m'⟩
  all_goals rw [ended] at path stored' ends
  · exact ⟨path, stored', ends⟩
  · exact ⟨path, stored', fun u same => Option.mem_some_iff.mp same ▸ ends⟩
  · exact ⟨path, stored', nofun⟩

end Keeps

namespace Kept

variable {I : Invariant} {w : Surroundings} (K : I.Kept w)
  {α β : Type} {own own' : List String} {P : Store → α → Prop} {Q : Store → β → Prop}
  {act : EvalM α} {next : α → EvalM β} {m m' : Machine} {evs : List Event}

include K

theorem stored (h : I.Stored m.store) (path : I.path own m evs m')
    (kept : ∀ v, m'.store.Keeps v → m.store.Keeps v ∨ I.value m'.store v) : I.Stored m'.store :=
  fun v keeps => (kept v keeps).elim (fun before => K.later path (h v before)) id

theorem storedWith {v : Value} (h : I.Stored m.store) (path : I.path own m evs m')
    (given : I.value m.store v) (kept : ∀ u, m'.store.Keeps u → m.store.Keeps u ∨ u = v) :
    I.Stored m'.store := by
  refine K.stored h path fun u keeps => (kept u keeps).imp_right ?_
  rintro rfl
  exact K.later path given

theorem look {r : Except Interrupt α} (outcome : act.outcome m = (r, m'))
    (store : m'.store = m.store) (scope : m'.scope = m.scope) (depth : m'.depth = m.depth)
    (printed : m'.printed = m.printed) (ends : I.Stored m.store → I.Ends P m.store r) :
    I.Keeps own P act m [] := by
  intro stored _
  rw [outcome]
  exact ⟨K.still store scope depth printed, store ▸ stored, store ▸ ends stored⟩

theorem pure {a : α} (given : I.Stored m.store → P m.store a) :
    I.Keeps own P (Pure.pure a) m [] :=
  K.look rfl rfl rfl rfl rfl given

theorem failing {f : Failure} (outcome : act.outcome m = (.error (.failure f), m))
    (known : I.failure f) : I.Keeps own P act m [] :=
  K.look outcome rfl rfl rfl rfl fun _ => known

theorem fault (token : Token) {f : RuntimeFault} (ordinary : f.isOrdinary) :
    I.Keeps own P (EvalM.fault token f) m [] :=
  K.failing rfl (K.ordinary ordinary)

theorem wider (h : I.Keeps own P act m evs) (more : own ⊆ own') : I.Keeps own' P act m evs :=
  fun stored known => { h stored known with path := K.mono (h stored known).path more }

theorem bind {evs' : α → Machine → List Event} (first : I.Keeps own P act m evs)
    (second : ∀ a m', act.outcome m = (.ok a, m') → I.path own m evs m' → P m'.store a →
      I.event (evs ++ evs' a m') → I.Keeps own Q (next a) m' (evs' a m')) :
    I.Keeps own Q (act >>= next) m (evs ++ behind act evs' m) := by
  intro stored known
  obtain ⟨path, stored', ends⟩ := first stored (K.left _ known)
  rw [outcome_bind]
  simp only [behind] at known ⊢
  rcases ended : act.outcome m with ⟨(f | v) | a, m'⟩
  all_goals rw [ended] at path stored' ends known
  case ok =>
    obtain ⟨path', stored'', ends'⟩ := second a m' ended path ends known stored' (K.right _ known)
    exact ⟨K.trans path path', stored'', ends'⟩
  all_goals
    rw [List.append_nil]
    exact ⟨path, stored', ends⟩

theorem after {evs' : α → Machine → List Event} (first : I.Keeps own P act m [])
    (second : ∀ a m', act.outcome m = (.ok a, m') → I.path own m [] m' → P m'.store a →
      I.event (evs' a m') → I.Keeps own Q (next a) m' (evs' a m')) :
    I.Keeps own Q (act >>= next) m (behind act evs' m) :=
  K.bind first second

theorem andThen (first : I.Keeps own P act m evs)
    (second : ∀ a m', act.outcome m = (.ok a, m') → I.path own m evs m' → P m'.store a →
      I.Keeps own Q (next a) m' []) : I.Keeps own Q (act >>= next) m evs := by
  have both : I.Keeps own Q (act >>= next) m (evs ++ behind act (fun _ _ => []) m) :=
    K.bind first fun a m' ended path given _ => second a m' ended path given
  rwa [behind_nothing, List.append_nil] at both

theorem evaluating {e : Expr} (text : I.tree.expr e) (h : I.Keeps own P act m evs) :
    I.Keeps own P act m (.evaluated w.distances e m :: evs) := by
  intro stored known
  obtain ⟨path, stored', ends⟩ := h stored (K.right [.evaluated w.distances e m] known)
  exact ⟨K.trans (K.evaluated stored text) path, stored', ends⟩

theorem calling {paren : Token} (below : ∀ limit, w.config.callLimit = some limit → m.depth < limit)
    (h : I.Keeps own P act { m with depth := m.depth + 1 } evs) :
    I.Keeps own P (asCall act) m (.begins paren { m with depth := m.depth + 1 } ::
      (evs ++ [.ends ((asCall act).outcome m).2])) := by
  intro stored known
  have inner : I.event evs :=
    K.left _ (K.right [.begins paren { m with depth := m.depth + 1 }] known)
  obtain ⟨path, stored', ends⟩ := h stored inner
  exact ⟨K.calls below path, stored', ends⟩

theorem entering (origin : Origin) (isText : origin.isText) (text : I.tree.stmts origin.body)
    {b : Bindings} (values : ∀ (x : String) v, b[x]? = some v → I.value m.store v) (s : Scope)
    (h : (∀ v, I.value m.store v → I.value (m.store.newScope b (some s)).2 v) →
      I.Keeps own' P act { m with
        store := (m.store.newScope b (some s)).2
        scope := (m.store.newScope b (some s)).1 } evs) :
    I.Keeps own P (onStore (·.newScope b (some s)) >>= fun t => inScope t act) m
      (Event.entering origin (m.store.newScope b (some s)).1 b ++ evs) := by
  intro stored known
  have enters : I.path own m _ _ := K.enters (s := s) stored isText text values
  have there := K.stored stored enters fun v keeps =>
    (Store.keeps_newScope (s := some s) keeps).imp_right
      fun ⟨x, held⟩ => K.later enters (values x v held)
  obtain ⟨path, stored', ends⟩ := h (fun v => K.later enters) there (K.right _ known)
  have frame := Store.frame_newScope m.store b (some s)
  have size := Store.size_newScope m.store b (some s)
  refine ⟨K.within enters path (Nat.le_of_eq frame.symm) ?_, stored', ends⟩
  exact frame ▸ size ▸ Nat.lt_succ_self _

end Kept

end Invariant

end LoxLang
