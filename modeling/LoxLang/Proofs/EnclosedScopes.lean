import LoxLang.Proofs.EnclosedStores
import LoxLang.Proofs.LocalScopes
import LoxLang.Proofs.ScopedSessions
import LoxLang.Proofs.SuperScopes

/-!
Static scopes with one more scope around.  The walk over a tree inside of a block meets what the
walk over the tree itself does, in the same scopes with that of the block around them.  A name that
is found in one of the inner scopes is found there at the same distance; a name that is not found
there is found in the scope of the block if it is declared there by now.  So if a program declares
the names of its own before it uses them, each reference means the same inside of the block.
-/

set_option autoImplicit false
set_option relaxedAutoImplicit false

namespace LoxLang

def Lifts (Δ : StaticStack) (notes notes' : List Note) : Prop :=
  ∀ e Γ, .met e Γ ∈ notes → .met e (Γ ++ Δ) ∈ notes'

namespace Lifts

variable {Δ : StaticStack} {notes notes' more more' : List Note}

private theorem faults (h : ∀ n ∈ notes, ∃ e, n = .fault e) : Lifts Δ notes notes' := by
  intro e Γ member
  obtain ⟨_, same⟩ := h _ member
  cases same

private theorem met (e : Expr) (Γ : StaticStack) : Lifts Δ [.met e Γ] [.met e (Γ ++ Δ)] := by
  intro e' Γ' member
  obtain ⟨rfl, rfl⟩ := Note.met.inj (List.mem_singleton.mp member)
  exact List.mem_singleton_self _

private theorem append (h : Lifts Δ notes notes') (h' : Lifts Δ more more') :
    Lifts Δ (notes ++ more) (notes' ++ more') := by
  intro e Γ member
  rcases List.mem_append.mp member with member | member
  · exact List.mem_append_left _ (h e Γ member)
  · exact List.mem_append_right _ (h' e Γ member)

end Lifts

namespace StaticStack

variable {Γ Δ : StaticStack}

/-! Inside of other scopes the innermost one is the same whatever lies around. -/

private theorem mark_append (inside : Γ ≠ []) (name : String) (complete : Bool) :
    (Γ ++ Δ : StaticStack).mark name complete = Γ.mark name complete ++ Δ := by
  cases Γ with
  | nil => exact absurd rfl inside
  | cons σ Γ => rfl

private theorem declare_append (inside : Γ ≠ []) (name : Token) :
    (Γ ++ Δ : StaticStack).declare name = Γ.declare name ++ Δ := by
  have has : (Γ ++ Δ : StaticStack).has name.lexeme = Γ.has name.lexeme := by
    cases Γ with
    | nil => exact absurd rfl inside
    | cons σ Γ => rfl
  unfold declare
  rw [has]
  split
  · rfl
  · exact mark_append inside _ _

private theorem introduce_append (inside : Γ ≠ []) (name : Token) :
    (Γ ++ Δ : StaticStack).introduce name = Γ.introduce name ++ Δ := by
  rw [StaticStack.introduce, declare_append inside]
  exact mark_append (declare_ne_nil inside name) _ _

private theorem introduceAll_append (inside : Γ ≠ []) (names : List Token) :
    (Γ ++ Δ : StaticStack).introduceAll names = Γ.introduceAll names ++ Δ := by
  induction names generalizing Γ with
  | nil => rfl
  | cons name names ih =>
    rw [introduceAll, introduce_append inside]
    exact ih (introduce_ne_nil inside name)

private theorem calling_append (decl : FunctionDecl) :
    (Γ ++ Δ : StaticStack).calling decl = Γ.calling decl ++ Δ :=
  introduceAll_append (Γ := ⟨.call decl, ∅⟩ :: Γ) (by simp) decl.params

private theorem calling_ne_nil (decl : FunctionDecl) : Γ.calling decl ≠ [] :=
  (has_introduceAll (Γ := ⟨.call decl, ∅⟩ :: Γ) (by simp) decl.params).1

private theorem distance?_append (Γ : StaticStack) (σ : StaticFrame) (name : String) :
    (Γ ++ [σ] : StaticStack).distance? name =
      (Γ.distance? name).or (if σ.names.contains name then some Γ.length else none) := by
  unfold distance?
  rw [List.findIdx?_append]
  cases contains : σ.names.contains name <;> simp [List.findIdx?_cons, contains]

private theorem distance?_lt {name : String} {d : Nat} (found : Γ.distance? name = some d) :
    d < Γ.length :=
  (List.findIdx?_eq_some_iff_getElem.mp found).1

end StaticStack

mutual

/-- A statement that is no declaration declares nothing in its branches either. -/
theorem Stmt.declared_eq_nil : ∀ s : Stmt, s.WellFormed → s.declaresNothing → s.declared = []
  | .branch _ thenBranch elseBranch, wellFormed, _ => by
    rw [Stmt.declared, Stmt.declared_eq_nil thenBranch wellFormed.2.1.1 wellFormed.2.1.2]
    exact Stmt.declaredOption_eq_nil elseBranch wellFormed.2.2
  | .loop _ body, wellFormed, _ => Stmt.declared_eq_nil body wellFormed.2.1 wellFormed.2.2
  | .expression _, _, _ | .print _, _, _ | .block _, _, _ | .ret _ _, _, _ => rfl
  | .var _ _, _, nothing | .function _, _, nothing | .classDecl _ _ _, _, nothing => by
    cases nothing

private theorem Stmt.declaredOption_eq_nil : ∀ s : Option Stmt, Stmt.WellFormedOption s →
    Stmt.declaredOption s = []
  | none, _ => rfl
  | some s, wellFormed => Stmt.declared_eq_nil s wellFormed.1 wellFormed.2

end

namespace Walk

variable {Δ : StaticStack}

mutual

private theorem after_append : ∀ {Γ : StaticStack}, Γ ≠ [] → ∀ s, after (Γ ++ Δ) s = after Γ s ++ Δ
  | _, inside, .var name _ => StaticStack.introduce_append inside name
  | _, inside, .function decl => StaticStack.introduce_append inside decl.name
  | _, inside, .classDecl name _ _ => StaticStack.introduce_append inside name
  | _, inside, .branch _ thenBranch elseBranch => by
    rw [after, after_append inside thenBranch]
    exact after?_append (has_after inside thenBranch).1 elseBranch
  | _, inside, .loop _ body => after_append inside body
  | _, _, .expression _ | _, _, .print _ | _, _, .block _ | _, _, .ret _ _ => rfl

private theorem after?_append : ∀ {Γ : StaticStack}, Γ ≠ [] → ∀ s, after?
    (Γ ++ Δ) s = after? Γ s ++ Δ
  | _, _, none => rfl
  | _, inside, some s => after_append inside s

end

mutual

private theorem expr_lifts (enclosing : ClassContext) (Γ : StaticStack) :
    ∀ e, Lifts Δ (expr enclosing Γ e) (expr enclosing (Γ ++ Δ) e)
  | .literal _ => .faults (List.forall_mem_nil _)
  | .grouping inner | .unary _ inner | .get inner _ => expr_lifts enclosing Γ inner
  | .binary _ left right | .logical _ left right =>
    (expr_lifts enclosing Γ left).append (expr_lifts enclosing Γ right)
  | .variable _ name => (Lifts.faults (read_faults Γ name)).append (.met _ Γ)
  | .assign _ _ value => (expr_lifts enclosing Γ value).append (.met _ Γ)
  | .call callee _ args => (expr_lifts enclosing Γ callee).append (exprs_lifts enclosing Γ args)
  | .set object _ value => (expr_lifts enclosing Γ value).append (expr_lifts enclosing Γ object)
  | .this _ _ => by
    cases enclosing with
    | outside => exact .faults (by simp [expr])
    | plain => exact .met _ Γ
    | derived => exact .met _ Γ
  | .super _ _ _ => by
    refine Lifts.append (.faults ?_) (.met _ Γ)
    cases enclosing <;> simp

private theorem exprs_lifts (enclosing : ClassContext) (Γ : StaticStack) :
    ∀ es, Lifts Δ (exprs enclosing Γ es) (exprs enclosing (Γ ++ Δ) es)
  | [] => .faults (List.forall_mem_nil _)
  | e :: es => (expr_lifts enclosing Γ e).append (exprs_lifts enclosing Γ es)

end

private theorem expr?_lifts (enclosing : ClassContext) (Γ : StaticStack) (e : Option Expr) :
    Lifts Δ (expr? enclosing Γ e) (expr? enclosing (Γ ++ Δ) e) := by
  cases e with
  | none => exact .faults (List.forall_mem_nil _)
  | some e => exact expr_lifts enclosing Γ e

mutual

private theorem stmt_lifts (context : BindingContext) : ∀ {Γ : StaticStack}, Γ ≠ [] →
    ∀ s, Lifts Δ (stmt context Γ s) (stmt context (Γ ++ Δ) s)
  | Γ, _, .expression e | Γ, _, .print e => expr_lifts context.enclosing Γ e
  | Γ, inside, .var name initializer => by
    rw [stmt, stmt, StaticStack.declare_append inside]
    exact (Lifts.faults (declared_faults Γ name)).append (expr?_lifts _ _ initializer)
  | Γ, _, .block body => stmts_lifts context (Γ := ⟨.block body, ∅⟩ :: Γ) (by simp) body
  | Γ, inside, .branch condition thenBranch elseBranch => by
    rw [stmt, stmt, after_append inside]
    exact ((expr_lifts context.enclosing Γ condition).append
      (stmt_lifts context inside thenBranch)).append
        (stmt?_lifts context (has_after inside thenBranch).1 elseBranch)
  | Γ, inside, .loop condition body =>
    (expr_lifts context.enclosing Γ condition).append (stmt_lifts context inside body)
  | Γ, inside, .function decl => by
    rw [stmt, stmt, StaticStack.introduce_append inside]
    exact (Lifts.faults (declared_faults Γ decl.name)).append (function_lifts _ _ _ decl)
  | Γ, _, .ret keyword value =>
    (Lifts.faults (returned_faults context.function keyword value.isSome)).append
      (expr?_lifts context.enclosing Γ value)
  | Γ, inside, .classDecl name none methods => by
    rw [stmt, stmt, StaticStack.introduce_append inside]
    exact (Lifts.faults (declared_faults Γ name)).append (functions_lifts _ _ methods)
  | Γ, inside, .classDecl name (some e) methods => by
    rw [stmt, stmt, StaticStack.introduce_append inside]
    exact (((Lifts.faults (declared_faults Γ name)).append
      (.faults (inherited_faults name e))).append (expr_lifts _ _ e)).append
        (functions_lifts _ ((Γ.introduce name).inheriting name methods) methods)

private theorem stmt?_lifts (context : BindingContext) : ∀ {Γ : StaticStack}, Γ ≠ [] →
    ∀ s, Lifts Δ (stmt? context Γ s) (stmt? context (Γ ++ Δ) s)
  | _, _, none => .faults (List.forall_mem_nil _)
  | _, inside, some s => stmt_lifts context inside s

private theorem stmts_lifts (context : BindingContext) : ∀ {Γ : StaticStack}, Γ ≠ [] →
    ∀ ss, Lifts Δ (stmts context Γ ss) (stmts context (Γ ++ Δ) ss)
  | _, _, [] => .faults (List.forall_mem_nil _)
  | _, inside, s :: ss => by
    rw [stmts, stmts, after_append inside]
    exact (stmt_lifts context inside s).append
      (stmts_lifts context (has_after inside s).1 ss)

private theorem function_lifts (enclosing : ClassContext) (context : FunctionContext)
    (Γ : StaticStack) :
    ∀ decl, Lifts Δ (function enclosing context Γ decl) (function enclosing context (Γ ++ Δ) decl)
  | .mk site name params body => by
    rw [function, function, StaticStack.calling_append]
    exact (Lifts.faults (declaredAll_faults params _)).append
      (stmts_lifts _ (StaticStack.calling_ne_nil _) body)

private theorem functions_lifts (enclosing : ClassContext) (Γ : StaticStack) :
    ∀ decls, Lifts Δ (functions enclosing Γ decls) (functions enclosing (Γ ++ Δ) decls)
  | [] => .faults (List.forall_mem_nil _)
  | .mk site name params body :: decls =>
    (function_lifts enclosing _ (Γ.receiving (.mk site name params body)) _).append
      (functions_lifts enclosing Γ decls)

end

mutual

private theorem stmt_lifts_nil (context : BindingContext) : ∀ s :
    Stmt, s.WellFormed → s.declaresNothing →
    Lifts Δ (stmt context [] s) (stmt context Δ s)
  | .expression e, _, _ | .print e, _, _ => expr_lifts context.enclosing [] e
  | .block body, _, _ => stmts_lifts context (Γ := [⟨.block body, ∅⟩]) (by simp) body
  | .branch condition thenBranch elseBranch, wellFormed, _ => by
    obtain ⟨_, thenFormed, elseFormed⟩ := wellFormed
    rw [stmt, stmt, after_eq [] thenBranch thenFormed.1 thenFormed.2,
      after_eq Δ thenBranch thenFormed.1 thenFormed.2]
    exact ((expr_lifts context.enclosing [] condition).append
      (stmt_lifts_nil context thenBranch thenFormed.1 thenFormed.2)).append
        (stmt?_lifts_nil context elseBranch elseFormed)
  | .loop condition body, wellFormed, _ =>
    (expr_lifts context.enclosing [] condition).append
      (stmt_lifts_nil context body wellFormed.2.1 wellFormed.2.2)
  | .ret keyword value, _, _ =>
    (Lifts.faults (returned_faults context.function keyword value.isSome)).append
      (expr?_lifts context.enclosing [] value)
  | .var _ _, _, nothing | .function _, _, nothing | .classDecl _ _ _, _, nothing => by
    cases nothing

private theorem stmt?_lifts_nil (context : BindingContext) : ∀ s :
    Option Stmt, Stmt.WellFormedOption s →
    Lifts Δ (stmt? context [] s) (stmt? context Δ s)
  | none, _ => .faults (List.forall_mem_nil _)
  | some s, wellFormed => stmt_lifts_nil context s wellFormed.1 wellFormed.2

end

private theorem after_block (σ : StaticFrame) (s : Stmt) : ∃ σ', after [σ] s = [σ'] ∧
    ∀ name, σ'.names.contains name ↔ name ∈ s.declared ∨ σ.names.contains name := by
  have tail := Resolve.tail_after [σ] s
  obtain ⟨inside, has⟩ := has_after (Γ := [σ]) (by simp) s
  cases behind : after [σ] s with
  | nil => exact absurd behind inside
  | cons σ' Γ =>
    rw [behind] at tail has
    exact ⟨σ', congrArg (σ' :: ·) tail, has⟩

private theorem declare_block (σ : StaticFrame) (name : Token) :
    ∃ σ', StaticStack.declare name [σ] = [σ'] ∧
      ∀ other, σ'.names.contains other ↔ other = name.lexeme ∨ σ.names.contains other := by
  unfold StaticStack.declare
  split <;> rename_i has
  · refine ⟨σ, rfl, fun other => ⟨.inr, ?_⟩⟩
    rintro (rfl | member)
    · exact has
    · exact member
  · exact ⟨_, rfl, fun other => StaticStack.has_mark (Γ := [σ]) (by simp) name.lexeme other false⟩

private theorem stmt_lifts_block (context : BindingContext) {s : Stmt} (wellFormed : s.WellFormed)
    (σ : StaticFrame) :
    ∃ σ', Lifts [σ'] (stmt context [] s) (stmt context [σ] s) ∧
      ∀ name, σ'.names.contains name ↔ name ∈ s.declared ∨ σ.names.contains name := by
  obtain ⟨σ', behind, names⟩ := after_block σ s
  cases s with
  | var name initializer =>
    obtain ⟨σ', begun, names⟩ := declare_block σ name
    refine ⟨σ', ?_, fun other => (names other).trans (or_congr_left List.mem_singleton.symm)⟩
    rw [stmt, stmt, begun]
    exact (Lifts.faults (declared_faults [] name)).append (expr?_lifts _ [] initializer)
  | function decl =>
    have introduced : StaticStack.introduce decl.name [σ] = [σ'] := behind
    refine ⟨σ', ?_, names⟩
    rw [stmt, stmt, introduced]
    exact (Lifts.faults (declared_faults [] decl.name)).append (function_lifts _ _ [] decl)
  | classDecl name superclass methods =>
    have introduced : StaticStack.introduce name [σ] = [σ'] := behind
    refine ⟨σ', ?_, names⟩
    cases superclass with
    | none =>
      rw [stmt, stmt, introduced]
      exact (Lifts.faults (declared_faults [] name)).append (functions_lifts _ [] methods)
    | some e =>
      rw [stmt, stmt, introduced]
      exact (((Lifts.faults (declared_faults [] name)).append
        (.faults (inherited_faults name e))).append (expr_lifts _ [] e)).append
          (functions_lifts _ (StaticStack.inheriting name methods []) methods)
  | expression _ | print _ | block _ | branch _ _ _ | loop _ _ | ret _ _ =>
    refine ⟨σ, stmt_lifts_nil context _ wellFormed rfl, fun name => ?_⟩
    simp [Stmt.declared_eq_nil _ wellFormed rfl]

end Walk

/-! Programs that declare their names before they use them. -/

def freeNames (notes : List Note) : List String :=
  notes.filterMap fun
    | .met e Γ => (e.reference?.filter fun r => (Γ.distance? r.2.lexeme).isNone).map (·.2.lexeme)
    | .fault _ => none

def Stmt.needs (s : Stmt) : List String :=
  (freeNames (Walk.stmt .top [] s)).filter (· ∉ s.fixed)

def DeclaredFirst : List Stmt → Prop
  | [] => True
  | s :: ss => (∀ name ∈ s.needs, name ∉ Stmt.declaredAll (s :: ss)) ∧ DeclaredFirst ss

instance : ∀ program : List Stmt, Decidable (DeclaredFirst program)
  | [] => isTrue trivial
  | _ :: ss =>
    have := instDecidableDeclaredFirst ss
    inferInstanceAs (Decidable (_ ∧ _))

private theorem Stmt.fixed_or_needs {s : Stmt} {e : Expr} {Γ : StaticStack} {id : ExprId}
    {name : Token} (met : .met e Γ ∈ Walk.stmt .top [] s) (refers : e.reference? = some (id, name))
    (unbound : Γ.distance? name.lexeme = none) :
    name.lexeme ∈ s.fixed ∨ name.lexeme ∈ s.needs := by
  have free : name.lexeme ∈ freeNames (Walk.stmt .top [] s) :=
    List.mem_filterMap.mpr ⟨_, met, by simp [refers, unbound]⟩
  refine or_iff_not_imp_left.mpr fun other => List.mem_filter.mpr ⟨free, ?_⟩
  exact decide_eq_true other

theorem Stmt.declared_of_fixed {s : Stmt} {name : String} (h : name ∈ s.fixed) :
    name ∈ s.declared :=
  s.declared_perm.mem_iff.mpr (List.mem_append_right _ h)

/-- The distances of a program whose numbers are distinct are those at which the walk finds the
names. -/
theorem foreseen_resolve {program : List Stmt} (distinct : (Stmt.labelsAll program).Nodup) :
    Foreseen (Met (Walk.program program)) (resolve ∅ program).distances := by
  intro e Γ met id name refers
  rw [resolve_eq]
  have once := nodup_metLabels (Walk.stmts_labels .top [] program) distinct
  exact Distances.record_met once met refers Std.TreeMap.getElem?_emptyc

namespace Rebinding

variable {R : Rebinding} {N : List String}

def AcceptsAll (R : Rebinding) : List String → List Stmt → Prop
  | _, [] => True
  | N, s :: ss => Accepted (R.Meets (s.fixed ++ N)) none (Walk.stmt .top [] s) ∧
      R.AcceptsAll (s.declared ++ N) ss

private theorem binds {s : Stmt} {ss : List Stmt} {σ : StaticFrame}
    (names : ∀ name, σ.names.contains name ↔ name ∈ s.declared ∨ name ∈ N)
    (first : ∀ name ∈ s.needs, name ∉ Stmt.declaredAll (s :: ss))
    (all : ∀ name ∈ R.declared, name ∈ N ∨ name ∈ Stmt.declaredAll (s :: ss)) {e : Expr}
    {Γ : StaticStack} (met : .met e Γ ∈ Walk.stmt .top [] s) {id : ExprId} {name : Token}
    (refers : e.reference? = some (id, name)) (plain : R.plain[id]? = Γ.distance? name.lexeme)
    (braced : R.braced[id]? = (Γ ++ [σ] : StaticStack).distance? name.lexeme) :
    R.Binds (s.fixed ++ N) Γ.length id name.lexeme := by
  rw [StaticStack.distance?_append] at braced
  cases found : Γ.distance? name.lexeme with
  | some d =>
    rw [found] at plain braced
    exact .inner (StaticStack.distance?_lt found) plain braced
  | none =>
    rw [found, Option.none_or] at braced
    have free := Stmt.fixed_or_needs met refers found
    by_cases here : σ.names.contains name.lexeme
    · rw [if_pos here] at braced
      refine .moved (plain.trans found) braced (List.mem_append.mpr ?_)
      refine ((names _).mp here).imp_left fun own => free.resolve_right fun needed => ?_
      exact first _ needed (List.mem_append_left _ own)
    · rw [if_neg here] at braced
      refine .global (plain.trans found) braced fun declared => ?_
      rcases all _ declared with before | later
      · exact here ((names _).mpr (.inr before))
      · rcases free with own | needed
        · exact here ((names _).mpr (.inl (Stmt.declared_of_fixed own)))
        · exact first _ needed later

private theorem meets_of_binds {e : Expr} {Γ : StaticStack} (placed : Note.Placed (.met e Γ))
    (plain : ∀ id name, e.reference? = some (id, name) → R.plain[id]? = Γ.distance? name.lexeme)
    (binds : ∀ id name, e.reference? = some (id, name) → R.Binds N Γ.length id name.lexeme) :
    R.Meets N e Γ := by
  refine ⟨binds, fun id keyword method same => ?_⟩
  subst same
  obtain ⟨spelled, inSubclass⟩ := placed
  obtain ⟨_, _, _, _, _, inMethod⟩ := inSubclass id keyword method rfl
  have spelled : keyword.lexeme = "super" := spelled
  have found := inMethod.distance?
  rw [← spelled] at found
  have plain := (plain id keyword rfl).trans found
  cases binds id keyword rfl with
  | inner lt plain braced => exact ⟨_, lt, plain, braced⟩
  | moved none _ _ => simp [plain] at none
  | global none _ _ => simp [plain] at none

theorem acceptsAll {ss : List Stmt} (wellFormed : Stmt.WellFormedAll ss)
    (correct : ∀ e, .fault e ∉ Walk.stmts .top [] ss)
    (placed : ∀ n ∈ Walk.stmts .top [] ss, n.Placed)
    (plain : Foreseen (Met (Walk.stmts .top [] ss)) R.plain) {σ : StaticFrame}
    (braced : Foreseen (Met (Walk.stmts .top [σ] ss)) R.braced)
    (names : ∀ name, σ.names.contains name ↔ name ∈ N) (first : DeclaredFirst ss)
    (all : ∀ name ∈ R.declared, name ∈ N ∨ name ∈ Stmt.declaredAll ss) : R.AcceptsAll N ss := by
  induction ss generalizing N σ with
  | nil => trivial
  | cons s ss ih =>
    obtain ⟨σ', lifts, inside⟩ := Walk.stmt_lifts_block .top wellFormed.1 σ
    obtain ⟨τ, behind, after⟩ := Walk.after_block σ s
    rw [Walk.stmts, Walk.after_globals] at correct placed plain
    rw [Walk.stmts, behind] at braced
    have known : ∀ name, name ∈ s.declared ∨ σ.names.contains name ↔ name ∈ s.declared ++ N :=
      fun name => (or_congr_right (names name)).trans List.mem_append.symm
    refine ⟨.of_met (fun e Γ met => ?_) fun e fault => correct e (List.mem_append_left _ fault), ?_⟩
    · refine meets_of_binds (placed _ (List.mem_append_left _ met))
        (plain e Γ (List.mem_append_left _ met)) fun id name refers => ?_
      exact binds (fun x => (inside x).trans ((known x).trans List.mem_append)) first.1 all met
        refers (plain e Γ (List.mem_append_left _ met) id name refers)
        (braced e _ (List.mem_append_left _ (lifts e Γ met)) id name refers)
    · refine ih wellFormed.2 (fun e fault => correct e (List.mem_append_right _ fault))
        (fun n member => placed n (List.mem_append_right _ member))
        (fun e Γ met => plain e Γ (List.mem_append_right _ met))
        (fun e Γ met => braced e Γ (List.mem_append_right _ met))
        (fun name => (after name).trans (known name)) first.2 fun name declared => ?_
      rcases all name declared with before | later
      · exact .inl (List.mem_append_right _ before)
      · rw [Stmt.declaredAll_cons, List.mem_append] at later
        exact later.imp_left (List.mem_append_left _)

end Rebinding

end LoxLang
