import LoxLang.Resolve
import LoxLang.Proofs.LaterLines

/-!
What the steps of the resolver do to its state, and what holds of two walks over trees that differ
in nothing but their numbers and lines: a relation between the states that every step keeps is kept
by the walks.
-/

set_option autoImplicit false
set_option relaxedAutoImplicit false

namespace LoxLang

open Std (TreeMap)

def BindingError.later (k : Nat) (e : BindingError) : BindingError :=
  { e with token := e.token.later k }

def BindingError.reline (line : Nat → Nat) (e : BindingError) : BindingError :=
  { e with token := e.token.reline line }

theorem BindingError.map_later_zero (errors : List BindingError) :
    errors.map (BindingError.later 0) = errors :=
  List.map_id errors

namespace Resolve

def after (walk : ResolveM Unit) (s : ResolveState) : ResolveState := (walk.run s).2

theorem after_pure (s : ResolveState) : after (pure ()) s = s := rfl

theorem after_bind (first : ResolveM Unit) (second : Unit → ResolveM Unit) (s : ResolveState) :
    after (first >>= second) s = after (second ()) (after first s) := rfl

theorem after_get_bind (next : ResolveState → ResolveM Unit) (s : ResolveState) :
    after (get >>= next) s = after (next s) s := rfl

private theorem after_modify (f : ResolveState → ResolveState) (s : ResolveState) :
    after (modify f) s = f s := rfl

private theorem after_report (token : Token) (fault : BindingFault) (s : ResolveState) :
    after (report token fault) s = { s with errors := s.errors ++ [⟨token, fault⟩] } := rfl

theorem after_record (id : ExprId) (name : Token) (s : ResolveState) :
    after (Resolve.bind id name) s =
      { s with distances := ((s.scopes.findIdx? (·.contains name.lexeme)).map
          (s.distances.insert id)).getD s.distances } := by
  rw [Resolve.bind, after_modify]
  cases s.scopes.findIdx? (·.contains name.lexeme) <;> rfl

theorem after_inScope (walk : ResolveM Unit) (s : ResolveState) :
    after (inScope walk) s =
      let inner := after walk { s with scopes := ∅ :: s.scopes }
      { inner with scopes := inner.scopes.tail } := rfl

structure Keeps (line : Nat → Nat) (E : ExprId → ExprId → Prop)
    (R : ResolveState → ResolveState → Prop) : Prop where
  scopes : ∀ {s s'}, R s s' → s'.scopes = s.scopes
  change : ∀ {s s'}, R s s' → ∀ scopes errors,
    R { s with scopes, errors := s.errors ++ errors }
      { s' with scopes, errors := s'.errors ++ errors.map (BindingError.reline line) }
  insert : ∀ {s s'}, R s s' → ∀ {id id'}, E id id' → ∀ d,
    R { s with distances := s.distances.insert id d }
      { s' with distances := s'.distances.insert id' d }

def Paired (R : ResolveState → ResolveState → Prop) (walk walk' : ResolveM Unit) : Prop :=
  ∀ ⦃s s'⦄, R s s' → R (after walk s) (after walk' s')

namespace Paired

variable {line : Nat → Nat} {E : ExprId → ExprId → Prop} {R : ResolveState → ResolveState → Prop}
  {first first' second second' walk walk' : ResolveM Unit}

private theorem pure : Paired R (pure ()) (pure ()) := fun _ _ h => h

private theorem bind (h : Paired R first first') (h' : Paired R second second') :
    Paired R (first >>= fun _ => second) (first' >>= fun _ => second') :=
  fun _ _ hs => h' (h hs)

variable (keeps : Keeps line E R)

include keeps

private theorem get {next next' : ResolveState → ResolveM Unit}
    (h : ∀ s s', s'.scopes = s.scopes → Paired R (next s) (next' s')) :
    Paired R (get >>= next) (get >>= next') :=
  fun _ _ hs => h _ _ (keeps.scopes hs) hs

private theorem report (token : Token) (fault : BindingFault) :
    Paired R (report token fault) (Resolve.report (token.reline line) fault) := by
  intro s s' hs
  have h := keeps.change hs s.scopes [⟨token, fault⟩]
  rw [after_report, after_report]
  rcases s' with ⟨scopes, distances, errors⟩
  obtain rfl : scopes = s.scopes := keeps.scopes hs
  exact h

private theorem mark (name : String) (complete : Bool) :
    Paired R (mark name complete) (Resolve.mark name complete) := by
  rintro ⟨scopes, distances, errors⟩ ⟨scopes', distances', errors'⟩ hs
  obtain rfl : scopes' = scopes := keeps.scopes hs
  cases scopes' with
  | nil => exact hs
  | cons scope outer =>
    have h := keeps.change hs (scope.insert name complete :: outer) []
    simp only [List.map_nil, List.append_nil] at h
    exact h

private theorem declare (name : Token) :
    Paired R (declare name) (Resolve.declare (name.reline line)) := by
  refine get keeps fun s s' same => ?_
  rw [same, Token.reline_lexeme]
  split
  · exact report keeps _ _
  · exact mark keeps _ _

private theorem introduce (name : Token) :
    Paired R (introduce name) (Resolve.introduce (name.reline line)) :=
  (declare keeps name).bind (mark keeps _ _)

private theorem introduceAll (names : List Token) :
    Paired R (introduceAll names) (Resolve.introduceAll (names.map (Token.reline line))) := by
  induction names with
  | nil => exact pure
  | cons name names ih => exact (introduce keeps name).bind ih

private theorem inScope (h : Paired R walk walk') : Paired R (inScope walk)
    (Resolve.inScope walk') := by
  rintro ⟨scopes, distances, errors⟩ ⟨scopes', distances', errors'⟩ hs
  obtain rfl : scopes' = scopes := keeps.scopes hs
  have entered := keeps.change hs (∅ :: scopes') []
  simp only [List.map_nil, List.append_nil] at entered
  have left := h entered
  rw [after_inScope, after_inScope]
  have same := keeps.scopes left
  have h := keeps.change left (after walk ⟨∅ :: scopes', distances, errors⟩).scopes.tail []
  simp only [List.map_nil, List.append_nil] at h
  simp only [same]
  exact h

private theorem recordAt {id id' : ExprId} (name : Token) (number : E id id') :
    Paired R (Resolve.bind id name) (Resolve.bind id' (name.reline line)) := by
  rintro ⟨scopes, distances, errors⟩ ⟨scopes', distances', errors'⟩ hs
  obtain rfl : scopes' = scopes := keeps.scopes hs
  rw [after_record, after_record]
  simp only [Token.reline_lexeme]
  cases scopes'.findIdx? (·.contains name.lexeme) with
  | none => exact hs
  | some d => exact keeps.insert hs number d

end Paired

variable {line : Nat → Nat} {E : ExprId → ExprId → Prop} {R : ResolveState → ResolveState → Prop}
  {f : ExprId → ExprId} {g : SiteId → SiteId}

def Placed (E : ExprId → ExprId → Prop) (f : ExprId → ExprId) (ls : List Label) : Prop :=
  ∀ id, .expr id ∈ ls → E id (f id)

private theorem Placed.left {ls ls' : List Label} (h : Placed E f (ls ++ ls')) : Placed E f ls :=
  fun id hid => h id (List.mem_append_left _ hid)

private theorem Placed.right {ls ls' : List Label} (h : Placed E f (ls ++ ls')) : Placed E f ls' :=
  fun id hid => h id (List.mem_append_right _ hid)

mutual

private theorem expr_paired (keeps : Keeps line E R) (enclosing : ClassContext) :
    ∀ e, Placed E f (Expr.labels e) →
    Paired R (expr enclosing e) (expr enclosing ((e.reline line).renumber f))
  | .literal _, _ => .pure
  | .grouping inner, h => expr_paired keeps enclosing inner h
  | .unary _ operand, h => expr_paired keeps enclosing operand h
  | .binary _ left right, h | .logical _ left right, h =>
    (expr_paired keeps enclosing left h.left).bind (expr_paired keeps enclosing right h.right)
  | .variable id name, h => by
    refine Paired.get keeps fun s s' same => ?_
    have number : E id (f id) := h id List.mem_cons_self
    rw [same, Token.reline_lexeme]
    split
    · exact (Paired.report keeps _ _).bind (.recordAt keeps name number)
    · exact Paired.pure.bind (.recordAt keeps name number)
  | .assign id name value, h =>
    (expr_paired keeps enclosing value h.left).bind
      (.recordAt keeps name (h.right id List.mem_cons_self))
  | .call callee _ args, h =>
    (expr_paired keeps enclosing callee h.left).bind (exprs_paired keeps enclosing args h.right)
  | .get object _, h => expr_paired keeps enclosing object h
  | .set object _ value, h =>
    (expr_paired keeps enclosing value h.right).bind (expr_paired keeps enclosing object h.left)
  | .this id keyword, h => by
    have number : E id (f id) := h id List.mem_cons_self
    cases enclosing with
    | outside => exact .report keeps _ _
    | plain => exact .recordAt keeps keyword number
    | derived => exact .recordAt keeps keyword number
  | .super id keyword _, h => by
    have number : E id (f id) := h id List.mem_cons_self
    cases enclosing with
    | outside => exact (Paired.report keeps _ _).bind (.recordAt keeps keyword number)
    | plain => exact (Paired.report keeps _ _).bind (.recordAt keeps keyword number)
    | derived => exact Paired.pure.bind (.recordAt keeps keyword number)

private theorem exprs_paired (keeps : Keeps line E R) (enclosing : ClassContext) :
    ∀ es, Placed E f (Expr.labelsAll es) →
    Paired R (exprs enclosing es) (exprs enclosing (Expr.renumberAll f (Expr.relineAll line es)))
  | [], _ => .pure
  | e :: es, h =>
    (expr_paired keeps enclosing e h.left).bind
      (exprs_paired keeps enclosing es h.right)

end

private theorem expr?_paired (keeps : Keeps line E R) (enclosing : ClassContext) (e : Option Expr)
    (h : Placed E f (Expr.labelsOption e)) :
    Paired R (expr? enclosing e)
      (expr? enclosing ((e.map (Expr.reline line)).map (Expr.renumber f))) := by
  cases e with
  | none => exact .pure
  | some e => exact expr_paired keeps enclosing e h

private theorem checkReturn_paired (keeps : Keeps line E R) (context : FunctionContext)
    (keyword : Token) (hasValue : Bool) :
    Paired R (checkReturn context keyword hasValue)
      (checkReturn context (keyword.reline line) hasValue) := by
  unfold checkReturn
  dsimp only
  split
  · refine (Paired.report keeps _ _).bind ?_
    split
    · exact .report keeps _ _
    · exact .pure
  · split
    · exact .report keeps _ _
    · exact .pure

private theorem checkSuperclass_paired (keeps : Keeps line E R) (name : Token) (e : Expr) :
    Paired R (checkSuperclass name e)
      (checkSuperclass (name.reline line) ((e.reline line).renumber f)) := by
  have same : ((e.reline line).renumber f).variableName? =
      e.variableName?.map (Token.reline line) := by
    cases e <;> rfl
  unfold checkSuperclass
  rw [same]
  cases e.variableName? with
  | none => exact .pure
  | some superName =>
    rw [Option.map_some, Token.reline_lexeme]
    dsimp only
    rw [Token.reline_lexeme]
    split
    · exact .report keeps _ _
    · exact .pure

mutual

private theorem stmt_paired (keeps : Keeps line E R) (context : BindingContext) :
    ∀ s, Placed E f (Stmt.labels s) →
    Paired R (stmt context s) (stmt context ((s.reline line).renumber f g))
  | .expression e, h | .print e, h => expr_paired keeps context.enclosing e h
  | .var name initializer, h =>
    (Paired.declare keeps name).bind
      ((expr?_paired keeps context.enclosing initializer h).bind (.mark keeps _ _))
  | .block body, h => .inScope keeps (stmts_paired keeps context body h)
  | .branch condition thenBranch elseBranch, h =>
    (expr_paired keeps context.enclosing condition h.left.left).bind
      ((stmt_paired keeps context thenBranch h.left.right).bind
        (stmt?_paired keeps context elseBranch h.right))
  | .loop condition body, h =>
    (expr_paired keeps context.enclosing condition h.left).bind
      (stmt_paired keeps context body h.right)
  | .function (.mk _ name params body), h =>
    (Paired.introduce keeps name).bind
      (function_paired keeps context.enclosing .function (.mk _ name params body) h)
  | .ret keyword none, _ => (checkReturn_paired keeps context.function keyword false).bind .pure
  | .ret keyword (some e), h =>
    (checkReturn_paired keeps context.function keyword true).bind
      (expr_paired keeps context.enclosing e h)
  | .classDecl name none methods, h =>
    (Paired.introduce keeps name).bind (.inScope keeps
      ((Paired.mark keeps _ _).bind (functions_paired keeps .plain methods h.right)))
  | .classDecl name (some e) methods, h =>
    (Paired.introduce keeps name).bind ((checkSuperclass_paired keeps name e).bind
      ((expr_paired keeps .derived e h.left).bind (.inScope keeps ((Paired.mark keeps _ _).bind
        (.inScope keeps ((Paired.mark keeps _ _).bind
          (functions_paired keeps .derived methods h.right)))))))

private theorem stmt?_paired (keeps : Keeps line E R) (context : BindingContext) :
    ∀ s, Placed E f (Stmt.labelsOption s) →
    Paired R (stmt? context s) (stmt? context (Stmt.renumberOption f g (Stmt.relineOption line s)))
  | none, _ => .pure
  | some s, h => stmt_paired keeps context s h

private theorem stmts_paired (keeps : Keeps line E R) (context : BindingContext) :
    ∀ ss, Placed E f (Stmt.labelsAll ss) →
    Paired R (stmts context ss) (stmts context (Stmt.renumberAll f g (Stmt.relineAll line ss)))
  | [], _ => .pure
  | s :: ss, h => (stmt_paired keeps context s h.left).bind (stmts_paired keeps context ss h.right)

private theorem function_paired (keeps : Keeps line E R) (enclosing : ClassContext)
    (context : FunctionContext) : ∀ decl,
    Placed E f (FunctionDecl.labels decl) →
    Paired R (function enclosing context decl)
      (function enclosing context ((decl.reline line).renumber f g))
  | .mk _ _ params body, h =>
    .inScope keeps ((Paired.introduceAll keeps params).bind (stmts_paired keeps _ body h.left))

private theorem functions_paired (keeps : Keeps line E R) (enclosing : ClassContext) : ∀ decls,
    Placed E f (FunctionDecl.labelsAll decls) →
    Paired R (functions enclosing decls)
      (functions enclosing (FunctionDecl.renumberAll f g (FunctionDecl.relineAll line decls)))
  | [], _ => .pure
  | .mk _ name params body :: decls, h =>
    (function_paired keeps enclosing _ (.mk _ name params body) h.left).bind
      (functions_paired keeps enclosing decls h.right)

end

end Resolve

theorem resolve_other (D : Distances) {program : List Stmt} {id : ExprId}
    (h : Label.expr id ∉ Stmt.labelsAll program) :
    (resolve D program).distances[id]? = D[id]? := by
  have keeps : Resolve.Keeps (fun line => line) (fun id _ => .expr id ∈ Stmt.labelsAll program)
      fun s s' => s'.scopes = s.scopes ∧ s.distances[id]? = D[id]? := {
    scopes := fun hs => hs.1
    change := fun hs _ _ => ⟨rfl, hs.2⟩
    insert := by
      intro s s' hs other _ member d
      have different : other ≠ id := fun same => h (same ▸ member)
      refine ⟨hs.1, ?_⟩
      simp only [TreeMap.getElem?_insert, Std.compare_eq_iff_eq, different, if_false]
      exact hs.2 }
  have walk := Resolve.stmts_paired keeps (f := fun _ => 0) (g := fun _ => 0) .top program
    fun _ member => member
  exact (@walk ⟨[], D, []⟩ ⟨[], D, []⟩ ⟨rfl, rfl⟩).2

/-- Of two programs that differ in numbers and lines the same is wrong, and distances that
correspond before also correspond behind. -/
theorem resolve_change {E : ExprId → ExprId → Prop}
    (unique : ∀ {a a' b b'}, E a a' → E b b' → (a = b ↔ a' = b')) {D D' : Distances}
    (agree : ∀ {id id'}, E id id' → D'[id']? = D[id]?) {f : ExprId → ExprId}
    {g : SiteId → SiteId} (line : Nat → Nat) {program : List Stmt}
    (h : Resolve.Placed E f (Stmt.labelsAll program)) :
    let resolved := resolve D program
    let resolved' := resolve D' (Stmt.renumberAll f g (Stmt.relineAll line program))
    resolved'.errors = resolved.errors.map (BindingError.reline line) ∧
      ∀ {id id'}, E id id' → resolved'.distances[id']? = resolved.distances[id]? := by
  have keeps : Resolve.Keeps line E fun s s' => s'.scopes = s.scopes ∧
      s'.errors = s.errors.map (BindingError.reline line) ∧
      ∀ {id id'}, E id id' → s'.distances[id']? = s.distances[id]? := {
    scopes := fun hs => hs.1
    change := by
      intro s s' hs scopes errors
      refine ⟨rfl, ?_, hs.2.2⟩
      rw [hs.2.1, List.map_append]
    insert := by
      intro s s' hs a a' ha d
      refine ⟨hs.1, hs.2.1, fun {b b'} hb => ?_⟩
      simp only [TreeMap.getElem?_insert, Std.compare_eq_iff_eq, unique ha hb, hs.2.2 hb] }
  have walk := Resolve.stmts_paired keeps (g := g) .top program h
  exact (@walk ⟨[], D, []⟩ ⟨[], D', []⟩ ⟨rfl, rfl, agree⟩).2

/-- The same of a program some lines further down. -/
theorem resolve_renumber {E : ExprId → ExprId → Prop}
    (unique : ∀ {a a' b b'}, E a a' → E b b' → (a = b ↔ a' = b')) {D D' : Distances}
    (agree : ∀ {id id'}, E id id' → D'[id']? = D[id]?) {f : ExprId → ExprId}
    {g : SiteId → SiteId} (k : Nat) {program : List Stmt}
    (h : Resolve.Placed E f (Stmt.labelsAll program)) :
    let resolved := resolve D program
    let resolved' := resolve D' (Stmt.renumberAll f g (Stmt.laterAll k program))
    resolved'.errors = resolved.errors.map (BindingError.later k) ∧
      ∀ {id id'}, E id id' → resolved'.distances[id']? = resolved.distances[id]? := by
  rw [Stmt.laterAll_eq]
  exact resolve_change unique agree (· + k) h

end LoxLang
