import LoxLang.Proofs.DeclaredNames
import LoxLang.Proofs.JoinedPrograms
import LoxLang.Proofs.PlainSession
import LoxLang.Proofs.ResolveWalk

/-!
Texts that pass all checks before they are executed.  Whether a text does so depends neither on the
numbers that are still free nor on the distances recorded before, so it does in all sessions or in
none.  Of two texts that pass, one behind the other on a line of its own, the whole passes, and is
read and resolved as if the second were read and resolved after the first.
-/

set_option autoImplicit false
set_option relaxedAutoImplicit false

namespace LoxLang

/-- The text is a program that breaks no rule of binding. -/
def Checked (source : String) : Prop :=
  ∃ program, (readProgram ⟨0, 0⟩ source).result = .ok program ∧ (resolve ∅ program).errors = []

instance (source : String) : Decidable (Checked source) :=
  match read : (readProgram ⟨0, 0⟩ source).result with
  | .ok program =>
    decidable_of_iff ((resolve ∅ program).errors = []) (by simp [Checked, read])
  | .error _ => isFalse (by simp [Checked, read])

theorem resolve_errors (D D' : Distances) (program : List Stmt) :
    (resolve D program).errors = (resolve D' program).errors := by
  rw [resolve_eq, resolve_eq]

private theorem resolve_errors_shifted (k : Labels) (D : Distances) (program : List Stmt) :
    (resolve D (shifted k program)).errors = (resolve D program).errors := by
  have corresponding : Resolve.Placed (fun id id' => id' = id + k.expr) (· + k.expr)
      (Stmt.labelsAll program) := fun _ _ => rfl
  have unique : ∀ {a a' b b' : ExprId}, a' = a + k.expr → b' = b + k.expr → (a = b ↔ a' = b') := by
    rintro a _ b _ rfl rfl
    exact Nat.add_right_cancel_iff.symm
  have none : ∀ {id id' : ExprId}, id' = id + k.expr →
      (∅ : Distances)[id']? = (∅ : Distances)[id]? := by
    intro id id' _
    simp
  have errors := (resolve_renumber (g := (· + k.site)) unique none 0 corresponding).1
  rw [Stmt.laterAll_zero, BindingError.map_later_zero] at errors
  rw [resolve_errors D ∅, resolve_errors D ∅]
  exact errors

theorem checked_iff (labels : Labels) (D : Distances) {source : String} :
    Checked source ↔
      ∃ program, (readProgram labels source).result = .ok program ∧
        (resolve D program).errors = [] := by
  have start : (⟨0, 0⟩ : Labels).plus labels = labels := by simp [Labels.plus]
  have read : (readProgram labels source).result =
      (readProgram ⟨0, 0⟩ source).result.map (shifted labels) := by
    have read := readProgram_plus ⟨0, 0⟩ labels source
    rw [start] at read
    exact congrArg Parsed.result read
  have errors (program : List Stmt) :
      (resolve D (shifted labels program)).errors = (resolve ∅ program).errors :=
    (resolve_errors_shifted labels D program).trans (resolve_errors D ∅ program)
  unfold Checked
  rw [read]
  cases (readProgram ⟨0, 0⟩ source).result with
  | error e => simp [Except.map]
  | ok program => simp [Except.map, errors]

theorem checked_iff_run (config : Config) (s : Session) (source : String) :
    Checked source ↔ ∀ errors, (s.run config source).1 ≠ .error (.rejected errors) := by
  rw [checked_iff s.labels s.interpreter.distances]
  cases read : (readProgram s.labels source).result with
  | error errors =>
    rw [s.run_unread config source read]
    simp
  | ok program =>
    by_cases bound : (resolve s.interpreter.distances program).errors = []
    · rw [s.run_executed config source read bound]
      dsimp only
      cases ((s.interpreter.resolve program).2.execute config program).1 <;>
        simp [bound, Except.mapError]
    · rw [s.run_unbound config source read bound]
      simp [bound]

/-! Reading and resolving one text behind another one. -/

private theorem readProgram_join {labels : Labels} {s₁ s₂ : String} {p₁ p₂ : List Stmt}
    (first : (readProgram labels s₁).result = .ok p₁)
    (second : (readProgram (readProgram labels s₁).labels s₂).result = .ok p₂) :
    readProgram labels (s₁ ++ "\n" ++ s₂) =
      ⟨(readProgram (readProgram labels s₁).labels s₂).labels,
        .ok (p₁ ++ Stmt.laterAll (linesOf s₁) p₂)⟩ := by
  obtain ⟨sound₁, parsed₁⟩ := readProgram_ok first
  obtain ⟨sound₂, parsed₂⟩ := readProgram_ok second
  have joined := parseProgram_join parsed₁ parsed₂ (linesOf s₁) ((scan s₂).lastLine + linesOf s₁)
  have faults : (scan (s₁ ++ "\n" ++ s₂)).faults = [] := by
    rw [scan_join sound₁, sound₂]
    rfl
  unfold readProgram
  simp only [scan_join sound₁, sound₂, List.map_nil, joined]

private theorem readProgram_later {labels : Labels} {source : String} {program : List Stmt}
    (read : (readProgram labels source).result = .ok program) (k : Nat) :
    readProgram labels (emptyLines k ++ source) =
      ⟨(readProgram labels source).labels, .ok (Stmt.laterAll k program)⟩ := by
  obtain ⟨sound, parsed⟩ := readProgram_ok read
  have nothing : parseProgram labels [] 0 = ⟨labels, .ok []⟩ := rfl
  have first : (parseProgram labels [] 0).result = .ok [] := congrArg Parsed.result nothing
  have joined := parseProgram_join first parsed k ((scan source).lastLine + k)
  rw [nothing, List.nil_append, List.nil_append] at joined
  unfold readProgram
  simp only [scan_later, Scanned.later, sound, List.map_nil, joined]

namespace Walk

private theorem stmts_append (context : BindingContext) (ss ss' : List Stmt) :
    stmts context [] (ss ++ ss') = stmts context [] ss ++ stmts context [] ss' := by
  induction ss with
  | nil => rfl
  | cons s ss ih => simp only [List.cons_append, stmts, after_globals, ih, List.append_assoc]

private theorem program_append (p p' : List Stmt) : program (p ++ p') = program p ++ program p' :=
  stmts_append .top p p'

end Walk

theorem resolve_append (D : Distances) (p p' : List Stmt) :
    resolve D (p ++ p') =
      ⟨(resolve (resolve D p).distances p').distances,
        (resolve D p).errors ++ (resolve D p').errors⟩ := by
  simp only [resolve_eq, Walk.program_append, Distances.record_append, List.filterMap_append]

private theorem resolve_later (D : Distances) (k : Nat) (program : List Stmt) :
    (resolve D (Stmt.laterAll k program)).errors =
        (resolve D program).errors.map (BindingError.later k) ∧
      ∀ id : ExprId, (resolve D (Stmt.laterAll k program)).distances[id]? =
        (resolve D program).distances[id]? := by
  have corresponding : Resolve.Placed (fun id id' => id' = id) id (Stmt.labelsAll program) :=
    fun _ _ => rfl
  have unique : ∀ {a a' b b' : ExprId}, a' = a → b' = b → (a = b ↔ a' = b') := by
    rintro a _ b _ rfl rfl
    rfl
  have agree : ∀ {id id' : ExprId}, id' = id → D[id']? = D[id]? := by
    rintro id _ rfl
    rfl
  have resolved := resolve_renumber (g := id) unique agree k corresponding
  rw [Stmt.renumberAll_id] at resolved
  exact ⟨resolved.1, fun id => resolved.2 rfl⟩

structure JoinedReading (s : Session) (s₁ s₂ whole : String) (p₁ p₂ p₂' : List Stmt) : Prop where
  read₁ : (readProgram s.labels s₁).result = .ok p₁
  read₂ : (readProgram (readProgram s.labels s₁).labels s₂).result = .ok p₂
  read : readProgram s.labels whole =
    ⟨(readProgram (readProgram s.labels s₁).labels s₂).labels, .ok (p₁ ++ p₂')⟩
  sound₁ : (resolve ∅ p₁).errors = []
  sound₂ : (resolve ∅ p₂).errors = []
  sound : (resolve ∅ (p₁ ++ p₂')).errors = []
  distances : ∀ (D : Distances) (id : ExprId),
    (resolve D p₂').distances[id]? = (resolve D p₂).distances[id]?

/-- Two checked texts are read one after the other, or as a whole with the second one further
down. -/
theorem Checked.reading {s₁ s₂ : String} (first : Checked s₁) (second : Checked s₂)
    (s : Session) : ∃ p₁ p₂,
      JoinedReading s s₁ s₂ (s₁ ++ "\n" ++ s₂) p₁ p₂ (Stmt.laterAll (linesOf s₁) p₂) := by
  obtain ⟨p₁, read₁, sound₁⟩ := (checked_iff s.labels ∅).mp first
  obtain ⟨p₂, read₂, sound₂⟩ := (checked_iff (readProgram s.labels s₁).labels ∅).mp second
  have sound : (resolve ∅ (p₁ ++ Stmt.laterAll (linesOf s₁) p₂)).errors = [] := by
    rw [resolve_append, sound₁, (resolve_later _ _ _).1, sound₂]
    rfl
  exact ⟨p₁, p₂, {
    read₁ := read₁
    read₂ := read₂
    read := readProgram_join read₁ read₂
    sound₁ := sound₁
    sound₂ := sound₂
    sound := sound
    distances := fun D => (resolve_later D _ p₂).2 }⟩

theorem JoinedReading.later {s : Session} {s₁ s₂ whole : String} {p₁ p₂ : List Stmt} {k : Nat}
    (h : JoinedReading s s₁ s₂ whole p₁ p₂ (Stmt.laterAll k p₂)) :
    JoinedReading s s₁ (emptyLines k ++ s₂) whole p₁ (Stmt.laterAll k p₂) (Stmt.laterAll k p₂) := by
  have read := readProgram_later h.read₂ k
  exact {
    read₁ := h.read₁
    read₂ := congrArg Parsed.result read
    read := by rw [h.read, read]
    sound₁ := h.sound₁
    sound₂ := by rw [(resolve_later _ _ _).1, h.sound₂, List.map_nil]
    sound := h.sound
    distances := fun _ _ => rfl }

theorem Checked.join {s₁ s₂ : String} (first : Checked s₁) (second : Checked s₂) :
    Checked (s₁ ++ "\n" ++ s₂) := by
  obtain ⟨p₁, p₂, h⟩ := first.reading second .initial
  exact ⟨p₁ ++ Stmt.laterAll (linesOf s₁) p₂, congrArg Parsed.result h.read, h.sound⟩

end LoxLang
