import LoxLang.Proofs.DeclaredNames
import LoxLang.Proofs.RejectedRuns
import LoxLang.Proofs.ScopedExecution
import LoxLang.Proofs.SessionEvents

/-!
Scopes in a whole session.  Every operation of a session passes events; whatever it executes was
walked through before, so at every event of every history a name is read from the frame that was
made for the static scope in which the resolver found it.
-/

set_option autoImplicit false
set_option relaxedAutoImplicit false

namespace LoxLang

open List Std

namespace Session

def notes (s : Session) (r : Request) : List Note :=
  match s.executed? r, s.evaluated? r with
  | some program, _ => Walk.program program
  | none, some e => Walk.expr .derived [] e
  | none, none => []

def notesAll (s : Session) : List Request → List Note
  | [] => []
  | r :: rs => s.notes r ++ (s.perform r).2.notesAll rs

end Session

/-- The expressions that some notes meet, and the scopes around them. -/
def Met (notes : List Note) (e : Expr) (Γ : StaticStack) : Prop := .met e Γ ∈ notes

/-- What holds of a session behind what was noted before and is known of the frames. -/
structure Session.Scoped (notes : List Note) (V : Known) (s : Session) : Prop where
  store : s.interpreter.machine.store.Scoped (Met notes) V
  scope : s.interpreter.machine.scope = .globals
  foreseen : Foreseen (Met notes) s.interpreter.distances
  handedOut : ∀ id, .expr id ∈ metLabels notes → id < s.labels.expr
  recorded : s.Recorded

/-! Programs and expressions at the top level. -/

mutual

private theorem Walk.expr_globals : ∀ e : Expr, ∀ n ∈ Walk.expr .derived [] e, ∃ e', n = .met e' []
  | .literal _, _, member => absurd member List.not_mem_nil
  | .grouping inner, n, member | .unary _ inner, n, member | .get inner _, n, member =>
    Walk.expr_globals inner n member
  | .binary _ left right, n, member | .logical _ left right, n, member =>
    (List.mem_append.mp member).elim (Walk.expr_globals left n) (Walk.expr_globals right n)
  | .variable _ _, _, member | .this _ _, _, member | .super _ _ _, _, member =>
    ⟨_, List.mem_singleton.mp member⟩
  | .assign _ _ value, n, member =>
    (List.mem_append.mp member).elim (Walk.expr_globals value n)
      fun member => ⟨_, List.mem_singleton.mp member⟩
  | .call callee _ args, n, member =>
    (List.mem_append.mp member).elim (Walk.expr_globals callee n) (Walk.exprs_globals args n)
  | .set object _ value, n, member =>
    (List.mem_append.mp member).elim (Walk.expr_globals value n) (Walk.expr_globals object n)

private theorem Walk.exprs_globals : ∀ es : List Expr, ∀ n ∈ Walk.exprs .derived
    [] es, ∃ e', n = .met e' []
  | [], _, member => absurd member List.not_mem_nil
  | e :: es, n, member =>
    (List.mem_append.mp member).elim (Walk.expr_globals e n) (Walk.exprs_globals es n)

end

theorem Accepted.of_met {A : Expr → StaticStack → Prop} {notes : List Note}
    (met : ∀ e Γ, .met e Γ ∈ notes → A e Γ) (correct : ∀ e, .fault e ∉ notes) :
    Accepted A none notes := by
  intro n hn
  cases n with
  | met e Γ => exact ⟨met e Γ hn, by simp⟩
  | fault e => exact absurd hn (correct e)

theorem Walk.program_accepted {D : Distances} {program : List Stmt}
    (bound : (resolve D program).errors = []) :
    Accepted (Met (Walk.program program)) none (Walk.program program) :=
  .of_met (fun _ _ met => met) (Walk.not_fault_program bound)

namespace Interpreter

private theorem execute_scoped {A : Expr → StaticStack → Prop} (config : Config) {ss : List Stmt}
    (wellFormed : Stmt.WellFormedAll ss) (accepted : Accepted A none (Walk.stmts .top [] ss))
    {i : Interpreter} {V : Known} (foreseen : Foreseen A i.distances)
    (stored : i.machine.store.Scoped A V) (scope : i.machine.scope = .globals) :
    ComesTo A i.distances V .globals (fun _ (_ : Unit) => True) (Event.ofProgram config i ss)
      (.ok (), (i.execute config ss).2.machine) := by
  induction ss generalizing i V with
  | nil => exact .refl trivial stored scope
  | cons s ss ih =>
    have step := (ScopedSteps.all (w := i.surroundings config) foreseen config.bound).stmt
      (.globals V) wellFormed.1 (fun _ _ innermost => by cases innermost) accepted.left i.machine
      stored scope
    obtain ⟨V', le, opened, sound, result, stored', scope'⟩ := step
    have behind : Accepted A none (Walk.stmts .top [] ss) := by
      have right := accepted.right
      rw [Walk.after_globals] at right
      exact right
    unfold Event.ofProgram execute
    rw [run_eq]
    generalize EvalM.outcome (execStmt (i.surroundings config) config.bound s) i.machine = out
      at result stored' scope'
    obtain ⟨r, m⟩ := out
    have next := ih wellFormed.2 behind (i := { i with machine := m }) foreseen stored' scope'
    rcases r with (f | v) | _
    · have stopped : ComesTo A i.distances V' .globals (fun _ (_ : Unit) => True) []
          (.ok (), { m with scope := .globals }) := .refl trivial stored' rfl
      exact stopped.after le opened sound
    · exact next.after le opened sound
    · exact next.after le opened sound

end Interpreter

theorem mem_of_metLabels {notes : List Note} {ls : List Label} (h : metLabels notes <+~ ls)
    {l : Label} (member : l ∈ metLabels notes) : l ∈ ls :=
  h.subset member

theorem nodup_metLabels {notes : List Note} {ls : List Label} (h : metLabels notes <+~ ls)
    (distinct : ls.Nodup) : (metLabels notes).Nodup := by
  obtain ⟨_, same, sublist⟩ := h
  exact same.nodup_iff.mp (distinct.sublist sublist)

theorem expr_mem_metLabels {notes : List Note} {e : Expr} {Γ : StaticStack} {id : ExprId}
    {name : Token} (met : Met notes e Γ) (refers : e.reference? = some (id, name)) :
    .expr id ∈ metLabels notes :=
  List.mem_filterMap.mpr ⟨_, met, by rw [Note.label?, refers]; rfl⟩

/-- The tree of a program that is read has the form that the grammar gives to it. -/
theorem readProgram_wellFormed {labels : Labels} {source : String} {program : List Stmt}
    (read : (readProgram labels source).result = .ok program) : Stmt.WellFormedAll program :=
  (parseProgram_sound (readProgram_ok read).2).1.wellFormed (scan_spelled source)

namespace Session

namespace Scoped

variable {notes : List Note} {V : Known} {s : Session}

private theorem noting (h : s.Scoped notes V) {s' : Session} {new : List Note}
    (machine : s'.interpreter.machine = s.interpreter.machine) (le : s.labels ≤ s'.labels)
    (same : ∀ id < s.labels.expr, s'.interpreter.distances[id]? = s.interpreter.distances[id]?)
    (recorded : s'.Recorded) (foreseen : Foreseen (Met new) s'.interpreter.distances)
    (handedOut : ∀ id, .expr id ∈ metLabels new → id < s'.labels.expr) :
    s'.Scoped (notes ++ new) V where
  store := machine ▸ h.store.widen fun _ _ => List.mem_append_left _
  scope := machine ▸ h.scope
  foreseen e Γ met id name refers := by
    rcases List.mem_append.mp met with met | met
    · rw [same id (h.handedOut id (expr_mem_metLabels met refers))]
      exact h.foreseen e Γ met id name refers
    · exact foreseen e Γ met id name refers
  handedOut id member := by
    rw [Walk.metLabels_append] at member
    rcases List.mem_append.mp member with member | member
    · exact Nat.lt_of_lt_of_le (h.handedOut id member) le.1
    · exact handedOut id member
  recorded := recorded

private theorem still (h : s.Scoped notes V) {s' : Session}
    (machine : s'.interpreter.machine = s.interpreter.machine) (le : s.labels ≤ s'.labels)
    (same : ∀ id < s.labels.expr, s'.interpreter.distances[id]? = s.interpreter.distances[id]?)
    (recorded : s'.Recorded) : s'.Scoped notes V := by
  have nothing : Foreseen (Met []) s'.interpreter.distances := fun _ _ met => by cases met
  have all := h.noting machine le same recorded nothing (by simp [metLabels])
  rw [List.append_nil] at all
  exact all

private theorem executing (h : s.Scoped notes V) {s' : Session} {V' : Known}
    (store : s'.interpreter.machine.store.Scoped (Met notes) V')
    (scope : s'.interpreter.machine.scope = .globals)
    (distances : s'.interpreter.distances = s.interpreter.distances)
    (labels : s'.labels = s.labels) : s'.Scoped notes V' where
  store := store
  scope := scope
  foreseen := distances ▸ h.foreseen
  handedOut := labels ▸ h.handedOut
  recorded id := by rw [distances, labels]; exact h.recorded id

private theorem resolved (h : s.Scoped notes V) {source : String} {program : List Stmt}
    (read : (readProgram s.labels source).result = .ok program) :
    Scoped (notes ++ Walk.program program) V
      { s with
        interpreter := (s.interpreter.resolve program).2
        labels := (readProgram s.labels source).labels } := by
  have numbered := readProgram_numbered read
  have labels := Walk.stmts_labels .top [] program
  have within : ∀ id, .expr id ∈ metLabels (Walk.program program) →
      s.labels.expr ≤ id ∧ id < (readProgram s.labels source).labels.expr :=
    fun id member => numbered.within _ (mem_of_metLabels labels member)
  refine h.noting rfl (readProgram_labels_le s.labels source)
    (fun id before => resolve_outside read s.interpreter (.inl before)) (fun id behind => ?_)
    (fun e Γ met id name refers => ?_) (fun id member => (within id member).2)
  · refine (resolve_outside read s.interpreter (.inr behind)).trans (h.recorded id ?_)
    exact Nat.le_trans (readProgram_labels_le s.labels source).1 behind
  · have fresh := h.recorded id (within id (expr_mem_metLabels met refers)).1
    have distances : (s.interpreter.resolve program).2.distances =
        s.interpreter.distances.record (Walk.program program) :=
      congrArg Resolved.distances (resolve_eq s.interpreter.distances program)
    dsimp only
    rw [distances]
    exact Distances.record_met (nodup_metLabels labels numbered.nodup) met refers fresh

private theorem reading (h : s.Scoped notes V) {source : String} {e : Expr}
    (read : (readExpression s.labels source).result = .ok e) :
    Scoped (notes ++ Walk.expr .derived [] e) V
      { s with labels := (readExpression s.labels source).labels } := by
  have numbered := readExpression_numbered read
  have within : ∀ id, .expr id ∈ metLabels (Walk.expr .derived [] e) →
      s.labels.expr ≤ id ∧ id < (readExpression s.labels source).labels.expr :=
    fun id member =>
      numbered.within _ (mem_of_metLabels (Walk.expr_labels .derived [] e) member)
  refine h.noting rfl (readExpression_labels_le s.labels source) (fun id _ => rfl)
    (fun id behind => h.recorded id ?_) (fun e Γ met id name refers => ?_)
    (fun id member => (within id member).2)
  · exact Nat.le_trans (readExpression_labels_le s.labels source).1 behind
  · obtain ⟨e', same⟩ := Walk.expr_globals _ _ met
    obtain ⟨rfl, rfl⟩ := Note.met.inj same
    exact h.recorded id (within id (expr_mem_metLabels met refers)).1

end Scoped

/-- What is known grows by what some events tell, and nothing goes wrong at them. -/
def Passed (notes : List Note) (V V' : Known) (events : List Event) : Prop :=
  V ≤ V' ∧ (∀ o t, V'.opened o t ↔ V.opened o t ∨ .opened o t ∈ events) ∧
    ∀ ev ∈ events, ∃ D, ev.Scoped (Met notes) D V'

private theorem Passed.nothing (notes : List Note) (V : Known) : Passed notes V V [] :=
  ⟨Known.le_rfl, by simp, by simp⟩

private theorem Passed.trans {notes later : List Note} {V V' V'' : Known}
    {events events' : List Event}
    (h : Passed notes V V' events) (h' : Passed (notes ++ later) V' V'' events') :
    Passed (notes ++ later) V V'' (events ++ events') := by
  obtain ⟨le, opened, sound⟩ := h
  obtain ⟨le', opened', sound'⟩ := h'
  refine ⟨Known.le_trans le le', fun o t => ?_, fun ev member => ?_⟩
  · rw [opened', opened, List.mem_append, or_assoc]
  · rcases List.mem_append.mp member with member | member
    · obtain ⟨D, before⟩ := sound ev member
      exact ⟨D, (before.mono le').widen fun _ _ => List.mem_append_left later⟩
    · exact sound' ev member

def Situated (notes : List Note) (V V' : Known) (events : List Event) : Prop :=
  Passed notes V V' events ∧ ∀ ev ∈ events, ev.Situated (Met notes) V'

private theorem Situated.nothing (notes : List Note) (V : Known) : Situated notes V V [] :=
  ⟨.nothing notes V, nofun⟩

private theorem Situated.trans {notes later : List Note} {V V' V'' : Known}
    {events events' : List Event}
    (h : Situated notes V V' events) (h' : Situated (notes ++ later) V' V'' events') :
    Situated (notes ++ later) V V'' (events ++ events') := by
  refine ⟨h.1.trans h'.1, fun ev member => ?_⟩
  rcases List.mem_append.mp member with member | member
  · exact ((h.2 ev member).mono h'.1.1).widen fun _ _ => List.mem_append_left later
  · exact h'.2 ev member

namespace Scoped

variable {notes : List Note} {V : Known} {s : Session}

private theorem comesTo {α : Type} {P : Known → α → Prop} {events : List Event} {s' : Session}
    {out : Except Interrupt α × Machine} (h : s.Scoped notes V)
    (run : ComesTo (Met notes) s.interpreter.distances V .globals P events out)
    (machine : s'.interpreter.machine = out.2)
    (distances : s'.interpreter.distances = s.interpreter.distances)
    (labels : s'.labels = s.labels) :
    ∃ V', Situated notes V V' events ∧ s'.Scoped notes V' := by
  obtain ⟨V', le, opened, sound, _, store, scope⟩ := run
  have passed : Passed notes V V' events := ⟨le, opened, fun ev member => ⟨_, (sound ev member).1⟩⟩
  exact ⟨V', ⟨passed, fun ev member => (sound ev member).2⟩,
    h.executing (machine ▸ store) (machine ▸ scope) distances labels⟩

private theorem run (h : s.Scoped notes V) (config : Config) (source : String) :
    ∃ V', Situated (notes ++ s.notes ⟨config, .run source⟩) V V'
        (s.events ⟨config, .run source⟩) ∧
      (s.run config source).2.Scoped (notes ++ s.notes ⟨config, .run source⟩) V' := by
  have recorded := h.recorded.run config source
  have quiet : s.executed? ⟨config, .run source⟩ = none →
      (s.run config source).2.interpreter.machine = s.interpreter.machine →
      ∃ V', Situated (notes ++ s.notes ⟨config, .run source⟩) V V'
          (s.events ⟨config, .run source⟩) ∧
        (s.run config source).2.Scoped (notes ++ s.notes ⟨config, .run source⟩) V' := by
    intro refused machine
    simp only [Session.notes, Session.events, refused, evaluated?, List.append_nil]
    exact ⟨V, .nothing notes V,
      h.still machine (perform_labels_le s ⟨config, .run source⟩)
        (fun id before => run_distances (.inl before)) recorded⟩
  cases read : (readProgram s.labels source).result with
  | error errors =>
    refine quiet (by simp only [executed?, read]) ?_
    rw [run_unread config s source read]
  | ok program =>
    by_cases bound : (s.interpreter.resolve program).1 = []
    · have taken : s.executed? ⟨config, .run source⟩ = some program := by
        simp only [executed?, read, bound, if_true]
      simp only [Session.notes, Session.events, taken]
      rw [run_executed config s source read bound]
      have resolved := h.resolved read
      have accepted : Accepted (Met (notes ++ Walk.program program)) none (Walk.program program) :=
        .of_met (fun _ _ => List.mem_append_right notes) (Walk.not_fault_program bound)
      have executed := Interpreter.execute_scoped config (readProgram_wellFormed read) accepted
        resolved.foreseen resolved.store resolved.scope
      exact resolved.comesTo executed rfl (Interpreter.execute_distances _ _ _) rfl
    · refine quiet (by simp only [executed?, read, bound, if_false]) ?_
      rw [run_unbound config s source read bound]
      rfl

private theorem evaluate (h : s.Scoped notes V) (config : Config) (source : String) :
    ∃ V', Situated (notes ++ s.notes ⟨config, .evaluate source⟩) V V'
        (s.events ⟨config, .evaluate source⟩) ∧
      (s.evaluate config source).2.Scoped (notes ++ s.notes ⟨config, .evaluate source⟩) V' := by
  cases read : (readExpression s.labels source).result with
  | error e =>
    simp only [Session.notes, Session.events, executed?, evaluated?, read, Except.toOption,
      List.append_nil]
    refine ⟨V, .nothing notes V, ?_⟩
    rw [evaluate_unread config s source read]
    refine h.still rfl (readExpression_labels_le s.labels source) (fun id _ => rfl)
      fun id behind => h.recorded id ?_
    exact Nat.le_trans (readExpression_labels_le s.labels source).1 behind
  | ok e =>
    simp only [Session.notes, Session.events, executed?, evaluated?, read, Except.toOption]
    rw [evaluate_read config s source read]
    have reading := h.reading read
    have accepted : Accepted (Met (notes ++ Walk.expr .derived [] e)) none
        (Walk.expr .derived [] e) := by
      refine .of_met (fun _ _ => List.mem_append_right notes) fun fault member => ?_
      obtain ⟨e', same⟩ := Walk.expr_globals e _ member
      cases same
    have evaluated := (ScopedSteps.all (w := s.interpreter.surroundings config)
      reading.foreseen config.bound).expr (Settled.globals V).awaiting accepted
      s.interpreter.machine reading.store reading.scope
    exact reading.comesTo evaluated rfl rfl rfl

private theorem perform (h : s.Scoped notes V) (r : Request) :
    ∃ V', Situated (notes ++ s.notes r) V V' (s.events r) ∧
      (s.perform r).2.Scoped (notes ++ s.notes r) V' := by
  obtain ⟨config, operation⟩ := r
  cases operation with
  | run source => exact h.run config source
  | evaluate source => exact h.evaluate config source
  | resetErrors =>
    simp only [Session.notes, Session.events, executed?, evaluated?, List.append_nil]
    exact ⟨V, .nothing notes V, h.still rfl Labels.le_rfl (fun id _ => rfl) h.recorded⟩

theorem performAll_situated (h : s.Scoped notes V) (rs : List Request) :
    ∃ V', Situated (notes ++ s.notesAll rs) V V' (s.eventsAll rs) ∧
      (s.performAll rs).Scoped (notes ++ s.notesAll rs) V' := by
  induction rs generalizing notes V s with
  | nil =>
    simp only [notesAll, eventsAll, List.append_nil]
    exact ⟨V, .nothing notes V, h⟩
  | cons r rs ih =>
    obtain ⟨V₁, passed, behind⟩ := h.perform r
    obtain ⟨V₂, passed', behind'⟩ := ih behind
    rw [notesAll, ← List.append_assoc]
    exact ⟨V₂, passed.trans passed', behind'⟩

theorem performAll (h : s.Scoped notes V) (rs : List Request) :
    ∃ V', Passed (notes ++ s.notesAll rs) V V' (s.eventsAll rs) ∧
      (s.performAll rs).Scoped (notes ++ s.notesAll rs) V' := by
  obtain ⟨V', situated, behind⟩ := h.performAll_situated rs
  exact ⟨V', situated.1, behind⟩

/-- Before anything happens no frame is made for a scope. -/
theorem initial :
    Scoped [] ⟨fun _ _ => False, fun f name => Machine.initial.store.holds f name⟩ .initial where
  store := {
    holds := fun _ _ => Iff.rfl
    globals := Nat.one_pos
    made := fun _ _ opened => opened.elim
    once := fun _ _ _ _ opened => opened.elim
    frames := by
      intro f name v found
      rw [Session.initial, Interpreter.initial, Machine.initial, Store.local?_newScope] at found
      split at found
      · rw [TreeMap.getElem?_insert] at found
        split at found
        · exact Option.some.inj found ▸ trivial
        · simp at found
      · simp [Store.local?, Store.empty] at found
    objects := by
      intro id name v found
      simp [Session.initial, Interpreter.initial, Machine.initial, Store.newScope, Store.empty]
        at found }
  scope := rfl
  foreseen _ _ met := by cases met
  handedOut _ member := by cases member
  recorded := Reachable.recorded ⟨[], rfl⟩

end Scoped

theorem met_executed {s : Session} {rs : List Request} {e : Expr} {Γ : StaticStack}
    (met : Met (s.notesAll rs) e Γ) (inside : Γ ≠ []) :
    ∃ program ∈ s.executed rs, .met e Γ ∈ Walk.program program := by
  induction rs generalizing s with
  | nil => cases met
  | cons r rs ih =>
    rcases List.mem_append.mp met with met | met
    · unfold notes at met
      split at met
      case h_1 program taken =>
        exact ⟨program, List.mem_append_left _ (by simp [taken]), met⟩
      case h_2 e' _ _ =>
        obtain ⟨_, same⟩ := Walk.expr_globals e' _ met
        exact absurd (Note.met.inj same).2 inside
      case h_3 => cases met
    · obtain ⟨program, member, met⟩ := ih met
      exact ⟨program, List.mem_append_right _ member, met⟩

end Session

theorem ReadsItsFrame.getAt? {A : Expr → StaticStack → Prop} {V : Known} {e : Expr} {name : String}
    {d : Nat} {m : Machine} (h : ReadsItsFrame A V e name d m) :
    (m.store.getAt? m.scope d name).isSome := by
  obtain ⟨_, _, t, _, _, _, _, out, held, _⟩ := h
  rw [Store.getAt?, out]
  exact held

def RuntimeFault.isUndefinedVariable : RuntimeFault → Bool
  | .unbound _ | .unboundLocal _ => true
  | _ => false

namespace EvalM

private theorem superMethod_defined {D : Distances} {id : ExprId} {keyword method : Token}
    {m : Machine} {error : RuntimeError}
    (failed : ((superMethod D id keyword method).outcome m).1 = .error (.failure (.fault error))) :
    error.fault.isUndefinedVariable = false := by
  have told : ∀ (token : Token) (f : RuntimeFault), f.isUndefinedVariable = false →
      ((fault token f : EvalM Value).outcome m).1 = .error (.failure (.fault error)) →
      error.fault.isUndefinedVariable = false := by
    intro token f other same
    rw [outcome_fault] at same
    injection same with same
    injection same with same
    injection same with same
    rw [← same]
    exact other
  unfold superMethod at failed
  rw [outcome_bind, outcome_get] at failed
  dsimp only at failed
  cases found : D[id]? with
  | none =>
    rw [found] at failed
    exact told keyword .superUnresolved rfl failed
  | some d =>
    simp only [found, ofOption, pure_bind] at failed
    split at failed
    · split at failed
      · rename_i k _ _ _ _
        cases taken : k.method? method.lexeme with
        | none =>
          rw [taken] at failed
          exact told method (.undefinedProperty method.lexeme) rfl failed
        | some f =>
          simp only [taken, pure_bind] at failed
          cases failed
      · exact told keyword .superWithoutObject rfl failed
    · exact told keyword .superNotClass rfl failed

private theorem undefined_reading {w : Surroundings} {bound : Nat} {e : Expr} {id : ExprId}
    {name : Token} (read : e.read? = some (id, name)) {m : Machine} {error : RuntimeError}
    (failed : ((evalExpr w bound e).outcome m).1 = .error (.failure (.fault error)))
    (undefined : error.fault.isUndefinedVariable) {d : Nat} (found : w.distances[id]? = some d) :
    m.store.getAt? m.scope d name.lexeme = none := by
  have looked : ((lookUp w.distances id name).outcome m).1 = .error (.failure (.fault error)) →
      m.store.getAt? m.scope d name.lexeme = none := by
    intro failed
    rw [lookUp, outcome_bind, outcome_get] at failed
    simp only [found] at failed
    cases held : m.store.getAt? m.scope d name.lexeme with
    | none => rfl
    | some v =>
      rw [held] at failed
      cases failed
  cases bound with
  | zero => cases failed
  | succ bound =>
    cases e with
    | «variable» id' name' =>
      obtain ⟨rfl, rfl⟩ := Prod.mk.inj (Option.some.inj read)
      exact looked failed
    | this id' keyword =>
      obtain ⟨rfl, rfl⟩ := Prod.mk.inj (Option.some.inj read)
      exact looked failed
    | super id' keyword method =>
      rw [superMethod_defined failed] at undefined
      cases undefined
    | _ => cases read

end EvalM

/-- At every event of every history at which an expression reads a name at a recorded distance, the
scope that many frames out holds the name, and its frame is the one that was made for the static
scope in which the resolver found the name.  So no such reading finds the name undefined. -/
theorem read_finds_declared_frame (history : List Request) {D : Distances} {e : Expr} {m : Machine}
    (event : .evaluated D e m ∈ Session.initial.eventsAll history) {id : ExprId} {name : Token}
    (read : e.read? = some (id, name)) :
    (∀ d, D[id]? = some d → ∃ program ∈ Session.initial.executed history, ∃ Γ σ t,
      .met e Γ ∈ Walk.program program ∧ Γ.distance? name.lexeme = some d ∧ Γ[d]? = some σ ∧
      σ.names.contains name.lexeme ∧ m.scope.ancestor? d = some t ∧
      m.store.holds t.frame name.lexeme ∧
      .opened σ.origin t ∈ Session.initial.eventsAll history ∧
      ∀ o s, .opened o s ∈ Session.initial.eventsAll history → s.frame = t.frame →
        o = σ.origin ∧ s = t) ∧
    ∀ w bound error, w.distances = D →
      ((evalExpr w bound e).outcome m).1 = .error (.failure (.fault error)) →
      error.fault.isUndefinedVariable → D[id]? = none := by
  obtain ⟨V, ⟨_, opened, sound⟩, invariant⟩ := Session.Scoped.initial.performAll history
  obtain ⟨_, rfl, reads⟩ := sound _ event
  have told : ∀ o t, V.opened o t ↔ .opened o t ∈ Session.initial.eventsAll history :=
    fun o t => by simpa using opened o t
  refine ⟨fun d found => ?_, fun w bound error same failed undefined => ?_⟩
  · obtain ⟨Γ, σ, t, met, distance, around, member, out, held, made⟩ := reads id name d read found
    have inside : Γ ≠ [] := by
      rintro rfl
      cases around
    obtain ⟨program, executed, met⟩ := Session.met_executed met inside
    refine ⟨program, executed, Γ, σ, t, met, distance, around, member, out, held,
      (told _ _).mp made, fun o s made' frame => ?_⟩
    exact invariant.store.once o s σ.origin t ((told o s).mpr made') made frame
  · cases found : D[id]? with
    | none => rfl
    | some d =>
      have present := (reads id name d read found).getAt?
      rw [EvalM.undefined_reading read failed undefined (same ▸ found)] at present
      cases present

def Event.reads : Event → ExprId × Token → Nat → Bool
  | .evaluated D e _, (id, name), d => e.read? = some (id, name) && D[id]? = some d
  | _, _, _ => false

/-- A function made by one run and called by the next one reads a name of the call that made it. -/
theorem captured_name_read_in_later_run :
    let config : Config := ⟨none, .working, fun _ => 0, 100⟩
    let history : List Request :=
      [⟨config, .run
        "fun f() \x7b var a = true; fun g() \x7b print a; \x7d return g; \x7d var h = f();"⟩,
        ⟨config, .run "h();"⟩]
    ∃ D e m, .evaluated D e m ∈ Session.initial.eventsAll history ∧
      e.read? = some (0, ⟨.identifier, "a", 1⟩) ∧ D[(0 : ExprId)]? = some 1 ∧
      ∃ Γ σ t, Γ[1]? = some σ ∧ StaticStack.distance? Γ "a" = some 1 ∧ m.scope.ancestor? 1 = some t ∧
        m.store.holds t.frame "a" ∧ .opened σ.origin t ∈ Session.initial.eventsAll history := by
  intro config history
  have passed : (Session.initial.eventsAll history).any
      (Event.reads · (0, ⟨.identifier, "a", 1⟩) 1) := by decide +kernel
  obtain ⟨ev, event, wanted⟩ := List.any_eq_true.mp passed
  cases ev with
  | evaluated D e m =>
    obtain ⟨read, found⟩ := Bool.and_eq_true_iff.mp wanted
    have read := of_decide_eq_true read
    have found := of_decide_eq_true found
    obtain ⟨_, _, Γ, σ, t, _, distance, around, _, out, held, made, _⟩ :=
      (read_finds_declared_frame history event read).1 1 found
    exact ⟨D, e, m, event, read, found, Γ, σ, t, around, distance, out, held, made⟩
  | _ => cases wanted

end LoxLang
