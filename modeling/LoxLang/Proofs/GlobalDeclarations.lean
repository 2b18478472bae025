import LoxLang.Proofs.EnclosedScopes
import LoxLang.Proofs.ExecutedPrograms
import LoxLang.Proofs.PrivateLocals
import LoxLang.Proofs.ReturnSignals
import LoxLang.Proofs.TracedExecution

/-!
Where the global names come from.  Behind some events a frame that was there before holds the names
that it held and those that were declared in it meanwhile.  In the global frame that is done by the
declarations at the top level of a program alone, each when it is executed to its end.
-/

set_option autoImplicit false
set_option relaxedAutoImplicit false

namespace LoxLang

open EvalM

namespace Event

variable {c : Contents} {ev : Event} {evs : List Event} {f : FrameId} {x : String}

private theorem mem_declaredIn {s : Stmt} :
    s ∈ declaredIn f evs ↔ ∃ v m, .declares s v m ∈ evs ∧ m.scope.frame = f := by
  rw [declaredIn, List.mem_filterMap]
  constructor
  · rintro ⟨ev, event, found⟩
    cases ev with
    | declares s' v m =>
      rw [declaredIn?] at found
      split at found
      · obtain rfl := Option.some.inj found
        exact ⟨v, m, event, ‹_›⟩
      · cases found
    | _ => cases found
  · rintro ⟨v, m, event, here⟩
    exact ⟨_, event, if_pos here⟩

private theorem held_next_isSome (fits : ev.Fits c) (made : f < c.size)
    (held : (c.held f x).isSome) :
    ((ev.next c).held f x).isSome := by
  by_cases writes : ∃ v, ev.Writes f x v
  · obtain ⟨v, writes⟩ := writes
    rw [writes.next]
    rfl
  · rw [held_next fits made (not_exists.mp writes)]
    exact held

theorem held_foldl_isSome (tell : Tell c evs) (made : f < c.size) (held : (c.held f x).isSome) :
    ((evs.foldl Event.next c).held f x).isSome := by
  induction evs generalizing c with
  | nil => exact held
  | cons ev evs ih =>
    exact ih tell.2 (Nat.lt_of_lt_of_le made (size_le_next tell.1))
      (held_next_isSome tell.1 made held)

private theorem of_write? {v : Value} (write : ev.write? = some (f, x, v)) :
    (∃ s m, ev = .declares s v m ∧ m.scope.frame = f ∧
      ∃ name, s.declares? = some name ∧ name.lexeme = x) ∨
    ∃ D e m, ev = .assigns D e v m ∧ m.store.holds f x := by
  cases ev with
  | declares s u m =>
    obtain ⟨name, declares, pair⟩ := Option.map_eq_some_iff.mp write
    obtain ⟨here, rest⟩ := Prod.mk.inj pair
    obtain ⟨same, rfl⟩ := Prod.mk.inj rest
    exact .inl ⟨s, m, rfl, here, name, declares, same⟩
  | assigns D e u m =>
    cases e with
    | assign id name value =>
      obtain ⟨_, target, pair⟩ := Option.map_eq_some_iff.mp write
      obtain ⟨rfl, rest⟩ := Prod.mk.inj pair
      obtain ⟨rfl, rfl⟩ := Prod.mk.inj rest
      exact .inr ⟨D, _, m, rfl, Machine.target?_holds target⟩
    | _ => cases write
  | _ => cases write

private theorem held_next_iff (fits : ev.Fits c) (made : f < c.size) :
    ((ev.next c).held f x).isSome ↔ (c.held f x).isSome ∨
      ∃ s name, declaredIn? f ev = some s ∧ s.declares? = some name ∧ name.lexeme = x := by
  constructor
  · intro held
    by_cases writes : ∃ v, ev.Writes f x v
    · obtain ⟨v, ⟨b, rfl, _⟩ | write⟩ := writes
      · exact absurd (fits.fresh f b rfl) (Nat.ne_of_lt made)
      · rcases of_write? write with ⟨s, m, rfl, here, name, declares, same⟩ | ⟨D, e, m, rfl, holds⟩
        · exact .inr ⟨s, name, if_pos here, declares, same⟩
        · rw [← fits.known m rfl]
          exact .inl holds
    · rw [held_next fits made (not_exists.mp writes)] at held
      exact .inl held
  · rintro (held | ⟨s, name, here, declares, rfl⟩)
    · exact held_next_isSome fits made held
    · cases ev with
      | declares s' v m =>
        rw [declaredIn?] at here
        split at here
        · obtain rfl := Option.some.inj here
          have writes : (Event.declares s' v m).Writes f name.lexeme v := by
            refine .inr ?_
            rw [write?, declares, Option.map_some, ‹m.scope.frame = f›]
          rw [writes.next]
          rfl
        · cases here
      | _ => cases here

private theorem held_foldl_iff (tell : Tell c evs) (made : f < c.size) :
    ((evs.foldl Event.next c).held f x).isSome ↔ (c.held f x).isSome ∨
      ∃ s ∈ declaredIn f evs, ∃ name, s.declares? = some name ∧ name.lexeme = x := by
  induction evs generalizing c with
  | nil => simp [declaredIn]
  | cons ev evs ih =>
    rw [List.foldl_cons, ih tell.2 (Nat.lt_of_lt_of_le made (size_le_next tell.1)),
      held_next_iff tell.1 made, or_assoc]
    refine or_congr_right ?_
    cases here : declaredIn? f ev with
    | none => simp [declaredIn, here]
    | some s => simp [declaredIn, here]

end Event

/-- Whether a statement gives a value to a name in the present frame. -/
def Stmt.isDeclaration (s : Stmt) : Bool := s.declares?.isSome

private theorem Stmt.declaresNothing_eq (s : Stmt) : s.declaresNothing = !s.isDeclaration := by
  cases s <;> rfl

namespace Event

variable {w : Surroundings} {bound : Nat} {m : Machine}

private theorem declaredIn_behind {α : Type} (f : FrameId) (act : EvalM α)
    (next : α → Machine → List Event) (m : Machine) : declaredIn f (behind act next m) =
      match outcome act m with
      | (.ok a, m') => declaredIn f (next a m')
      | (.error _, _) => [] := by
  unfold behind
  generalize outcome act m = out
  obtain ⟨_ | _, _⟩ := out <;> rfl

private theorem declaredIn_ofClass (s : Stmt) (name : Token) (superclass : Option Class)
    (methods : List FunctionDecl) (m : Machine) :
    declaredIn m.scope.frame (ofClass s name superclass methods m) = [s] := by
  have named (m' : Machine) (same : m'.scope = m.scope) (scope : Scope) :
      declaredIn m.scope.frame (ofClassIn s name superclass methods scope m') = [s] :=
    List.filterMap_cons_some (if_pos (congrArg Scope.frame same))
  cases superclass with
  | none => exact named m rfl m.scope
  | some c =>
    let opened := m.store.newScope ((∅ : Bindings).insert "super" (.callable (.ofClass c)))
      (some m.scope)
    exact named { m with store := opened.2 } rfl opened.1

private theorem declareClass_ok (name : Token) (superclass : Option Class)
    (methods : List FunctionDecl)
    (m : Machine) : ((declareClass name superclass methods).outcome m).1.isOk := by
  cases superclass <;> rfl

private theorem declaredIn_ofStmt {s : Stmt} (wellFormed : s.WellFormed)
    (present : m.scope.frame < m.store.frames.size) :
    declaredIn m.scope.frame (ofStmt w bound s m) =
      if ((execStmt w bound s).outcome m).1.isOk then [s].filter Stmt.isDeclaration else [] := by
  by_cases declaration : s.isDeclaration
  · rw [List.filter_cons_of_pos declaration, List.filter_nil]
    cases bound with
    | zero => rfl
    | succ bound =>
      unfold ofStmt execStmt
      cases s with
      | var name initializer =>
        have traced : Traced m [] _ _ := TracedRun.option w bound initializer m present
        rw [declaredIn_append, traced.nowhere present, declaredIn_behind, outcome_bind]
        generalize outcome (evalOption w bound initializer) m = out at traced
        obtain ⟨r, m'⟩ := out
        cases r with
        | error i => rfl
        | ok v => exact List.filterMap_cons_some (if_pos (congrArg Scope.frame traced.scope))
      | function decl => exact List.filterMap_cons_some (if_pos rfl)
      | classDecl name superclass methods =>
        cases superclass with
        | none =>
          rw [if_pos (declareClass_ok name none methods m)]
          exact declaredIn_ofClass _ name none methods m
        | some e =>
          have traced : Traced m [] _ _ := TracedRun.expr w bound e m present
          rw [declaredIn_append, traced.nowhere present, declaredIn_behind, outcome_bind]
          generalize outcome (evalExpr w bound e) m = out at traced
          obtain ⟨r, m'⟩ := out
          have scope : m'.scope = m.scope := traced.scope
          cases r with
          | error i => rfl
          | ok v =>
            cases v with
            | callable k =>
              cases k with
              | ofClass k =>
                dsimp only
                rw [if_pos (declareClass_ok name (some k) methods m'), ← scope]
                exact declaredIn_ofClass _ name (some k) methods m'
              | _ => rfl
            | _ => rfl
      | _ => cases declaration
  · have nothing : s.declaresNothing := by
      rw [Stmt.declaresNothing_eq, Bool.eq_false_iff.mpr declaration]
      rfl
    have own := s.declared_eq_nil wellFormed nothing
    rw [(TracedRun.stmt w bound s m present).spared _ present fun _ => own,
      List.filter_cons_of_neg declaration, List.filter_nil, ite_self]

end Event

/-! Programs. -/

namespace Interpreter

variable {config : Config} {i : Interpreter} {ss : List Stmt}

def completed (config : Config) (i : Interpreter) : List Stmt → List Stmt
  | [] => []
  | s :: ss =>
    match i.run (execStmt (i.surroundings config) config.bound s) with
    | (.ok (), i) => s :: completed config i ss
    | (.error (.returned _), i) => completed config i ss
    | (.error (.failure _), _) => []

private theorem declaredIn_ofProgram (globals : i.machine.scope = .globals)
    (made : 0 < i.machine.store.frames.size) (wellFormed : Stmt.WellFormedAll ss) :
    Event.declaredIn Scope.globals.frame (Event.ofProgram config i ss) =
      (i.completed config ss).filter Stmt.isDeclaration := by
  induction ss generalizing i with
  | nil => rfl
  | cons s ss ih =>
    have present : i.machine.scope.frame < i.machine.store.frames.size := globals ▸ made
    have first := @Event.declaredIn_ofStmt (i.surroundings config) config.bound i.machine s
      wellFormed.1 present
    have traced := TracedRun.stmt (i.surroundings config) config.bound s i.machine present
    rw [globals] at first
    unfold Event.ofProgram completed
    rw [run_eq, Event.declaredIn_append, first]
    generalize EvalM.outcome (execStmt (i.surroundings config) config.bound s) i.machine = out
      at traced
    obtain ⟨r, m⟩ := out
    have rest := ih (i := { i with machine := m }) (traced.scope.trans globals)
      (Nat.lt_of_lt_of_le made traced.grows) wellFormed.2
    rcases r with (f | v) | _
    · rfl
    · exact rest
    · exact (congrArg ([s].filter Stmt.isDeclaration ++ ·) rest).trans (List.filter_append ..).symm

private theorem completed_of_unreturned (stays : ∀ s ∈ ss, ∀ w n, Unreturned (execStmt w n s)) :
    i.completed config ss <+: ss ∧
      ((i.execute config ss).1 = .ok () → i.completed config ss = ss) := by
  induction ss generalizing i with
  | nil => exact ⟨List.prefix_rfl, fun _ => rfl⟩
  | cons s ss ih =>
    obtain ⟨here, behind⟩ := List.forall_mem_cons.mp stays
    have ends := here (i.surroundings config) config.bound i.machine
    rw [execute_cons, completed, run_eq]
    generalize (execStmt (i.surroundings config) config.bound s).outcome i.machine = out at ends ⊢
    obtain ⟨r, m⟩ := out
    rcases r with (f | v) | _
    · exact ⟨List.nil_prefix, nofun⟩
    · exact absurd rfl (ends v)
    · obtain ⟨first, all⟩ := ih (i := { i with machine := m }) behind
      exact ⟨List.prefix_cons_inj s |>.mpr first, fun ok => congrArg (s :: ·) (all ok)⟩

end Interpreter

/-! Sessions. -/

namespace Session

def completed (s : Session) (r : Request) : List Stmt :=
  match s.executed? r with
  | some program => (s.interpreter.resolve program).2.completed r.config program
  | none => []

def completedAll (s : Session) : List Request → List Stmt
  | [] => []
  | r :: rs => s.completed r ++ (s.perform r).2.completedAll rs

variable {s : Session} {r : Request}

private theorem executed?_unreturned {program : List Stmt} (taken : s.executed? r = some program) :
    ∀ t ∈ program, ∀ w n, Unreturned (execStmt w n t) := by
  obtain ⟨_, _, _, bound⟩ := executed?_eq taken
  have sound := (Walk.program_clear program).mp
    (Walk.clear_of_not_fault (Walk.not_fault_program bound))
  exact fun t member => .execStmt fun p here => sound p (Stmt.mem_placesAll member here)

private theorem executed?_wellFormed {program : List Stmt} (taken : s.executed? r = some program) :
    Stmt.WellFormedAll program := by
  obtain ⟨_, _, read, _⟩ := executed?_eq taken
  exact readProgram_wellFormed read

private theorem declaredIn_events (globals : s.interpreter.machine.scope = .globals)
    (made : 0 < s.interpreter.machine.store.frames.size) :
    Event.declaredIn Scope.globals.frame (s.events r) =
      (s.completed r).filter Stmt.isDeclaration := by
  unfold events completed
  cases taken : s.executed? r with
  | some program =>
    exact Interpreter.declaredIn_ofProgram (i := (s.interpreter.resolve program).2) globals made
      (executed?_wellFormed taken)
  | none =>
    cases s.evaluated? r with
    | none => rfl
    | some e =>
      have present : s.interpreter.machine.scope.frame < s.interpreter.machine.store.frames.size :=
        globals ▸ made
      have traced : Traced s.interpreter.machine [] _ _ :=
        TracedRun.expr (s.interpreter.surroundings r.config) r.config.bound e _ present
      exact globals ▸ traced.nowhere present

private theorem completed_begins {program : List Stmt} (taken : s.executed? r = some program) :
    s.completed r <+: program := by
  rw [completed, taken]
  exact (Interpreter.completed_of_unreturned (executed?_unreturned taken)).1

/-- Operations in a row declare in the global frame what their completed statements declare. -/
theorem declaredIn_eventsAll (globals : s.interpreter.machine.scope = .globals)
    (made : 0 < s.interpreter.machine.store.frames.size) (rs : List Request) :
    Event.declaredIn Scope.globals.frame (s.eventsAll rs) =
      (s.completedAll rs).filter Stmt.isDeclaration := by
  induction rs generalizing s with
  | nil => rfl
  | cons r rs ih =>
    obtain ⟨_, traced⟩ := perform_traced globals made r
    rw [eventsAll, completedAll, Event.declaredIn_append, List.filter_append,
      declaredIn_events globals made,
      ih (traced.scope.trans globals) (Nat.lt_of_lt_of_le made traced.grows)]

theorem completedAll_sublist (s : Session) (rs : List Request) :
    (s.completedAll rs).Sublist (s.executed rs).flatten := by
  induction rs generalizing s with
  | nil => exact List.Sublist.refl _
  | cons r rs ih =>
    rw [completedAll, executed, List.flatten_append]
    refine List.Sublist.append ?_ (ih _)
    cases taken : s.executed? r with
    | none => simp [completed, taken]
    | some program => simpa using (completed_begins taken).sublist

private theorem completed_of_ok {source : String} (config : Config)
    (ok : (s.run config source).1 = .ok ()) :
    ∃ program, (readProgram s.labels source).result = .ok program ∧
      s.completed ⟨config, .run source⟩ = program := by
  cases read : (readProgram s.labels source).result with
  | error errors =>
    rw [run_unread config s source read] at ok
    cases ok
  | ok program =>
    by_cases bound : (s.interpreter.resolve program).1 = []
    · have taken : s.executed? ⟨config, .run source⟩ = some program := by
        simp only [executed?, read, bound, if_true]
      refine ⟨program, rfl, ?_⟩
      rw [run_executed config s source read bound] at ok
      simp only [completed, taken]
      refine (Interpreter.completed_of_unreturned (executed?_unreturned taken)).2 ?_
      dsimp only at ok
      cases result : ((s.interpreter.resolve program).2.execute config program).1 with
      | error f =>
        rw [result] at ok
        cases ok
      | ok _ => rfl
    · rw [run_unbound config s source read bound] at ok
      cases ok

/-- Whether a name is bound in the global scope. -/
def hasGlobal (s : Session) (x : String) : Bool :=
  s.interpreter.machine.store.holds Scope.globals.frame x

private theorem performAll_globals (history : List Request) :
    (initial.performAll history).interpreter.machine.scope = .globals ∧
      0 < (initial.performAll history).interpreter.machine.store.frames.size := by
  obtain ⟨_, traced⟩ := performAll_traced (s := .initial) rfl Nat.one_pos history
  exact ⟨traced.scope, Nat.lt_of_lt_of_le Nat.one_pos traced.grows⟩

end Session

/-- After every history, an operation leaves in the global frame the names that it held and those of
the declarations at the top level of the program that it executes to their end, in order the only
ones that take place in the global frame.  Meanwhile that frame is written by those declarations and
by assignments to names that it holds.  Only a run executes statements, of its text the first ones,
and if there is no error all of them, so that all names declared at the top level are there. -/
theorem globals_are_completed_declarations (history : List Request) (r : Request) :
    let s := Session.initial.performAll history
    (∀ x, (s.perform r).2.hasGlobal x ↔
      s.hasGlobal x ∨ ∃ d ∈ s.completed r, ∃ name, d.declares? = some name ∧ name.lexeme = x) ∧
    Event.declaredIn Scope.globals.frame (s.events r) = (s.completed r).filter Stmt.isDeclaration ∧
    (∀ ev ∈ s.events r, ∀ x v, ev.Writes Scope.globals.frame x v →
      (∃ d ∈ s.completed r, ∃ m, ev = .declares d v m) ∨
        ∃ D e m, ev = .assigns D e v m ∧ m.store.holds Scope.globals.frame x) ∧
    ((∀ source, r.operation ≠ .run source) → s.completed r = []) ∧
    (∀ program, s.executed? r = some program → s.completed r <+: program) ∧
    ∀ source, r.operation = .run source → (s.run r.config source).1 = .ok () →
      ∃ program, (readProgram s.labels source).result = .ok program ∧ s.completed r = program ∧
        ∀ d ∈ program, ∀ name, d.declares? = some name →
          (s.perform r).2.hasGlobal name.lexeme := by
  intro s
  obtain ⟨globals, made⟩ := Session.performAll_globals history
  have declared := Session.declaredIn_events (s := s) (r := r) globals made
  obtain ⟨_, traced⟩ := Session.perform_traced (s := s) globals made r
  have names (x : String) : (s.perform r).2.hasGlobal x ↔
      s.hasGlobal x ∨ ∃ d ∈ s.completed r, ∃ name, d.declares? = some name ∧ name.lexeme = x := by
    have told : (s.perform r).2.hasGlobal x =
        (((s.events r).foldl Event.next s.contents).held Scope.globals.frame x).isSome :=
      congrArg (fun c : Contents => (c.held Scope.globals.frame x).isSome) traced.told
    rw [told]
    refine (Event.held_foldl_iff (f := Scope.globals.frame) traced.tell made).trans ?_
    rw [declared]
    refine or_congr_right (exists_congr fun d => and_congr_left fun ⟨name, declares, _⟩ => ?_)
    rw [List.mem_filter, Stmt.isDeclaration, declares]
    exact and_iff_left rfl
  refine ⟨names, declared, ?_, ?_, fun program taken => Session.completed_begins taken, ?_⟩
  · intro ev event x v writes
    obtain ⟨before, after, split⟩ := List.append_of_mem event
    have tell : Event.Tell s.contents (before ++ ev :: after) := split ▸ traced.tell
    have fits := (Event.tell_append.mp tell).2.1
    rcases writes with ⟨b, rfl, _⟩ | write
    · have grown := Event.size_le_foldl (Event.tell_append.mp tell).1
      exact absurd (fits.fresh _ b rfl) (Nat.ne_of_lt (Nat.lt_of_lt_of_le made grown))
    · rcases Event.of_write? write with ⟨d, m, rfl, here, _⟩ | ⟨D, e, m, rfl, holds⟩
      · have member := Event.mem_declaredIn.mpr ⟨v, m, event, here⟩
        rw [declared] at member
        exact .inl ⟨d, (List.mem_filter.mp member).1, m, rfl⟩
      · exact .inr ⟨D, e, m, rfl, holds⟩
  · intro other
    unfold Session.completed
    cases taken : s.executed? r with
    | none => rfl
    | some program =>
      obtain ⟨source, run, _⟩ := Session.executed?_eq taken
      exact absurd run (other source)
  · obtain ⟨config, _⟩ := r
    rintro source rfl ok
    obtain ⟨program, read, all⟩ := Session.completed_of_ok config ok
    exact ⟨program, read, all, fun d member name declares =>
      (names name.lexeme).mpr (.inr ⟨d, all ▸ member, name, declares, rfl⟩)⟩

def Stmt.anyDeclares (x : String) (ss : List Stmt) : Bool :=
  ss.any fun s => s.declares?.any (·.lexeme == x)

private theorem Stmt.anyDeclares_iff {x : String} {ss : List Stmt} :
    anyDeclares x ss ↔ ∃ d ∈ ss, ∃ name, d.declares? = some name ∧ name.lexeme = x := by
  simp [anyDeclares, Option.any_eq_true]

/-- A program that fails leaves the globals that were there before and those that it has declared up
to there, of which the variable of a block is none. -/
theorem globals_of_failed_program :
    let config : Config := ⟨none, .working, fun _ => 0, 100⟩
    let s := Session.initial.performAll [⟨config, .run "var a = 1;"⟩]
    let r : Request := ⟨config, .run "fun f() \x7b\x7d \x7b var b = a; \x7d print c; var d;"⟩
    (s.completed r).length = 2 ∧ (s.perform r).2.hasGlobal "a" ∧ (s.perform r).2.hasGlobal "f" ∧
      ¬ (s.perform r).2.hasGlobal "b" ∧ ¬ (s.perform r).2.hasGlobal "d" := by
  intro config s r
  obtain ⟨names, _⟩ := globals_are_completed_declarations [⟨config, .run "var a = 1;"⟩] r
  have only {x : String} (new : ¬ s.hasGlobal x) (other : ¬ Stmt.anyDeclares x (s.completed r)) :
      ¬ (s.perform r).2.hasGlobal x := fun present =>
    other (Stmt.anyDeclares_iff.mpr (((names x).mp present).resolve_left new))
  have length : (s.completed r).length = 2 := by decide +kernel
  have known : s.hasGlobal "a" := by decide +kernel
  have declared : Stmt.anyDeclares "f" (s.completed r) := by decide +kernel
  refine ⟨length, (names "a").mpr (.inl known),
    (names "f").mpr (.inr (Stmt.anyDeclares_iff.mp declared)), only ?_ ?_, only ?_ ?_⟩
  all_goals decide +kernel

end LoxLang
