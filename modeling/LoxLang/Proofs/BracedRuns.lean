import LoxLang.Proofs.BracedTexts
import LoxLang.Proofs.CheckedTexts
import LoxLang.Proofs.EnclosedExecution
import LoxLang.Proofs.EnclosedScopes
import LoxLang.Proofs.StatementsInTurn

/-!
Programs run between braces.  The names that a program declares at the top level are kept in the
table of the globals and looked up by name; between braces they are kept in the frame of a block and
found by their distances.  A program that declares its names before it uses them does the same in
both cases.
-/

set_option autoImplicit false
set_option relaxedAutoImplicit false

namespace LoxLang

open EvalM

/-! Statements at the top level. -/

section

variable {R : Rebinding} {N : List String}

private theorem Rebinding.Binds.before {depth : Nat} {id : ExprId} {name own : String}
    (h : R.Binds (own :: N) depth id name) (other : name ≠ own) : R.Binds N depth id name := by
  cases h with
  | inner inside plain braced => exact .inner inside plain braced
  | moved plain braced declared =>
    exact .moved plain braced (List.mem_of_ne_of_mem other declared)
  | global plain braced unknown => exact .global plain braced unknown

private theorem Rebinding.accepted_before {own : String} {enclosing : ClassContext}
    {Γ : StaticStack} {id : ExprId} {name : Token} (other : name.lexeme ≠ own)
    (accepted : Accepted (R.Meets (own :: N)) none (Walk.expr enclosing Γ (.variable id name))) :
    Accepted (R.Meets N) none (Walk.expr enclosing Γ (.variable id name)) := by
  have meets := (accepted.right _ List.mem_cons_self).1
  refine .of_met (fun e Δ met => ?_) fun e => accepted.not_fault
  have here : Note.met e Δ = .met (.variable id name) Γ := by
    rcases List.mem_append.mp met with fault | met
    · obtain ⟨_, same⟩ := Walk.read_faults Γ name _ fault
      cases same
    · exact List.mem_singleton.mp met
  obtain ⟨rfl, rfl⟩ := Note.met.inj here
  refine ⟨fun id' name' refers => ?_, fun _ _ _ same => by cases same⟩
  obtain ⟨rfl, rfl⟩ := Prod.mk.inj (Option.some.inj refers)
  exact (meets.binds id name rfl).before other

private theorem Walk.inherited_other {A : Expr → StaticStack → Prop} {missing : Option String}
    {name superName : Token} {id : ExprId}
    (accepted : Accepted A missing (Walk.inherited name (.variable id superName))) :
    superName.lexeme ≠ name.lexeme := by
  intro same
  refine accepted.not_fault (e := ⟨superName, .inheritsFromItself⟩) ?_
  simp [Walk.inherited, Expr.variableName?, same]

variable {w w' : Surroundings}

private theorem EnclosedSteps.topLevel (around : R.Surrounds w w') (bound : Nat) {s : Stmt}
    (wellFormed : s.WellFormed) (own : ∀ name ∈ s.declared, name ∈ R.declared)
    (accepted : Accepted (R.Meets (s.fixed ++ N)) none (Walk.stmt .top [] s)) :
    Enclosed R N (s.declared ++ N) .globals (fun _ _ => True) (execStmt w bound s)
      (execStmt w' bound s) := by
  have globals : Stands .apart none [] .globals := .globals
  cases bound with
  | zero =>
    rw [execStmt, execStmt]
    exact .failure _
  | succ bound =>
    have steps := EnclosedSteps.all (N := N) around bound
    cases s with
    | var name initializer =>
      exact steps.var_succ globals (.outer (own _ List.mem_cons_self)) accepted.right
    | function decl =>
      exact function_succ globals (.outer (own _ List.mem_cons_self)) wellFormed accepted.right
    | classDecl name superclass methods =>
      have defines : Defines R N (name.lexeme :: N) .globals name.lexeme :=
        .outer (own _ List.mem_cons_self)
      cases superclass with
      | none => exact class_succ globals defines wellFormed.2.2 accepted.right
      | some e =>
        obtain ⟨_, id, superName, rfl⟩ := wellFormed.2.1 e rfl
        have other := Walk.inherited_other accepted.left.left.right
        exact steps.subclass_succ globals defines wellFormed.2.2
          (Rebinding.accepted_before other accepted.left.right) accepted.right
    | expression _ | print _ | block _ | branch _ _ _ | loop _ _ | ret _ _ =>
      have declares := Stmt.declared_eq_nil _ wellFormed rfl
      have fixes : Stmt.fixed _ = [] := List.eq_nil_iff_forall_not_mem.mpr fun name member =>
        List.not_mem_nil (declares ▸ Stmt.declared_of_fixed member)
      rw [fixes] at accepted
      rw [declares]
      exact steps.stmt_succ around globals wellFormed (fun _ => rfl) accepted

def EndAlike (out out' : Except Interrupt Unit × Machine) : Prop :=
  out'.1 = out.1 ∧ out'.2.lines = out.2.lines

private theorem execEach_enclosed (around : R.Surrounds w w') (bound : Nat) {ss : List Stmt}
    (wellFormed : Stmt.WellFormedAll ss) (own : ∀ name ∈ Stmt.declaredAll ss, name ∈ R.declared)
    (accepts : R.AcceptsAll N ss) {m m' : Machine} (hm : MachineEnclosed R N m m')
    (scope : m.scope = .globals) :
    EndAlike ((execEach w bound ss).outcome m) ((execEach w' bound ss).outcome m') := by
  induction ss generalizing N m m' with
  | nil => exact ⟨rfl, congrArg Array.toList hm.printed⟩
  | cons s ss ih =>
    rw [Stmt.declaredAll_cons] at own
    have ends := EnclosedSteps.topLevel around bound wellFormed.1
      (fun name member => own name (List.mem_append_left _ member)) accepts.1 m m' hm scope
    have stays := Unreturned.topLevel (fun _ => accepts.1.not_fault) w bound m
    rw [execEach, execEach, outcome_bind, outcome_bind]
    generalize (execStmt w bound s).outcome m = out, (execStmt w' bound s).outcome m' = out'
      at ends stays
    cases ends with
    | ok _ hm scope =>
      exact ih wellFormed.2 (fun name member => own name (List.mem_append_right _ member)) accepts.2
        hm scope
    | failure f hm _ => exact ⟨rfl, congrArg Array.toList hm.printed⟩
    | returned _ _ _ => exact absurd rfl (stays _)

end

private theorem BindingsEnclosed.natives (R : Rebinding) (N : List String) :
    BindingsEnclosed R N
      ((∅ : Bindings).insert Native.clock.name (.callable (.native .clock)))
      ((∅ : Bindings).insert Native.clock.name (.callable (.native .clock))) :=
  BindingsEnclosed.empty.insert _ ⟨rfl, trivial, fun _ same => by cases same⟩

private theorem Store.local?_initial (f : FrameId) (name : String) :
    Machine.initial.store.local? f name =
      if f = 0 then ((∅ : Bindings).insert Native.clock.name (.callable (.native .clock)))[name]?
      else none := by
  rw [Machine.initial, Store.local?_newScope]
  rfl

private theorem MachineEnclosed.initial (R : Rebinding) :
    MachineEnclosed R [] .initial
      { Machine.initial with
        store := (Machine.initial.store.newScope ∅ (some .globals)).2
        scope := (Machine.initial.store.newScope ∅ (some .globals)).1 } where
  scope := rfl
  depth := rfl
  printed := rfl
  readings := rfl
  store := {
    size := rfl
    globals := Nat.one_pos
    declared := List.forall_mem_nil _
    held := List.forall_mem_nil _
    kept := by
      intro f name
      have size : Machine.initial.store.frames.size = 1 := rfl
      rw [Store.local?_newScope, size, Store.local?_initial, Store.local?_initial]
      cases f with
      | zero => exact BindingsEnclosed.natives R [] name
      | succ f =>
        rw [home_inner (Nat.succ_ne_zero f), if_neg (Nat.succ_ne_zero f),
          if_neg (Nat.succ_ne_zero (f + 1))]
        split <;> simp
    objects := rfl
    fields := fun _ _ => .none
    nextClass := rfl }

/-! Programs with and without braces. -/

def Rebinding.ofProgram (program : List Stmt) : Rebinding where
  plain := (resolve ∅ program).distances
  braced := (resolve ∅ [.block program]).distances
  declared := Stmt.declaredAll program

private theorem Walk.program_block (program : List Stmt) :
    Walk.program [.block program] = Walk.stmts .top [⟨.block program, ∅⟩] program :=
  List.append_nil _

private theorem Rebinding.acceptsAll_ofProgram {program : List Stmt}
    (wellFormed : Stmt.WellFormedAll program) (correct : (resolve ∅ program).errors = [])
    (distinct : (Stmt.labelsAll program).Nodup) (first : DeclaredFirst program) :
    (Rebinding.ofProgram program).AcceptsAll [] program := by
  have placed := Walk.program_placed wellFormed (Walk.program_accepted correct)
  have labels : Stmt.labelsAll [.block program] = Stmt.labelsAll program := List.append_nil _
  have braced := foreseen_resolve (labels ▸ distinct)
  rw [Walk.program_block] at braced
  refine acceptsAll wellFormed (Walk.not_fault_program correct) placed (foreseen_resolve distinct)
    braced (fun name => ?_) first fun _ => .inr
  simp

private theorem execEachInBlock_alike {program : List Stmt}
    (wellFormed : Stmt.WellFormedAll program)
    (correct : (resolve ∅ program).errors = []) (distinct : (Stmt.labelsAll program).Nodup)
    (first : DeclaredFirst program) (config : Config) (bound : Nat) :
    EndAlike
      ((execEach ⟨config, (resolve ∅ program).distances⟩ bound program).outcome .initial)
      ((execEachInBlock ⟨config, (resolve ∅ [.block program]).distances⟩ bound program).outcome
        .initial) := by
  have around : (Rebinding.ofProgram program).Surrounds ⟨config, (resolve ∅ program).distances⟩
      ⟨config, (resolve ∅ [.block program]).distances⟩ := ⟨rfl, rfl, rfl⟩
  have accepts := Rebinding.acceptsAll_ofProgram wellFormed correct distinct first
  exact execEach_enclosed around bound wellFormed (fun _ member => member) accepts
    (MachineEnclosed.initial _) rfl

private theorem outcome_execEach_single (w : Surroundings) (bound : Nat) (s : Stmt) (m : Machine) :
    (execEach w bound [s]).outcome m = (execStmt w bound s).outcome m := by
  rw [execEach, outcome_bind]
  rcases (execStmt w bound s).outcome m with ⟨_ | _, m'⟩ <;> rfl

/-! Runs. -/

def RunEnds (run : Except SessionError Unit × Session) (out : Except Interrupt Unit × Machine) :
    Prop :=
  ∃ r : Except Failure Unit, out.1 = r.mapError .failure ∧ run.1 = r.mapError .failed ∧
    run.2.lines = out.2.lines

private theorem Session.run_initial (config : Config) {source : String} {program : List Stmt}
    (read : (readProgram ⟨0, 0⟩ source).result = .ok program)
    (correct : (resolve ∅ program).errors = []) :
    RunEnds (initial.run config source)
      ((execEach ⟨config, (resolve ∅ program).distances⟩ config.bound program).outcome
        .initial) := by
  obtain ⟨ends, lines⟩ := Interpreter.execute_each config (Interpreter.initial.resolve program).2
    (Walk.program_accepted correct)
  rw [initial.run_executed config source read correct]
  exact ⟨_, ends.symm, rfl, lines⟩

/-- A second run does what the first one does, or that one is cut short and the second one goes on:
what it prints begins with what the first one has printed by then. -/
def RunGoesOn (run run' : Except SessionError Unit × Session) : Prop :=
  (run'.1 = run.1 ∧ run'.2.lines = run.2.lines) ∨
    run.1 = .error (.failed .exhausted) ∧ run.2.lines <+: run'.2.lines

def EndGoesOn (out out' : Except Interrupt Unit × Machine) : Prop :=
  EndAlike out out' ∨ Exhausted out.1 ∧ out.2.lines <+: out'.2.lines

section

variable {out out' out'' : Except Interrupt Unit × Machine}

private theorem GoesOn.ends {act act' : EvalM Unit} (h : GoesOn act act') (m : Machine) :
    EndGoesOn (act.outcome m) (act'.outcome m) := by
  rcases h.further m with same | cut
  · rw [same]
    exact .inl ⟨rfl, rfl⟩
  · exact .inr cut

private theorem EndGoesOn.behind (alike : EndAlike out out') (h : EndGoesOn out' out'') :
    EndGoesOn out out'' := by
  unfold EndGoesOn EndAlike at *
  rw [← alike.1, ← alike.2]
  exact h

private theorem EndGoesOn.before (h : EndGoesOn out out') (alike : EndAlike out'' out') :
    EndGoesOn out out'' := by
  unfold EndGoesOn EndAlike at *
  rw [← alike.1, ← alike.2]
  exact h

end

private theorem RunGoesOn.of_ends {run run' : Except SessionError Unit × Session}
    {out out' : Except Interrupt Unit × Machine} (h : RunEnds run out) (h' : RunEnds run' out')
    (ends : EndGoesOn out out') : RunGoesOn run run' := by
  obtain ⟨r, same, result, lines⟩ := h
  obtain ⟨r', same', result', lines'⟩ := h'
  unfold RunGoesOn
  rw [result, result', lines, lines']
  rcases ends with ⟨alike, printed⟩ | ⟨cut, printed⟩
  · rw [same, same'] at alike
    obtain rfl : r' = r := by
      rcases r with _ | _ <;> rcases r' with _ | _ <;> cases alike <;> rfl
    exact .inl ⟨rfl, printed⟩
  · rw [same] at cut
    obtain rfl : r = .error .exhausted := by
      rcases r with _ | _ <;> cases cut
      rfl
    exact .inr ⟨rfl, printed⟩

/-- The text is a program that declares its names before it uses them, if it is one. -/
def DeclaresFirst (source : String) : Prop :=
  ∀ program, (readProgram ⟨0, 0⟩ source).result = .ok program → DeclaredFirst program

instance (source : String) : Decidable (DeclaresFirst source) :=
  match read : (readProgram ⟨0, 0⟩ source).result with
  | .ok program => decidable_of_iff (DeclaredFirst program) (by simp [DeclaresFirst, read])
  | .error _ => isTrue (by simp [DeclaresFirst, read])

/-- A program prints the same and ends in the same way with braces around it, if it passes the
checks with and without them and no name that it declares at the top level is used before it is
declared.  In a fresh session either run goes on where the other one, with a bound on nested steps
that is smaller by some constant, is cut short, and does the same if that is not cut short: it
prints the same lines and gives the same result, down to the fault and its line. -/
theorem braced_runs_alike {source : String} (plain : Checked source)
    (block : Checked (braced source)) (first : DeclaresFirst source) :
    ∃ extra : Nat, ∀ (config : Config) (limit : Nat),
      (config.bound ≤ limit → RunGoesOn (Session.initial.run config (braced source))
        (Session.initial.run { config with bound := limit } source)) ∧
      (config.bound + extra ≤ limit → RunGoesOn (Session.initial.run config source)
        (Session.initial.run { config with bound := limit } (braced source))) := by
  obtain ⟨program, read, correct⟩ := plain
  obtain ⟨_, read', correct'⟩ := block
  obtain rfl : _ = [.block program] :=
    Except.ok.inj (read'.symm.trans (congrArg Parsed.result (readProgram_braced read)))
  have alike := execEachInBlock_alike (readProgram_wellFormed read) correct
    (readProgram_numbered read).nodup (first program read)
  refine ⟨program.length + 2, fun config limit => ⟨fun le => ?_, fun le => ?_⟩⟩
  · refine .of_ends (Session.run_initial config read' correct')
      (Session.run_initial { config with bound := limit } read correct) ?_
    have further := block_goesOn ⟨config, (resolve ∅ [.block program]).distances⟩ le program
    have around : Surroundings.mk { config with bound := limit } (resolve ∅ program).distances =
        (Surroundings.mk config (resolve ∅ program).distances).within limit := rfl
    rw [outcome_execEach_single, around, execEach_within]
    exact (further.ends .initial).before (alike config limit)
  · refine .of_ends (Session.run_initial config read correct)
      (Session.run_initial { config with bound := limit } read' correct') ?_
    have further := execEachInBlock_goesOn ⟨config, (resolve ∅ [.block program]).distances⟩ le
    have around : Surroundings.mk { config with bound := limit }
        (resolve ∅ [.block program]).distances =
          (Surroundings.mk config (resolve ∅ [.block program]).distances).within limit := rfl
    rw [outcome_execEach_single, around, execStmt_within]
    exact (further.ends .initial).behind (alike config config.bound)

/-- A method that calls the one of its superclass, which changes a variable of the top level, and
then a fault. -/
theorem method_call_braced_runs_alike :
    let config : Config := ⟨none, .working, fun _ => 0, 100⟩
    let source := "var a = \"x\";\n" ++
      "class A \x7b m() \x7b a = a + \"y\"; \x7d \x7d\n" ++
      "class B < A \x7b m() \x7b super.m(); \x7d \x7d\n" ++
      "B().m();\n" ++
      "print a;\n" ++
      "print -a;"
    let run := Session.initial.run config source
    Checked source ∧ Checked (braced source) ∧ DeclaresFirst source ∧
      run.1 = .error (.failed (.fault ⟨6, .operandNotNumber⟩)) ∧ run.2.lines = ["xy"] := by
  intro config source run
  have plain : Checked source := by decide +kernel
  have block : Checked (braced source) := by decide +kernel
  have first : DeclaresFirst source := by decide +kernel
  have faults : (Session.initial.run config (braced source)).1 =
      .error (.failed (.fault ⟨6, .operandNotNumber⟩)) := by decide +kernel
  have prints : (Session.initial.run config (braced source)).2.lines = ["xy"] := by decide +kernel
  obtain ⟨_, alike⟩ := braced_runs_alike plain block first
  have goesOn : RunGoesOn (Session.initial.run config (braced source)) run :=
    (alike config 100).1 (Nat.le_refl 100)
  refine ⟨plain, block, first, ?_⟩
  rcases goesOn with ⟨result, lines⟩ | ⟨cut, _⟩
  · exact ⟨result.trans faults, lines.trans prints⟩
  · rw [faults] at cut
    cases cut

end LoxLang
