import Mathlib
import LoxLang.Proofs.JoinedRuns
import LoxLang.Proofs.RenamedScopes
import LoxLang.Proofs.RenamedTokens
import LoxLang.Proofs.ScopedSessions

/-!
Running a program in which a local variable has a new name.  Scoping is lexical: frames hold the
variable under its new name wherever the expressions bound to it look for it, so nothing shows but
the name that a fault may quote.
-/

set_option autoImplicit false
set_option relaxedAutoImplicit false

namespace LoxLang

namespace Session

def runRead (config : Config) (s : Session) (program : List Stmt) :
    Except SessionError Unit × Session :=
  match s.interpreter.resolve program with
  | ([], i) =>
    let (result, i) := i.execute config program
    (result.mapError .failed, s.after i result)
  | (errors, i) =>
    (.error (.rejected (errors.map StaticError.binding)), { s with interpreter := i }.refusing)

private theorem run_eq_runRead (config : Config) (s : Session) {source : String}
    {program : List Stmt} (read : (readProgram s.labels source).result = .ok program) :
    s.run config source = ((s.runRead config program).1,
      { (s.runRead config program).2 with labels := (readProgram s.labels source).labels }) := by
  rcases resolved : s.interpreter.resolve program with ⟨_ | ⟨e, es⟩, i⟩
  · simp only [run, read, runRead, resolved, after]
  · simp only [run, read, runRead, resolved, refusing]

private theorem runRead_executed (config : Config) (s : Session) {program : List Stmt}
    (bound : (s.interpreter.resolve program).1 = []) :
    s.runRead config program =
      let executed := (s.interpreter.resolve program).2.execute config program
      (executed.1.mapError .failed, s.after executed.2 executed.1) := by
  rcases resolved : s.interpreter.resolve program with ⟨_ | ⟨e, es⟩, i⟩
  · simp only [runRead, resolved]
  · rw [resolved] at bound
    cases bound

end Session

private theorem clear_of_resolve {i : Interpreter} {program : List Stmt}
    (bound : (i.resolve program).1 = []) : Walk.Clear (Walk.program program) :=
  (congrArg Resolved.errors (resolve_eq i.distances program)).symm.trans bound

private theorem found_program {s : Session} (recorded : s.Recorded) {source : String}
    {program : List Stmt} (read : (readProgram s.labels source).result = .ok program)
    (clear : Walk.Clear (Walk.program program)) :
    Accepted (Found (s.interpreter.resolve program).2.distances) none (Walk.program program) := by
  have numbered := readProgram_numbered read
  have labels := Walk.stmts_labels .top [] program
  have distances : (s.interpreter.resolve program).2.distances =
      s.interpreter.distances.record (Walk.program program) :=
    congrArg Resolved.distances (resolve_eq s.interpreter.distances program)
  refine .of_met (fun e Γ met id name refers => ?_) fun e member => ?_
  · have member := mem_of_metLabels labels (expr_mem_metLabels met refers)
    have fresh := recorded id (numbered.within _ member).1
    rw [distances]
    exact Distances.record_met (nodup_metLabels labels numbered.nodup) met refers fresh
  · exact Option.some_ne_none e (List.filterMap_eq_nil_iff.mp clear _ member)

inductive FaultRenamed (N : NewName) : RuntimeFault → RuntimeFault → Prop where
  | same (fault : RuntimeFault) : FaultRenamed N fault fault
  | unbound : FaultRenamed N (.unbound N.old) (.unbound N.new)
  | unboundLocal : FaultRenamed N (.unboundLocal N.old) (.unboundLocal N.new)

def ResultRenamed (N : NewName) (r r' : Except SessionError Unit) : Prop :=
  r' = r ∨ ∃ line fault fault', FaultRenamed N fault fault' ∧
    r = .error (.failed (.fault ⟨line, fault⟩)) ∧ r' = .error (.failed (.fault ⟨line, fault'⟩))

/-- Runs that show the same, but for the name of a variable that is not there. -/
structure RunRenamed (N : NewName) (r r' : Except SessionError Unit × Session) : Prop where
  printed : r'.2.lines = r.2.lines
  result : ResultRenamed N r.1 r'.1
  hadError : r'.2.hadError = r.2.hadError
  hadRuntimeError : r'.2.hadRuntimeError = r.2.hadRuntimeError

section

variable {D : Distances} {N : NewName}

private theorem Mirror.below_within_renaming (mark : Labels) :
    (Mirror.below mark).Within (.renaming D N) where
  expr h := h.1
  site h := h.1
  drop _ := rfl
  bound _ := trivial
  quoted h := .inl h
  allowed h := .inl h

private theorem FaultRel.renamed {fault fault' : RuntimeFault}
    (h : FaultRel (.renaming D N) fault fault') : FaultRenamed N fault fault' := by
  cases h with
  | refl fault => exact .same fault
  | unboundLocal quoted =>
    rcases quoted with rfl | ⟨rfl, rfl⟩
    · exact .same _
    · exact .unboundLocal
  | unbound quoted =>
    rcases quoted with rfl | ⟨rfl, rfl⟩
    · exact .same _
    · exact .unbound

private theorem EndRel.renamed {R : Unit → Unit → Prop} {r r' : Except Failure Unit}
    (h : EndRel (.renaming D N) R r r') :
    ResultRenamed N (r.mapError .failed) (r'.mapError .failed) ∧ r'.isOk = r.isOk := by
  cases h with
  | ok _ => exact ⟨.inl rfl, rfl⟩
  | error h =>
    refine ⟨?_, rfl⟩
    cases h with
    | fault line here h => exact .inr ⟨line, _, _, h.renamed, rfl, rfl⟩
    | sink text => exact .inl rfl
    | exhausted => exact .inl rfl

def NewName.exchange (N : NewName) (old : N.old ≠ "this" ∧ N.old ≠ "super")
    (new : N.NoKeyword) : Renaming where
  apply := Equiv.swap N.old N.new
  injective := Equiv.injective _
  this := Equiv.swap_apply_of_ne_of_ne old.1.symm new.this.symm
  super := Equiv.swap_apply_of_ne_of_ne old.2.symm new.super.symm

end

private theorem MachineRel.around_globals {M : Mirror} {W : World} {m m' : Machine}
    (h : MachineRel M W m m') : W.around .globals = [.refl] := by
  have first : W.of 0 = .refl := by rw [World.of, h.store.globals, Option.getD_some]
  exact congrArg (fun ρ => [ρ]) first

structure Renamable (program : List Stmt) (N : NewName) : Prop where
  formed : Stmt.WellFormedAll program
  clear : Walk.Clear (Walk.program program)
  declared : ∃ q ∈ programScopes program, q.path = N.scope ∧
    ∃ name ∈ q.variables, name.lexeme = N.old
  word : Kind.ofWord N.new = .identifier
  fresh : N.new ∉ Stmt.namesAll program

namespace Renamable

variable {program : List Stmt} {N : NewName} (h : Renamable program N)

include h

private theorem noKeyword : N.NoKeyword :=
  have isName : Token.IsName ⟨.identifier, N.new, 0⟩ := h.word
  ⟨isName.ne_this, isName.ne_super⟩

private theorem old_word : N.old ≠ "this" ∧ N.old ≠ "super" := by
  obtain ⟨q, hq, -, name, member, called⟩ := h.declared
  have isName := (programScopes_regular h.formed h.clear q hq).names name member
  exact called ▸ ⟨isName.ne_this, isName.ne_super⟩

private theorem home : Home N (programScopes program) := by
  obtain ⟨q, hq, here, name, member, called⟩ := h.declared
  intro q' hq' there
  obtain rfl : q = q' := programScopes_unique hq hq' (here.trans there.symm)
  rw [← called]
  exact (programScopes_regular h.formed h.clear q hq).not_fixed member

private theorem mirrored (D : Distances) :
    StmtsRel (.renaming D N) 0 [.refl] program (renameLocal N D program) :=
  StmtsRel.renameLocal (ρ := N.exchange h.old_word h.noKeyword) rfl program [false] [] 0 h.formed
    h.fresh h.home (fun marked => by cases marked)

private theorem resolves {s : Session} (recorded : s.Recorded) {source : String}
    (read : (readProgram s.labels source).result = .ok program) :
    s.interpreter.resolve (renameLocal N (s.interpreter.resolve program).2.distances program) =
      ([], (s.interpreter.resolve program).2) := by
  have found := found_program recorded read h.clear
  have rel := h.mirrored (s.interpreter.resolve program).2.distances
  have alike := rel.alike h.noKeyword .globals h.formed h.fresh found
  have resolved := alike.resolve s.interpreter.distances
  exact congrArg (fun r : Resolved =>
    (r.errors, { s.interpreter with distances := r.distances })) resolved

private theorem runs (config : Config) {s : Session}
    (self : SessionRel (.below s.labels) ⟨0, 0⟩ s s)
    (bound : (s.interpreter.resolve program).1 = [])
    (resolves : s.interpreter.resolve
        (renameLocal N (s.interpreter.resolve program).2.distances program) =
      ([], (s.interpreter.resolve program).2)) :
    RunRenamed N (s.runRead config program) (s.runRead config
      (renameLocal N (s.interpreter.resolve program).2.distances program)) := by
  obtain ⟨W, start⟩ := self.interpreter
  generalize distances : (s.interpreter.resolve program).2.distances = D at resolves ⊢
  have machine : MachineRel (.renaming D N) W s.interpreter.machine s.interpreter.machine :=
    start.machine.widen (Mirror.below_within_renaming s.labels)
  -- One table of distances serves both programs: what is looked up is as far out under either name.
  have resolved : InterpreterRel (.renaming D N) W (s.interpreter.resolve program).2
      (s.interpreter.resolve (renameLocal N D program)).2 := by
    rw [resolves]
    refine ⟨machine, start.scope, ?_⟩
    rintro _ id rfl
    exact ⟨rfl, congrArg (fun D : Distances => D[id]?) distances.symm⟩
  have tree : StmtsRel (.renaming D N) ((Mirror.renaming D N).drop 0) (W.around .globals) program
      (renameLocal N D program) := by
    rw [machine.around_globals]
    exact h.mirrored D
  obtain ⟨W', -, ends, behind⟩ := Interpreter.execute_rel config resolved tree
  obtain ⟨result, isOk⟩ := ends.renamed
  rw [s.runRead_executed config bound, s.runRead_executed config (congrArg Prod.fst resolves)]
  exact {
    printed := congrArg Array.toList behind.machine.printed
    result := result
    hadError := rfl
    hadRuntimeError := congrArg (s.hadRuntimeError || !·) isOk }

end Renamable

/-- The name of a local variable is not seen from outside.  Give a new name to a variable of a
program that passes all checks, one that is not global: where it is declared, and in the expressions
that the resolver binds to it.  What comes out is a program of the grammar, made of the same tokens
but for the name; it declares the variable under the new name, and passes all checks, with every
expression bound as it was.  In whatever session it is run, it prints the same and has the same
result; only a fault that tells that the variable is not there tells its new name. -/
theorem local_name_unseen (history : List Request) (config : Config) {source new : String}
    {program : List Stmt} {q : LocalScope} {name : Token}
    (read : (readProgram (Session.initial.performAll history).labels source).result = .ok program)
    (bound : ((Session.initial.performAll history).interpreter.resolve program).1 = [])
    (scope : q ∈ programScopes program) (declared : name ∈ q.variables)
    (word : Kind.ofWord new = .identifier) (fresh : new ∉ Stmt.namesAll program) :
    let s := Session.initial.performAll history
    let N : NewName := ⟨q.path, name.lexeme, new⟩
    let renamed := renameLocal N (s.interpreter.resolve program).2.distances program
    (∃ tokens, TokensRenamed N (scan source).tokens tokens ∧
        Grammar.Program .nearestIf tokens renamed) ∧
      (∃ q' ∈ programScopes renamed,
        q'.path = q.path ∧ q'.variables = q.variables.map (N.give true)) ∧
      s.interpreter.resolve renamed = ([], (s.interpreter.resolve program).2) ∧
      RunRenamed N (s.run config source) (s.runRead config renamed) ∧
      ∀ source', (readProgram s.labels source').result = .ok renamed →
        RunRenamed N (s.run config source) (s.run config source') := by
  intro s N renamed
  have recorded : s.Recorded := Session.Reachable.recorded ⟨history, rfl⟩
  have h : Renamable program N := {
    formed := readProgram_wellFormed read
    clear := clear_of_resolve bound
    declared := ⟨q, scope, rfl, name, declared, rfl⟩
    word := word
    fresh := fresh }
  have resolves := h.resolves recorded read
  -- What was declared before the program is bound as it was: below the numbers handed out so
  -- far the session mirrors itself.
  have self : SessionRel (.below s.labels) ⟨0, 0⟩ s s :=
    .performAll Mirror.plain_below Mirror.level_below Mirror.maps_below Mirror.fits_below
      (.initial Mirror.plain_below) history Labels.le_rfl
  have shown := h.runs config self bound resolves
  refine ⟨(parseProgram_sound (readProgram_ok read).2).1.renameLocal,
    programScopes_renameLocal scope rfl, resolves, ?_⟩
  rw [Session.run_eq_runRead config s read]
  refine ⟨⟨shown.printed, shown.result, shown.hadError, shown.hadRuntimeError⟩, ?_⟩
  intro source' read'
  rw [Session.run_eq_runRead config s read']
  exact ⟨shown.printed, shown.result, shown.hadError, shown.hadRuntimeError⟩

def capturing (x : String) : List Stmt :=
  [.block [.var ⟨.identifier, x, 1⟩ (some (.literal (.bool true))),
    .function (.mk 0 ⟨.identifier, "f", 1⟩ [] [.print (.variable 0 ⟨.identifier, x, 1⟩)]),
    .block [.var ⟨.identifier, "a", 1⟩ (some (.literal .nil)),
      .expression (.call (.variable 1 ⟨.identifier, "f", 1⟩) ⟨.rightParen, ")", 1⟩ [])]]]

/-- The text of such a tree. -/
def capturingText (x : String) : String :=
  "\x7b var " ++ x ++ " = true; fun f() \x7b print " ++ x ++ "; \x7d \x7b var a = nil; f(); \x7d \x7d"

private theorem read_capturing :
    (readProgram ⟨0, 0⟩ (capturingText "a")).result = .ok (capturing "a") ∧
      (readProgram ⟨0, 0⟩ (capturingText "b")).result = .ok (capturing "b") := by
  constructor <;> cbv

private theorem renameLocal_capturing :
    renameLocal ⟨[0], "a", "b"⟩ (Session.initial.interpreter.resolve (capturing "a")).2.distances
      (capturing "a") = capturing "b" := by
  cbv

/-- A variable that a function captures has a new name, also in the text, and the function reads
it. -/
theorem captured_name_unseen :
    let config : Config := ⟨none, .working, fun _ => 0, 100⟩
    let N : NewName := ⟨[0], "a", "b"⟩
    ∃ program, (readProgram ⟨0, 0⟩ (capturingText "a")).result = .ok program ∧
      let renamed := renameLocal N (Session.initial.interpreter.resolve program).2.distances program
      (readProgram ⟨0, 0⟩ (capturingText "b")).result = .ok renamed ∧
        Session.initial.interpreter.resolve renamed =
          ([], (Session.initial.interpreter.resolve program).2) ∧
        RunRenamed N (Session.initial.run config (capturingText "a"))
          (Session.initial.runRead config renamed) ∧
        RunRenamed N (Session.initial.run config (capturingText "a"))
          (Session.initial.run config (capturingText "b")) := by
  intro config N
  obtain ⟨read, read'⟩ := read_capturing
  rw [← renameLocal_capturing] at read'
  have bound : (Session.initial.interpreter.resolve (capturing "a")).1 = [] := by decide +kernel
  have fresh : "b" ∉ Stmt.namesAll (capturing "a") := by decide +kernel
  have found : (programScopes (capturing "a")).any fun q =>
      q.path = [0] ∧ q.variables.any (·.lexeme = "a") := by decide +kernel
  obtain ⟨q, scope, wanted⟩ := List.any_eq_true.mp found
  obtain ⟨path, declared⟩ := of_decide_eq_true wanted
  obtain ⟨name, member, called⟩ := List.any_eq_true.mp declared
  have word : Kind.ofWord "b" = .identifier := by decide
  have unseen := local_name_unseen [] config read bound scope member word fresh
  rw [path, of_decide_eq_true called] at unseen
  obtain ⟨_, _, resolves, runs, texts⟩ := unseen
  exact ⟨capturing "a", read, read', resolves, runs, texts (capturingText "b") read'⟩

end LoxLang
