import LoxLang.Proofs.JoinedRuns
import LoxLang.Proofs.RelinedSessions
import LoxLang.Proofs.WalkNumbers
import Mathlib.Data.List.Perm.Basic

/-!
The statements of a program in another order.  The distances that are recorded for them are the
same, since none of them meets a number of another one.  And if any two of the statements may be
executed in either order, then all of them may be executed in any order: so may declarations of
functions with different names.
-/

set_option autoImplicit false
set_option relaxedAutoImplicit false

namespace LoxLang

open Std (TreeMap)

/-! Distances. -/

namespace Distances

private theorem record_congr {D D' : Distances} (agree : ∀ id : ExprId, D'[id]? = D[id]?)
    (notes : List Note) (id : ExprId) : (D'.record notes)[id]? = (D.record notes)[id]? := by
  induction notes generalizing D D' with
  | nil => exact agree id
  | cons n notes ih =>
    rw [record_cons D', record_cons D]
    exact ih fun id => by rw [record_one, record_one, agree]

private theorem record_swap (D : Distances) {n n' : Note} (distinct : (metLabels [n, n']).Nodup)
    (id : ExprId) : (D.record [n', n])[id]? = (D.record [n, n'])[id]? := by
  rw [record_cons D n', record_cons D n, record_one, record_one, record_one, record_one]
  cases first : n.binding? with
  | none => rfl
  | some found =>
    cases second : n'.binding? with
    | none => rfl
    | some found' =>
      obtain ⟨a, d⟩ := found
      obtain ⟨b, d'⟩ := found'
      have label := Note.label?_of_binding? first
      have label' := Note.label?_of_binding? second
      have apart : a ≠ b := by
        rintro rfl
        simp [metLabels, label, label'] at distinct
      dsimp only
      by_cases same : a = id
      · rw [if_pos same, if_neg fun other => apart (same.trans other.symm), if_pos same]
      · rw [if_neg same, if_neg same]

private theorem record_perm {notes notes' : List Note} (perm : notes'.Perm notes)
    (distinct : (metLabels notes).Nodup) (D : Distances) (id : ExprId) :
    (D.record notes')[id]? = (D.record notes)[id]? := by
  induction perm generalizing D with
  | nil => rfl
  | @cons n rest' rest _ ih =>
    rw [record_cons D n rest', record_cons D n rest]
    exact ih (distinct.sublist ((List.sublist_cons_self n _).filterMap _)) _
  | swap n n' notes =>
    rw [show n' :: n :: notes = [n', n] ++ notes from rfl,
      show n :: n' :: notes = [n, n'] ++ notes from rfl, record_append, record_append]
    have front : (metLabels [n, n']).Nodup :=
      distinct.sublist ((List.sublist_append_left [n, n'] notes).filterMap _)
    exact record_congr (record_swap D front) notes id
  | trans _ after ih ih' =>
    have between := (after.filterMap Note.label?).nodup_iff.mpr distinct
    exact (ih between D).trans (ih' distinct D)

end Distances

namespace Walk

private theorem program_eq_flatMap (ss : List Stmt) : program ss = ss.flatMap (stmt .top []) := by
  unfold program
  induction ss with
  | nil => rfl
  | cons s ss ih => rw [stmts, after_globals, ih, List.flatMap_cons]

end Walk

private theorem resolve_perm {p p' : List Stmt} (perm : p'.Perm p)
    (distinct : (Stmt.labelsAll p).Nodup) (D : Distances) (id : ExprId) :
    (resolve D p').distances[id]? = (resolve D p).distances[id]? := by
  have once : (metLabels (Walk.program p)).Nodup := by
    obtain ⟨ls, same, sublist⟩ := Walk.stmts_labels .top [] p
    exact same.nodup_iff.mp (distinct.sublist sublist)
  have notes : (Walk.program p').Perm (Walk.program p) := by
    rw [Walk.program_eq_flatMap, Walk.program_eq_flatMap]
    exact perm.flatMap_right _
  rw [resolve_eq, resolve_eq]
  exact Distances.record_perm notes once D id

theorem Stmt.relineAll_eq_map (line : Nat → Nat) (ss : List Stmt) :
    Stmt.relineAll line ss = ss.map (Stmt.reline line) := by
  induction ss with
  | nil => rfl
  | cons s ss ih => rw [relineAll, List.map_cons, ih]

namespace Interpreter.SameButLines

variable {i i' : Interpreter} {config : Config} {p p' : List Stmt}

theorem resolve_reordered (h : i.SameButLines i')
    (perm : (Stmt.relineAll oneLine p').Perm (Stmt.relineAll oneLine p))
    (distinct : (Stmt.labelsAll (Stmt.relineAll oneLine p)).Nodup) :
    (i.resolve p).2.SameButLines (i'.resolve p').2 := by
  obtain ⟨i₀, own, other⟩ := iff_relined.mp h
  have ended := (own.resolve p).2
  have ended' := (other.resolve p').2
  refine ⟨h.machine, fun id => ?_⟩
  have same := resolve_perm perm distinct i₀.distances id
  exact ((ended'.distances id).symm.trans same).trans (ended.distances id)

theorem execute_append {q q' : List Stmt}
    (first : EndsAlike (i.execute config p) (i'.execute config p'))
    (second : ∀ {j j' : Interpreter}, j.SameButLines j' →
      EndsAlike (j.execute config q) (j'.execute config q')) :
    EndsAlike (i.execute config (p ++ q)) (i'.execute config (p' ++ q')) := by
  have result := first.result
  cases ended : (i.execute config p).1 with
  | ok _ =>
    cases ended' : (i'.execute config p').1 with
    | ok _ =>
      rw [Interpreter.execute_append_ok ended, Interpreter.execute_append_ok ended']
      exact second first.interpreter
    | error f =>
      rw [ended, ended'] at result
      cases result
  | error f =>
    cases ended' : (i'.execute config p').1 with
    | ok _ =>
      rw [ended, ended'] at result
      cases result
    | error f' =>
      rw [Interpreter.execute_append_error ended, Interpreter.execute_append_error ended']
      exact first

end Interpreter.SameButLines

/-! Statements in either order. -/

def Stmt.Commutes (config : Config) (s t : Stmt) : Prop :=
  ∀ ⦃i i' : Interpreter⦄, i.SameButLines i' →
    EndsAlike (i.execute config [s, t]) (i'.execute config [t, s])

private theorem Stmt.Commutes.symm {config : Config} {s t : Stmt} (h : s.Commutes config t) :
    t.Commutes config s :=
  fun _ _ same => (h same.symm).symm

private theorem Interpreter.SameButLines.execute_perm {config : Config} {p p' : List Stmt}
    (perm : p'.Perm p) (commute : p.Pairwise (Stmt.Commutes config)) {i i' : Interpreter}
    (h : i.SameButLines i') : EndsAlike (i.execute config p) (i'.execute config p') := by
  induction perm generalizing i i' with
  | nil => exact h.execute config rfl
  | @cons s p p' _ ih =>
    have first : EndsAlike (i.execute config [s]) (i'.execute config [s]) := h.execute config rfl
    exact execute_append first (ih (List.pairwise_cons.mp commute).2)
  | swap s t p =>
    have both := (List.pairwise_cons.mp commute).1 t List.mem_cons_self
    exact execute_append (both h) fun same => same.execute config rfl
  | trans _ after ih ih' =>
    have between := (after.pairwise_iff fun both => both.symm).mpr commute
    exact (ih' commute h).trans (ih between (.refl i'))

/-- Programs with the same statements, any two of which commute, in another order and on other
lines. -/
theorem Interpreter.SameButLines.execute_reordered {config : Config} {p p' : List Stmt}
    (perm : (p'.map (Stmt.reline oneLine)).Perm (p.map (Stmt.reline oneLine)))
    (commute : p.Pairwise (Stmt.Commutes config)) {i i' : Interpreter} (h : i.SameButLines i') :
    EndsAlike (i.execute config p) (i'.execute config p') := by
  have lifted : Relation.Comp (· = List.map (Stmt.reline oneLine) ·) List.Perm
      (p'.map (Stmt.reline oneLine)) p := by
    rw [List.eq_map_comp_perm]
    exact perm
  obtain ⟨q, same, perm⟩ := lifted
  have tree : Stmt.relineAll oneLine p' = Stmt.relineAll oneLine q := by
    rw [Stmt.relineAll_eq_map, Stmt.relineAll_eq_map, same]
  exact (execute_perm perm commute h).trans ((refl i').execute config tree)

namespace Interpreter

def declare (i : Interpreter) (decl : FunctionDecl) : Interpreter :=
  { i with machine := { i.machine with
    store := i.machine.store.define i.machine.scope decl.name.lexeme
      (.callable (.function ⟨decl, i.machine.scope, false⟩)) } }

private theorem execute_function {config : Config} {bound : Nat} (steps : config.bound = bound + 1)
    (i : Interpreter) (decl : FunctionDecl) (ss : List Stmt) :
    i.execute config (.function decl :: ss) = (i.declare decl).execute config ss := by
  rw [execute_cons, steps]
  rfl

private theorem declare_comm {i i' : Interpreter} (h : i.SameButLines i')
    {decl other : FunctionDecl} (apart : decl.name.lexeme ≠ other.name.lexeme) :
    ((i.declare decl).declare other).SameButLines ((i'.declare other).declare decl) := by
  have store := h.machine.store
  have scope := h.machine.scope
  refine ⟨⟨⟨?_, fun frame name => ?_, store.objects, store.fields, store.nextClass⟩, scope,
    h.machine.depth, h.machine.printed, h.machine.readings⟩, h.distances⟩
  · simp [declare, Store.define, Store.setLocal, store.frames]
  · have size : ∀ (m : Store) (f : FrameId) (x : String) (v : Value),
        (m.setLocal f x v).frames.size = m.frames.size := by
      intro m f x v
      simp [Store.setLocal]
    simp only [declare, Store.define, Store.local?_setLocal, size, scope, store.frames]
    by_cases first : decl.name.lexeme = name
    · have second : other.name.lexeme ≠ name := fun same => apart (first.trans same.symm)
      simp only [first, second, true_and, false_and, and_false, if_false]
      split
      · rfl
      · exact store.locals frame name
    · simp only [first, false_and, and_false, if_false]
      split
      · rfl
      · exact store.locals frame name

end Interpreter

private theorem Stmt.commutes_function (config : Config) {decl other : FunctionDecl}
    (apart : decl.name.lexeme ≠ other.name.lexeme) :
    (Stmt.function decl).Commutes config (.function other) := by
  intro i i' h
  cases steps : config.bound with
  | zero =>
    -- Without a step left, neither declaration is come to.
    have ended : ∀ (j : Interpreter) (d : FunctionDecl) (ss : List Stmt),
        j.execute config (.function d :: ss) = (.error .exhausted, j.atGlobals) := by
      intro j d ss
      rw [Interpreter.execute_cons, steps]
      rfl
    rw [ended, ended]
    exact ⟨rfl, { h.machine with scope := rfl }, h.distances⟩
  | succ bound =>
    rw [Interpreter.execute_function steps, Interpreter.execute_function steps,
      Interpreter.execute_function steps, Interpreter.execute_function steps]
    exact ⟨rfl, Interpreter.declare_comm h apart⟩

def Stmt.functionName? : Stmt → Option String
  | .function decl => some decl.name.lexeme
  | _ => none

theorem Stmt.functionName?_reline (line : Nat → Nat) (s : Stmt) :
    (s.reline line).functionName? = s.functionName? := by
  cases s with
  | function decl =>
    rw [reline, functionName?, decl.reline_name]
    rfl
  | _ => rfl

private theorem Stmt.functionName?_eq_some {s : Stmt} {name : String}
    (h : s.functionName? = some name) :
    ∃ decl, s = .function decl ∧ decl.name.lexeme = name := by
  cases s with
  | function decl => exact ⟨decl, rfl, Option.some.inj h⟩
  | _ => cases h

theorem Stmt.pairwise_commutes (config : Config) {ss : List Stmt} {names : List String}
    (named : ss.map Stmt.functionName? = names.map some) (distinct : names.Nodup) :
    ss.Pairwise (Stmt.Commutes config) := by
  have apart : (ss.map Stmt.functionName?).Pairwise (· ≠ ·) := by
    rw [named]
    exact List.Pairwise.map some (fun _ _ different same => different (Option.some.inj same))
      distinct
  refine (List.pairwise_map.mp apart).imp_of_mem fun {s t} hs ht different => ?_
  have function : ∀ s ∈ ss, ∃ name, s.functionName? = some name := by
    intro s member
    have listed : s.functionName? ∈ names.map some := named ▸ List.mem_map_of_mem member
    obtain ⟨name, _, same⟩ := List.mem_map.mp listed
    exact ⟨name, same.symm⟩
  obtain ⟨name, first⟩ := function s hs
  obtain ⟨name', second⟩ := function t ht
  obtain ⟨decl, rfl, rfl⟩ := functionName?_eq_some first
  obtain ⟨other, rfl, rfl⟩ := functionName?_eq_some second
  exact commutes_function config fun same => different (congrArg some same)

end LoxLang
