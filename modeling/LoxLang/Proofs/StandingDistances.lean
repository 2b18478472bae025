import Mathlib.Data.List.Nodup
import LoxLang.Proofs.ExecutedPrograms

/-!
The distances that a session has recorded stand.  Every tree that its parser makes carries numbers
which no other tree of the session carries, whatever becomes of the text: it may have faulty pieces,
break rules of binding, or fail while it runs.  So each distance is recorded once, and what comes
later neither changes it nor records one for an expression that was left without.
-/

set_option autoImplicit false
set_option relaxedAutoImplicit false

namespace LoxLang

open Std (TreeMap)

/-- What a parser makes of a text. -/
inductive SourceTree where
  | program (statements : List Stmt)
  | expression (e : Expr)

def Label.expr? : Label → Option ExprId
  | .expr id => some id
  | .site _ => none

namespace SourceTree

def labels : SourceTree → List Label
  | .program statements => Stmt.labelsAll statements
  | .expression e => e.labels

/-- The numbers of the expressions in a tree. -/
def ids (t : SourceTree) : List ExprId := t.labels.filterMap Label.expr?

end SourceTree

namespace Session

def parsed? (s : Session) (r : Request) : Option SourceTree :=
  match r.operation with
  | .run source =>
    let scanned := scan source
    (parseProgram s.labels scanned.tokens scanned.lastLine).result.toOption.map .program
  | .evaluate source => (readExpression s.labels source).result.toOption.map .expression
  | .resetErrors => none

def parsed (s : Session) : List Request → List SourceTree
  | [] => []
  | r :: rs => (s.parsed? r).toList ++ (s.perform r).2.parsed rs

def recordings (s : Session) (r : Request) : List (ExprId × Nat) :=
  match r.operation with
  | .run source =>
    match (readProgram s.labels source).result with
    | .ok program => (Walk.program program).filterMap Note.binding?
    | .error _ => []
  | .evaluate _ | .resetErrors => []

def recordingsAll (s : Session) : List Request → List (ExprId × Nat)
  | [] => []
  | r :: rs => s.recordings r ++ (s.perform r).2.recordingsAll rs

end Session

/-- Distances to which others are added, in order. -/
def Distances.add (D : Distances) (recordings : List (ExprId × Nat)) : Distances :=
  recordings.foldl (fun D (id, d) => D.insert id d) D

private theorem Distances.add_append (D : Distances)
    (recordings recordings' : List (ExprId × Nat)) :
    D.add (recordings ++ recordings') = (D.add recordings).add recordings' :=
  List.foldl_append

private theorem Distances.add_other (D : Distances) {recordings : List (ExprId × Nat)} {id : ExprId}
    (other : id ∉ recordings.map Prod.fst) : (D.add recordings)[id]? = D[id]? := by
  induction recordings generalizing D with
  | nil => rfl
  | cons recording recordings ih =>
    obtain ⟨number, d⟩ := recording
    rw [List.map_cons, List.mem_cons, not_or] at other
    refine (ih (D.insert number d) other.2).trans ?_
    simp [TreeMap.getElem?_insert, Ne.symm other.1]

private theorem Label.expr?_eq_some {l : Label} {id : ExprId} : l.expr? = some id ↔ l = .expr id :=
  by
  cases l <;> simp [Label.expr?]

private theorem Label.mem_filterMap_expr? {ls : List Label} {id : ExprId} :
    id ∈ ls.filterMap Label.expr? ↔ .expr id ∈ ls := by
  simp [List.mem_filterMap, Label.expr?_eq_some]

private theorem Numbered.expr? {lo hi : Labels} {ls : List Label} (h : Numbered lo ls hi) :
    (ls.filterMap Label.expr?).Nodup ∧ ∀ id ∈ ls.filterMap Label.expr?, id < hi.expr := by
  refine ⟨h.nodup.filterMap ?_, fun id member => ?_⟩
  · intro l l' id number number'
    rw [Option.mem_def, Label.expr?_eq_some] at number number'
    exact number.trans number'.symm
  · exact (h.within _ (Label.mem_filterMap_expr?.mp member)).2

private theorem bindings_sublist (notes : List Note) :
    ((notes.filterMap Note.binding?).map fun recording => Label.expr recording.1).Sublist
      (metLabels notes) := by
  induction notes with
  | nil => exact .slnil
  | cons n notes ih =>
    cases binding : n.binding? with
    | none =>
      rw [List.filterMap_cons_none binding, metLabels, List.filterMap_cons]
      split
      · exact ih
      · exact ih.cons _
    | some recording =>
      rw [List.filterMap_cons_some binding, metLabels,
        List.filterMap_cons_some (Note.label?_of_binding? binding)]
      exact ih.cons_cons _

namespace Session

private theorem parsed?_numbered (s : Session) (r : Request) :
    Numbered s.labels ((s.parsed? r).toList.flatMap SourceTree.labels)
      (s.perform r).2.labels := by
  obtain ⟨config, operation⟩ := r
  have nothing := Numbered.nil (s.perform_labels_le ⟨config, operation⟩)
  cases operation with
  | run source =>
    cases read : (parseProgram s.labels (scan source).tokens (scan source).lastLine).result with
    | error errors => simpa [parsed?, read, Except.toOption] using nothing
    | ok program =>
      have numbered := (parseProgram_sound read).2
      rw [perform, run_labels, readProgram]
      simpa [parsed?, read, Except.toOption, SourceTree.labels] using numbered
  | evaluate source =>
    cases read : (readExpression s.labels source).result with
    | error e => simpa [parsed?, read, Except.toOption] using nothing
    | ok e =>
      have numbered := readExpression_numbered read
      rw [perform, evaluate_labels]
      simpa [parsed?, read, Except.toOption, SourceTree.labels] using numbered
  | resetErrors => simpa [parsed?] using nothing

private theorem parsed_numbered (s : Session) (rs : List Request) :
    Numbered s.labels ((s.parsed rs).flatMap SourceTree.labels) (s.performAll rs).labels := by
  induction rs generalizing s with
  | nil => exact .nil Labels.le_rfl
  | cons r rs ih =>
    rw [parsed, List.flatMap_append]
    exact (s.parsed?_numbered r).append (ih _)

private theorem parsed_ids (s : Session) (rs : List Request) :
    (s.parsed rs).flatMap SourceTree.ids =
      ((s.parsed rs).flatMap SourceTree.labels).filterMap Label.expr? :=
  (List.filterMap_flatMap ..).symm

private theorem recordings_subperm (s : Session) (r : Request) :
    ((s.recordings r).map fun recording => Label.expr recording.1).Subperm
      ((s.parsed? r).toList.flatMap SourceTree.labels) := by
  obtain ⟨config, operation⟩ := r
  cases operation with
  | run source =>
    cases read : (readProgram s.labels source).result with
    | error errors => simp [recordings, read]
    | ok program =>
      have walked := (bindings_sublist (Walk.program program)).subperm.trans
        (Walk.stmts_labels .top [] program)
      simpa [recordings, read, parsed?, (readProgram_ok read).2, Except.toOption,
        SourceTree.labels] using walked
  | evaluate source => simp [recordings]
  | resetErrors => simp [recordings]

private theorem recordingsAll_subperm (s : Session) (rs : List Request) :
    ((s.recordingsAll rs).map fun recording => Label.expr recording.1).Subperm
      ((s.parsed rs).flatMap SourceTree.labels) := by
  induction rs generalizing s with
  | nil => exact List.nil_subperm
  | cons r rs ih =>
    rw [recordingsAll, parsed, List.map_append, List.flatMap_append]
    exact (s.recordings_subperm r).append (ih _)

private theorem perform_distances (s : Session) (r : Request) :
    (s.perform r).2.interpreter.distances = s.interpreter.distances.add (s.recordings r) := by
  obtain ⟨config, operation⟩ := r
  cases operation with
  | run source =>
    rw [perform]
    cases read : (readProgram s.labels source).result with
    | error errors =>
      simp only [run_unread config s source read, recordings, read]
      rfl
    | ok program =>
      have resolved : (s.interpreter.resolve program).2.distances =
          s.interpreter.distances.add ((Walk.program program).filterMap Note.binding?) := by
        rw [Interpreter.resolve, resolve_eq]
        rfl
      by_cases bound : (s.interpreter.resolve program).1 = []
      · simpa only [run_executed config s source read bound, recordings, read,
          Interpreter.execute_distances] using resolved
      · simpa only [run_unbound config s source read bound, recordings, read] using resolved
  | evaluate source =>
    rw [perform]
    cases read : (readExpression s.labels source).result with
    | error e =>
      simp only [evaluate_unread config s source read, recordings]
      rfl
    | ok e =>
      simp only [evaluate_read config s source read, recordings]
      rfl
  | resetErrors => rfl

private theorem performAll_distances (s : Session) (rs : List Request) :
    (s.performAll rs).interpreter.distances =
      s.interpreter.distances.add (s.recordingsAll rs) := by
  induction rs generalizing s with
  | nil => rfl
  | cons r rs ih => rw [performAll, ih, perform_distances, recordingsAll, Distances.add_append]

private theorem performAll_distances_below (s : Session) (rs : List Request) {id : ExprId}
    (below : id < s.labels.expr) :
    (s.performAll rs).interpreter.distances[id]? = s.interpreter.distances[id]? := by
  rw [performAll_distances]
  refine Distances.add_other _ fun member => ?_
  obtain ⟨recording, recorded, rfl⟩ := List.mem_map.mp member
  have label := (s.recordingsAll_subperm rs).subset (List.mem_map_of_mem recorded)
  exact Nat.not_le_of_lt below ((s.parsed_numbered rs).within _ label).1

end Session

/-- Behind every history the expressions in all trees that were ever parsed carry distinct numbers
below the next one to be handed out.  The table holds just what was recorded, a distance was
recorded at most once for a number, and only for one in such a tree.  Whatever comes later leaves
what is in the table for those trees, and what is not, as it is. -/
theorem distances_stand (history later : List Request) :
    let s := Session.initial.performAll history
    let ids := (Session.initial.parsed history).flatMap SourceTree.ids
    let recorded := Session.initial.recordingsAll history
    (ids.Nodup ∧ ∀ id ∈ ids, id < s.labels.expr) ∧
      (s.interpreter.distances = Distances.add ∅ recorded ∧ (recorded.map Prod.fst).Nodup ∧
        ∀ id ∈ recorded.map Prod.fst, id ∈ ids) ∧
      ∀ id ∈ ids,
        (s.performAll later).interpreter.distances[id]? = s.interpreter.distances[id]? := by
  intro s ids recorded
  have numbered : Numbered ⟨0, 0⟩ ((Session.initial.parsed history).flatMap SourceTree.labels)
      s.labels := Session.initial.parsed_numbered history
  have among := Session.initial.recordingsAll_subperm history
  have eq : ids = ((Session.initial.parsed history).flatMap SourceTree.labels).filterMap
      Label.expr? := Session.initial.parsed_ids history
  obtain ⟨distinct, below⟩ := numbered.expr?
  rw [← eq] at distinct below
  have once : (recorded.map fun recording => Label.expr recording.1).Nodup :=
    (numbered.subperm among).nodup
  refine ⟨⟨distinct, below⟩, ⟨Session.initial.performAll_distances history, ?_, fun id member => ?_⟩,
    fun id member => s.performAll_distances_below later (below id member)⟩
  · refine List.Nodup.of_map Label.expr ?_
    rw [List.map_map]
    exact once
  · obtain ⟨recording, recorded, rfl⟩ := List.mem_map.mp member
    rw [eq, Label.mem_filterMap_expr?]
    exact among.subset (List.mem_map_of_mem recorded)

end LoxLang
