import Mathlib.Data.List.Perm.Subperm
import LoxLang.Proofs.ResolveWalk

/-!
Numbers in a walk.  Each number of a tree is met at most once, so in a tree with distinct numbers
the distance recorded for an expression is the one found where that expression is met.
-/

set_option autoImplicit false
set_option relaxedAutoImplicit false

namespace LoxLang

open List Std

def Note.label? : Note → Option Label
  | .met e _ => e.reference?.map fun (id, _) => .expr id
  | .fault _ => none

/-- The numbers of the expressions of some notes. -/
def metLabels (notes : List Note) : List Label := notes.filterMap Note.label?

namespace Walk

theorem metLabels_append (notes notes' : List Note) :
    metLabels (notes ++ notes') = metLabels notes ++ metLabels notes' :=
  List.filterMap_append

private theorem metLabels_append_subperm {notes notes' : List Note} {ls ls' : List Label}
    (h : metLabels notes <+~ ls) (h' : metLabels notes' <+~ ls') :
    metLabels (notes ++ notes') <+~ ls ++ ls' :=
  metLabels_append notes notes' ▸ h.append h'

private theorem metLabels_faults_append {notes notes' : List Note} {ls : List Label}
    (faults : ∀ n ∈ notes, ∃ e, n = .fault e) (h : metLabels notes' <+~ ls) :
    metLabels (notes ++ notes') <+~ ls := by
  have none : metLabels notes = [] := by
    refine List.filterMap_eq_nil_iff.mpr fun n hn => ?_
    obtain ⟨e, rfl⟩ := faults n hn
    rfl
  rw [metLabels_append, none]
  exact h

theorem declared_faults (Γ : StaticStack) (name : Token) :
    ∀ n ∈ declared Γ name, ∃ e, n = .fault e := by
  unfold declared
  split <;> simp

theorem declaredAll_faults (names : List Token) (Γ : StaticStack) :
    ∀ n ∈ declaredAll names Γ, ∃ e, n = .fault e := by
  induction names generalizing Γ with
  | nil => simp [declaredAll]
  | cons name names ih =>
    intro n hn
    rcases List.mem_append.mp hn with hn | hn
    · exact declared_faults Γ name n hn
    · exact ih _ n hn

theorem read_faults (Γ : StaticStack) (name : Token) : ∀ n ∈ read Γ name, ∃ e, n = .fault e := by
  unfold read
  split <;> simp

theorem returned_faults (context : FunctionContext) (keyword : Token) (hasValue : Bool) :
    ∀ n ∈ returned context keyword hasValue, ∃ e, n = .fault e := by
  unfold returned
  split <;> split <;> simp

theorem inherited_faults (name : Token) (e : Expr) : ∀ n ∈ inherited name e, ∃ e, n = .fault e := by
  unfold inherited
  split
  · split <;> simp
  · simp

mutual

theorem expr_labels (enclosing : ClassContext) (Γ : StaticStack) :
    ∀ e, metLabels (expr enclosing Γ e) <+~ e.labels
  | .literal _ => .refl _
  | .grouping inner => expr_labels enclosing Γ inner
  | .unary _ operand => expr_labels enclosing Γ operand
  | .binary _ left right | .logical _ left right =>
    metLabels_append_subperm (expr_labels enclosing Γ left) (expr_labels enclosing Γ right)
  | .variable _ name => metLabels_faults_append (read_faults Γ name) (.refl _)
  | .assign _ _ value => metLabels_append_subperm (expr_labels enclosing Γ value) (.refl _)
  | .call callee _ args =>
    metLabels_append_subperm (expr_labels enclosing Γ callee) (exprs_labels enclosing Γ args)
  | .get object _ => expr_labels enclosing Γ object
  | .set object _ value =>
    (metLabels_append_subperm (expr_labels enclosing Γ value)
      (expr_labels enclosing Γ object)).trans List.perm_append_comm.subperm
  | .this _ _ => by
    cases enclosing with
    | outside => exact List.nil_subperm
    | plain => exact .refl _
    | derived => exact .refl _
  | .super _ _ _ => by
    cases enclosing <;> exact .refl _

private theorem exprs_labels (enclosing : ClassContext) (Γ : StaticStack) :
    ∀ es, metLabels (exprs enclosing Γ es) <+~ Expr.labelsAll es
  | [] => .refl _
  | e :: es => metLabels_append_subperm (expr_labels enclosing Γ e) (exprs_labels enclosing Γ es)

end

private theorem expr?_labels (enclosing : ClassContext) (Γ : StaticStack) (e : Option Expr) :
    metLabels (expr? enclosing Γ e) <+~ Expr.labelsOption e := by
  cases e with
  | none => exact .refl _
  | some e => exact expr_labels enclosing Γ e

mutual

private theorem stmt_labels (context : BindingContext) :
    ∀ (Γ : StaticStack) (s : Stmt), metLabels (stmt context Γ s) <+~ s.labels
  | Γ, .expression e | Γ, .print e => expr_labels context.enclosing Γ e
  | Γ, .var name initializer =>
    metLabels_faults_append (declared_faults Γ name) (expr?_labels context.enclosing _ initializer)
  | Γ, .block body => stmts_labels context _ body
  | Γ, .branch condition thenBranch elseBranch =>
    metLabels_append_subperm
      (metLabels_append_subperm (expr_labels context.enclosing Γ condition)
        (stmt_labels context Γ thenBranch))
      (stmt?_labels context _ elseBranch)
  | Γ, .loop condition body =>
    metLabels_append_subperm (expr_labels context.enclosing Γ condition)
      (stmt_labels context Γ body)
  | Γ, .function decl =>
    metLabels_faults_append (declared_faults Γ _) (function_labels context.enclosing _ _ decl)
  | Γ, .ret keyword value =>
    metLabels_faults_append (returned_faults _ _ _) (expr?_labels context.enclosing Γ value)
  | Γ, .classDecl name none methods =>
    metLabels_faults_append (declared_faults Γ name) (functions_labels .plain _ methods)
  | Γ, .classDecl name (some e) methods => by
    have class_labels := metLabels_append_subperm (expr_labels .derived (Γ.introduce name) e)
      (functions_labels .derived ((Γ.introduce name).inheriting name methods) methods)
    have h := metLabels_faults_append (declared_faults Γ name)
      (metLabels_faults_append (inherited_faults name e) class_labels)
    simp only [← List.append_assoc] at h
    exact h

private theorem stmt?_labels (context : BindingContext) :
    ∀ (Γ : StaticStack) (s : Option Stmt), metLabels (stmt? context Γ s) <+~ Stmt.labelsOption s
  | _, none => .refl _
  | Γ, some s => stmt_labels context Γ s

theorem stmts_labels (context : BindingContext) :
    ∀ (Γ : StaticStack) (ss : List Stmt), metLabels (stmts context Γ ss) <+~ Stmt.labelsAll ss
  | _, [] => .refl _
  | Γ, s :: ss => metLabels_append_subperm (stmt_labels context Γ s) (stmts_labels context _ ss)

private theorem function_labels (enclosing : ClassContext) (context : FunctionContext) :
    ∀ (Γ : StaticStack) (decl : FunctionDecl),
      metLabels (function enclosing context Γ decl) <+~ decl.labels
  | Γ, .mk site name params body => by
    have inside := metLabels_faults_append
      (declaredAll_faults params (⟨.call (.mk site name params body), ∅⟩ :: Γ))
      (stmts_labels ⟨context, enclosing⟩ (Γ.calling (.mk site name params body)) body)
    exact inside.trans (List.sublist_append_left _ _).subperm

private theorem functions_labels (enclosing : ClassContext) :
    ∀ (Γ : StaticStack) (decls : List FunctionDecl),
      metLabels (functions enclosing Γ decls) <+~ FunctionDecl.labelsAll decls
  | _, [] => .refl _
  | Γ, .mk site name params body :: decls =>
    metLabels_append_subperm (function_labels enclosing _ _ (.mk site name params body))
      (functions_labels enclosing Γ decls)

end

end Walk

theorem Note.label?_of_binding? {n : Note} {id : ExprId} {d : Nat} (h : n.binding? = some (id, d)) :
    n.label? = some (.expr id) := by
  cases n with
  | fault e => cases h
  | met e Γ =>
    rw [Note.binding?] at h
    rw [Note.label?]
    cases refers : e.reference? with
    | none => simp [refers] at h
    | some reference =>
      obtain ⟨number, name⟩ := reference
      rw [refers] at h
      cases found : Γ.distance? name.lexeme with
      | none => simp [found] at h
      | some d => simp_all

namespace Distances

theorem record_cons (D : Distances) (n : Note) (notes : List Note) :
    D.record (n :: notes) = (D.record [n]).record notes :=
  record_append D [n] notes

theorem record_one (D : Distances) (n : Note) (id : ExprId) :
    (D.record [n])[id]? =
      match n.binding? with
      | some (other, d) => if other = id then some d else D[id]?
      | none => D[id]? := by
  unfold record
  cases h : n.binding? with
  | none => simp [h]
  | some found =>
    obtain ⟨other, d⟩ := found
    simp [h, TreeMap.getElem?_insert]

private theorem record_other (D : Distances) {notes : List Note} {id : ExprId}
    (h : .expr id ∉ metLabels notes) : (D.record notes)[id]? = D[id]? := by
  induction notes generalizing D with
  | nil => rfl
  | cons n notes ih =>
    have rest : Label.expr id ∉ metLabels notes := fun member => by
      refine h (List.mem_filterMap.mpr ?_)
      obtain ⟨n, hn, label⟩ := List.mem_filterMap.mp member
      exact ⟨n, List.mem_cons_of_mem _ hn, label⟩
    rw [record_cons, ih _ rest, record_one]
    cases binding : n.binding? with
    | none => rfl
    | some found =>
      obtain ⟨other, d⟩ := found
      have different : other ≠ id := by
        rintro rfl
        exact h (List.mem_filterMap.mpr
          ⟨n, List.mem_cons_self, Note.label?_of_binding? binding⟩)
      exact if_neg different

/-- The distance of an expression whose number is met once is the one found there. -/
theorem record_met {D : Distances} {notes : List Note} (distinct : (metLabels notes).Nodup)
    {e : Expr} {Γ : StaticStack} {id : ExprId} {name : Token} (met : .met e Γ ∈ notes)
    (refers : e.reference? = some (id, name)) (fresh : D[id]? = none) :
    (D.record notes)[id]? = Γ.distance? name.lexeme := by
  have label : (Note.met e Γ).label? = some (.expr id) := by rw [Note.label?, refers]; rfl
  induction notes generalizing D with
  | nil => cases met
  | cons n notes ih =>
    rw [record_cons]
    rcases List.mem_cons.mp met with rfl | met
    · have once : Label.expr id ∉ metLabels notes := by
        rw [metLabels, List.filterMap_cons, label] at distinct
        exact (List.nodup_cons.mp distinct).1
      have binding : (Note.met e Γ).binding? = (Γ.distance? name.lexeme).map (id, ·) := by
        rw [Note.binding?, refers]
        cases h : Γ.distance? name.lexeme <;> simp [h]
      rw [record_other _ once, record_one, binding]
      cases Γ.distance? name.lexeme with
      | none => exact fresh
      | some d => exact if_pos rfl
    · have member : Label.expr id ∈ metLabels notes := List.mem_filterMap.mpr ⟨_, met, label⟩
      have rest : (metLabels notes).Nodup := by
        rw [metLabels, List.filterMap_cons] at distinct
        split at distinct
        · exact distinct
        · exact (List.nodup_cons.mp distinct).2
      refine ih rest met ?_
      rw [record_one]
      cases binding : n.binding? with
      | none => exact fresh
      | some found =>
        obtain ⟨other, d⟩ := found
        have different : other ≠ id := by
          rintro rfl
          rw [metLabels, List.filterMap_cons, Note.label?_of_binding? binding] at distinct
          exact (List.nodup_cons.mp distinct).1 member
        exact (if_neg different).trans fresh

end Distances

end LoxLang
