import LoxLang.Proofs.ScopedSessions

/-!
The programs that a session executes.  They are made by the grammar and break no rule of binding,
and all that is met in them and in the expressions that the session evaluates is met once: the
numbers of a text are never those of another one.
-/

set_option autoImplicit false
set_option relaxedAutoImplicit false

namespace LoxLang

open List

theorem Numbered.subperm {lo hi : Labels} {ls ls' : List Label} (h : Numbered lo ls hi)
    (part : ls' <+~ ls) : Numbered lo ls' hi where
  le := h.le
  nodup := by
    obtain ⟨_, same, sublist⟩ := part
    exact same.nodup_iff.mp (h.nodup.sublist sublist)
  within l member := h.within l (part.subset member)

/-- An expression with a number of its own is met in one place only. -/
theorem met_unique {notes : List Note} (distinct : (metLabels notes).Nodup) {e : Expr}
    {r : ExprId × Token} (refers : e.reference? = some r) {Γ Γ' : StaticStack}
    (met : Met notes e Γ) (met' : Met notes e Γ') : Γ = Γ' := by
  have label : ∀ Δ, (Note.met e Δ).label? = some (.expr r.1) := by
    intro Δ
    rw [Note.label?, refers]
    rfl
  have labelled : ∀ {Δ rest}, Met rest e Δ → .expr r.1 ∈ metLabels rest :=
    fun met => mem_filterMap.mpr ⟨_, met, label _⟩
  induction notes with
  | nil => cases met
  | cons n notes ih =>
    rw [metLabels, filterMap_cons] at distinct
    rcases mem_cons.mp met with same | later <;> rcases mem_cons.mp met' with same' | later'
    · exact (Note.met.inj (same.trans same'.symm)).2
    · rw [← same, label] at distinct
      exact absurd (labelled later') (nodup_cons.mp distinct).1
    · rw [← same', label] at distinct
      exact absurd (labelled later) (nodup_cons.mp distinct).1
    · refine ih ?_ later later'
      split at distinct
      · exact distinct
      · exact (nodup_cons.mp distinct).2

namespace Session

private theorem notes_numbered (s : Session) (r : Request) :
    Numbered s.labels (metLabels (s.notes r)) (s.perform r).2.labels := by
  unfold notes
  split
  case h_1 program taken =>
    obtain ⟨source, operation, read, _⟩ := executed?_eq taken
    have labels : (s.perform r).2.labels = (readProgram s.labels source).labels := by
      simp only [perform, operation]
      exact run_labels r.config s source
    rw [labels]
    exact (readProgram_numbered read).subperm (Walk.stmts_labels .top [] program)
  case h_2 e _ taken =>
    obtain ⟨source, operation, read⟩ := evaluated?_eq taken
    have labels : (s.perform r).2.labels = (readExpression s.labels source).labels := by
      simp only [perform, operation]
      exact evaluate_labels r.config s source
    rw [labels]
    exact (readExpression_numbered read).subperm (Walk.expr_labels .derived [] e)
  case h_3 => exact .nil (perform_labels_le s r)

theorem notesAll_numbered (s : Session) (rs : List Request) :
    Numbered s.labels (metLabels (s.notesAll rs)) (s.performAll rs).labels := by
  induction rs generalizing s with
  | nil => exact .nil Labels.le_rfl
  | cons r rs ih =>
    rw [notesAll, Walk.metLabels_append]
    exact (s.notes_numbered r).append (ih _)

theorem executed_accepted {s : Session} {rs : List Request} {program : List Stmt}
    (member : program ∈ s.executed rs) :
    Stmt.WellFormedAll program ∧
      Accepted (Met (Walk.program program)) none (Walk.program program) := by
  induction rs generalizing s with
  | nil => cases member
  | cons r rs ih =>
    rcases mem_append.mp member with here | later
    · obtain ⟨source, _, read, bound⟩ := executed?_eq (Option.mem_toList.mp here)
      exact ⟨readProgram_wellFormed read, Walk.program_accepted bound⟩
    · exact ih later

theorem met_of_executed {s : Session} {rs : List Request} {program : List Stmt} {e : Expr}
    {Γ : StaticStack} (member : program ∈ s.executed rs) (met : .met e Γ ∈ Walk.program program) :
    Met (s.notesAll rs) e Γ := by
  induction rs generalizing s with
  | nil => cases member
  | cons r rs ih =>
    rcases mem_append.mp member with here | later
    · refine mem_append_left _ ?_
      rw [notes, Option.mem_toList.mp here]
      exact met
    · exact mem_append_right _ (ih later)

end Session

end LoxLang
