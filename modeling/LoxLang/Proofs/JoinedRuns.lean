import LoxLang.Proofs.CheckedTexts
import LoxLang.Proofs.MirrorWidening
import LoxLang.Proofs.RejectedRuns

/-!
One text behind another one, run at once.  The statements of the first text meet nothing of the
second, and whatever they leave behind is what the first text leaves behind when it is run alone;
the statements of the second text go on from there.  So the whole does what the two texts do one
after the other, but the second one stands further down.
-/

set_option autoImplicit false
set_option relaxedAutoImplicit false

namespace LoxLang

/-! Two mirrors with the same numbers on both sides. -/

def Mirror.below (mark : Labels) : Mirror where
  expr id id' := id' = id ∧ id < mark.expr
  site site site' := site' = site ∧ site < mark.site
  drop _ := 0
  bound _ _ := True
  quoted name name' := name' = name
  allowed ρ := ρ = .refl
  site_iff := by
    rintro a _ b _ ⟨rfl, _⟩ ⟨rfl, _⟩
    rfl
  allowed_refl := rfl

def Mirror.dropping (drop : SiteId → Nat) : Mirror where
  expr id id' := id' = id
  site site site' := site' = site
  drop := drop
  bound _ _ := True
  quoted name name' := name' = name
  allowed ρ := ρ = .refl
  site_iff := by
    rintro a _ b _ rfl rfl
    rfl
  allowed_refl := rfl

section

variable {mark : Labels} {drop : SiteId → Nat}

theorem Mirror.plain_below : (Mirror.below mark).Plain where
  allowed h := h
  bound _ _ := trivial
  quoted := Iff.rfl
  expr_iff := by
    rintro a _ b _ ⟨rfl, _⟩ ⟨rfl, _⟩
    rfl

theorem Mirror.level_below : (Mirror.below mark).Level := fun _ => rfl

theorem Mirror.maps_below : (Mirror.below mark).Maps id id := ⟨fun h => h.1, fun h => h.1⟩

theorem Mirror.fits_below : (Mirror.below mark).Fits ⟨0, 0⟩ ⟨0, 0⟩ mark := by
  rintro (id | site) within
  · exact ⟨rfl, within.2⟩
  · exact ⟨⟨rfl, within.2⟩, rfl⟩

private theorem Mirror.plain_dropping : (Mirror.dropping drop).Plain where
  allowed h := h
  bound _ _ := trivial
  quoted := Iff.rfl
  expr_iff := by
    rintro a _ b _ rfl rfl
    rfl

private theorem Mirror.maps_dropping : (Mirror.dropping drop).Maps id id := ⟨fun h => h, fun h => h⟩

private theorem Mirror.below_within (flat : ∀ site < mark.site, drop site = 0) :
    (Mirror.below mark).Within (.dropping drop) where
  expr h := h.1
  site h := h.1
  drop h := flat _ h.2
  bound _ := trivial
  quoted h := h
  allowed h := h

private theorem Mirror.turns_dropping :
    (Mirror.dropping drop).Turns fun decl => decl.later (drop decl.site) := by
  intro Γ unchanged decl decl' rel
  have same := rel.eq_renumber plain_dropping maps_dropping unchanged
  rw [FunctionDecl.renumber_id] at same
  exact same

end

private theorem StmtsRel.later {M : Mirror} (plain : M.Plain) {Γ : List Renaming}
    (unchanged : Unchanged Γ)
    {k : Nat} {ss : List Stmt} (relates : M.RelatesAll id id k (Stmt.labelsAll ss)) :
    StmtsRel M k Γ ss (Stmt.laterAll k ss) := by
  have rel := StmtsRel.renumber plain unchanged ss relates
  rw [Stmt.renumberAll_id] at rel
  exact rel

/-! Executing one program after another one. -/

namespace Interpreter

variable {config : Config} {i : Interpreter} {ss : List Stmt}

theorem execute_append_ok (ok : (i.execute config ss).1 = .ok ()) (ss' : List Stmt) :
    i.execute config (ss ++ ss') = (i.execute config ss).2.execute config ss' := by
  induction ss generalizing i with
  | nil => rfl
  | cons s ss ih =>
    rw [List.cons_append]
    rcases run : i.run (execStmt (i.surroundings config) config.bound s) with ⟨r, i₁⟩
    simp only [execute, run] at ok ⊢
    rcases r with (f | v) | _
    · cases ok
    · exact ih ok
    · exact ih ok

theorem execute_append_error {f : Failure} (error : (i.execute config ss).1 = .error f)
    (ss' : List Stmt) : i.execute config (ss ++ ss') = i.execute config ss := by
  induction ss generalizing i with
  | nil => cases error
  | cons s ss ih =>
    rw [List.cons_append]
    rcases run : i.run (execStmt (i.surroundings config) config.bound s) with ⟨r, i₁⟩
    simp only [execute, run] at error ⊢
    rcases r with (f | v) | _
    · rfl
    · exact ih error
    · exact ih error

end Interpreter

/-! What two runs have in common when declarations stand further down in one of them. -/

structure Machine.Dropped (drop : SiteId → Nat) (m m' : Machine) : Prop where
  printed : m'.printed = m.printed
  readings : m'.readings = m.readings
  depth : m'.depth = m.depth
  scope : m'.scope = m.scope
  frames : m'.store.frames.size = m.store.frames.size
  named : ∀ (frame : FrameId) (name : String), m'.store.local? frame name =
    (m.store.local? frame name).map (Value.mapDecls fun decl => decl.later (drop decl.site))
  objects : m'.store.objects.size = m.store.objects.size
  fields : ∀ (id : ObjectId) (name : String), m'.store.objects[id]?.bind (·[name]?) =
    (m.store.objects[id]?.bind (·[name]?)).map
      (Value.mapDecls fun decl => decl.later (drop decl.site))
  nextClass : m'.store.nextClass = m.store.nextClass

def ResultDropped (drop : SiteId → Nat) (r r' : Except SessionError Unit) : Prop :=
  r' = r ∨ ∃ (line : Nat) (here : SiteId) (fault : RuntimeFault),
    r = .error (.failed (.fault ⟨line, fault⟩)) ∧
      r' = .error (.failed (.fault ⟨line + drop here, fault⟩))

/-- Runs that are the same, but for the lines of declarations and that of a fault. -/
structure RunDropped (drop : SiteId → Nat) (r r' : Except SessionError Unit × Session) : Prop where
  result : ResultDropped drop r.1 r'.1
  machine : r.2.interpreter.machine.Dropped drop r'.2.interpreter.machine
  distances : ∀ id : ExprId, r'.2.interpreter.distances[id]? = r.2.interpreter.distances[id]?
  labels : r'.2.labels = r.2.labels
  hadError : r'.2.hadError = r.2.hadError
  hadRuntimeError : r'.2.hadRuntimeError = r.2.hadRuntimeError

private theorem MachineRel.dropped {drop : SiteId → Nat} {W : World} {m m' : Machine}
    (h : MachineRel (.dropping drop) W m m') : m.Dropped drop m' := by
  have unchanged := h.unchanged Mirror.plain_dropping
  have same {v v' : Option Value} (rel : Option.Rel (ValueRel (.dropping drop) W) v v') :=
    optionalRel_eq_mapDecls Mirror.turns_dropping unchanged rel
  exact {
    printed := h.printed
    readings := h.readings
    depth := h.depth
    scope := h.scope
    frames := h.store.size'.trans h.store.size.symm
    named := by
      intro frame name
      have rel := h.store.named frame name
      have kept : W.of frame = .refl := by
        unfold World.of
        cases found : W[frame]? with
        | none => rfl
        | some ρ => exact h.store.allowed ρ (List.mem_of_getElem? found)
      rw [kept] at rel
      exact same rel
    objects := h.store.objects
    fields := fun id name => same (h.store.fields id name)
    nextClass := h.store.nextClass }

private theorem EndRel.dropped {drop : SiteId → Nat} {R : Unit → Unit → Prop}
    {r r' : Except Failure Unit} (h : EndRel (.dropping drop) R r r') :
    ResultDropped drop (r.mapError .failed) (r'.mapError .failed) ∧ r'.isOk = r.isOk := by
  cases h with
  | ok _ => exact ⟨.inl rfl, rfl⟩
  | error h =>
    refine ⟨?_, rfl⟩
    rcases h.eq_or_later Mirror.plain_dropping with rfl | ⟨line, here, fault, rfl, rfl⟩
    · exact .inl rfl
    · exact .inr ⟨line, here, fault, rfl, rfl⟩

namespace JoinedReading

variable {s : Session} {s₁ s₂ whole : String} {p₁ p₂ p₂' : List Stmt}
  (h : JoinedReading s s₁ s₂ whole p₁ p₂ p₂')

include h

private theorem run_first (config : Config) : s.run config s₁ =
    let alone := (s.interpreter.resolve p₁).2.execute config p₁
    (alone.1.mapError .failed,
      { s with
        interpreter := alone.2
        labels := (readProgram s.labels s₁).labels
        hadRuntimeError := s.hadRuntimeError || !alone.1.isOk }) :=
  s.run_executed config s₁ h.read₁ ((resolve_errors _ _ p₁).trans h.sound₁)

private theorem first_ok {config : Config} (ran : (s.run config s₁).1 = .ok ()) :
    let alone := (s.interpreter.resolve p₁).2.execute config p₁
    alone.1 = .ok () ∧ (s.run config s₁).2 =
      { s with interpreter := alone.2, labels := (readProgram s.labels s₁).labels } := by
  rw [h.run_first config] at ran ⊢
  dsimp only at ran ⊢
  cases alone : ((s.interpreter.resolve p₁).2.execute config p₁).1 with
  | error f => simp [alone, Except.mapError] at ran
  | ok _ => simp [Except.isOk, Except.toBool]

private theorem run_second (config : Config) {u : Session}
    (labels : u.labels = (readProgram s.labels s₁).labels) : u.run config s₂ =
    let after := (u.interpreter.resolve p₂).2.execute config p₂
    (after.1.mapError .failed,
      { u with
        interpreter := after.2
        labels := (readProgram (readProgram s.labels s₁).labels s₂).labels
        hadRuntimeError := u.hadRuntimeError || !after.1.isOk }) := by
  have read := h.read₂
  rw [← labels] at read ⊢
  exact u.run_executed config s₂ read ((resolve_errors _ _ p₂).trans h.sound₂)

private theorem run_whole (config : Config) : s.run config whole =
    let all := (s.interpreter.resolve (p₁ ++ p₂')).2.execute config (p₁ ++ p₂')
    (all.1.mapError .failed,
      { s with
        interpreter := all.2
        labels := (readProgram (readProgram s.labels s₁).labels s₂).labels
        hadRuntimeError := s.hadRuntimeError || !all.1.isOk }) := by
  have read := congrArg Parsed.result h.read
  rw [s.run_executed config whole read ((resolve_errors _ _ _).trans h.sound), h.read]

private theorem distances_ahead {id : ExprId} (below : id < (readProgram s.labels s₁).labels.expr) :
    (resolve s.interpreter.distances (p₁ ++ p₂')).distances[id]? =
      (resolve s.interpreter.distances p₁).distances[id]? := by
  have outside := resolve_outside h.read₂ (s.interpreter.resolve p₁).2 (.inl below)
  rw [resolve_append]
  exact (h.distances _ id).trans outside

private theorem execute_ahead (config : Config)
    (self : SessionRel (.below (readProgram s.labels s₁).labels) ⟨0, 0⟩ s s) :
    let alone := (s.interpreter.resolve p₁).2.execute config p₁
    let ahead := (s.interpreter.resolve (p₁ ++ p₂')).2.execute config p₁
    ahead.1 = alone.1 ∧
      ∃ W, InterpreterRel (.below (readProgram s.labels s₁).labels) W alone.2 ahead.2 := by
  obtain ⟨W, start⟩ := self.interpreter
  have numbered := readProgram_numbered h.read₁
  have relates : (Mirror.below (readProgram s.labels s₁).labels).RelatesAll id id 0
      (Stmt.labelsAll p₁) := fun l member =>
    Mirror.fits_below l ((numbered.within l member).mono ⟨Nat.zero_le _, Nat.zero_le _⟩ Labels.le_rfl)
  have tree : StmtsRel (.below (readProgram s.labels s₁).labels) 0 (W.around .globals) p₁ p₁ := by
    have rel := StmtsRel.later Mirror.plain_below
      (start.machine.unchanged Mirror.plain_below .globals) relates
    rw [Stmt.laterAll_zero] at rel
    exact rel
  have resolved : InterpreterRel (.below (readProgram s.labels s₁).labels) W
      (s.interpreter.resolve p₁).2 (s.interpreter.resolve (p₁ ++ p₂')).2 := by
    refine ⟨start.machine, start.scope, ?_⟩
    rintro id _ ⟨rfl, below⟩
    exact ⟨h.distances_ahead below, trivial⟩
  obtain ⟨W', _, ends, behind⟩ := Interpreter.execute_rel config resolved
    (show StmtsRel _ (Mirror.drop (.below _) 0) _ _ _ from tree)
  exact ⟨ends.eq Mirror.plain_below Mirror.level_below, W', behind⟩

private theorem distances_behind (config : Config) (id : ExprId) :
    ((s.interpreter.resolve (p₁ ++ p₂')).2.execute config p₁).2.distances[id]? =
      (((s.interpreter.resolve p₁).2.execute config p₁).2.resolve p₂).2.distances[id]? := by
  have recorded := Interpreter.execute_distances config (s.interpreter.resolve p₁).2 p₁
  have resolved : (((s.interpreter.resolve p₁).2.execute config p₁).2.resolve p₂).2.distances =
      (resolve (resolve s.interpreter.distances p₁).distances p₂).distances :=
    congrArg (fun D => (resolve D p₂).distances) recorded
  rw [Interpreter.execute_distances, resolved, ← h.distances]
  have joined := congrArg Resolved.distances (resolve_append s.interpreter.distances p₁ p₂')
  exact congrArg (fun D : Distances => D[id]?) joined

variable {config : Config}
  (self : SessionRel (.below (readProgram s.labels s₁).labels) ⟨0, 0⟩ s s)

include self

private theorem run_error {e : SessionError} (ran : (s.run config s₁).1 = .error e) :
    (s.run config whole).1 = .error e ∧
      (s.run config whole).2.lines = (s.run config s₁).2.lines := by
  obtain ⟨same, W, behind⟩ := h.execute_ahead config self
  rw [h.run_first config] at ran ⊢
  dsimp only at ran ⊢
  cases alone : ((s.interpreter.resolve p₁).2.execute config p₁).1 with
  | ok _ => simp [alone, Except.mapError] at ran
  | error f =>
    have stops := Interpreter.execute_append_error (same.trans alone) p₂'
    rw [h.run_whole config, stops]
    dsimp only
    rw [same]
    exact ⟨ran, congrArg Array.toList behind.machine.printed⟩

private theorem run_ok {drop : SiteId → Nat} (here : SiteId)
    (flat : ∀ site < (readProgram s.labels s₁).labels.site, drop site = 0)
    (tree : ∀ {Γ : List Renaming}, Unchanged Γ →
      StmtsRel (.dropping drop) (drop here) Γ p₂ p₂')
    (ran : (s.run config s₁).1 = .ok ()) :
    RunDropped drop ((s.run config s₁).2.run config s₂) (s.run config whole) := by
  obtain ⟨same, W, behind⟩ := h.execute_ahead config self
  obtain ⟨alone, left⟩ := h.first_ok ran
  rw [left]
  have start : InterpreterRel (.dropping drop) W
      (((s.interpreter.resolve p₁).2.execute config p₁).2.resolve p₂).2
      ((s.interpreter.resolve (p₁ ++ p₂')).2.execute config p₁).2 := by
    refine ⟨behind.machine.widen (Mirror.below_within flat), behind.scope, ?_⟩
    rintro id _ rfl
    exact ⟨h.distances_behind config _, trivial⟩
  obtain ⟨W', _, ends, final⟩ := Interpreter.execute_rel config start
    (tree (start.machine.unchanged Mirror.plain_dropping .globals))
  obtain ⟨result, isOk⟩ := ends.dropped
  have goesOn := Interpreter.execute_append_ok (same.trans alone) p₂'
  rw [h.run_whole config, goesOn, h.run_second config rfl]
  exact {
    result := result
    machine := final.machine.dropped
    distances := fun id => (final.distances rfl).1
    labels := rfl
    hadError := rfl
    hadRuntimeError := congrArg (s.hadRuntimeError || !·) isOk }

omit self in
private theorem later_tree {drop : SiteId → Nat} {k : Nat}
    (dropped : ∀ site, (readProgram s.labels s₁).labels.site ≤ site → drop site = k)
    {Γ : List Renaming} (unchanged : Unchanged Γ) :
    StmtsRel (.dropping drop) k Γ p₂ (Stmt.laterAll k p₂) := by
  refine .later Mirror.plain_dropping unchanged fun l member => ?_
  have within := (readProgram_numbered h.read₂).within l member
  cases l with
  | expr id => exact rfl
  | site site => exact ⟨rfl, dropped site within.1⟩

end JoinedReading

/-- One text behind another one does what the two do one after the other.  In whatever session, the
whole passes all checks if both texts do.  Where the first one is run to its end, the whole gives
what is given then by the second one from as far down; and it prints, stores and records what the
second one does then, but for the lines of the tokens, which are greater by the lines of the first
text in whatever was declared in the second one.  Where the first one fails, the whole fails in the
same way and prints the same. -/
theorem run_both_at_once (history : List Request) (config : Config) {s₁ s₂ : String}
    (first : Checked s₁) (second : Checked s₂) :
    let s := Session.initial.performAll history
    let u := (s.run config s₁).2
    let whole := s₁ ++ "\n" ++ s₂
    Checked whole ∧
      ((s.run config s₁).1 = .ok () →
        (s.run config whole).1 = (u.run config (emptyLines (linesOf s₁) ++ s₂)).1 ∧
          RunDropped (fun site => if site < u.labels.site then 0 else linesOf s₁)
            (u.run config s₂) (s.run config whole)) ∧
      ∀ e, (s.run config s₁).1 = .error e →
        (s.run config whole).1 = .error e ∧ (s.run config whole).2.lines = u.lines := by
  intro s u whole
  obtain ⟨p₁, p₂, h⟩ := first.reading second s
  have below : s.labels ≤ (readProgram s.labels s₁).labels := readProgram_labels_le s.labels s₁
  have self : SessionRel (.below (readProgram s.labels s₁).labels) ⟨0, 0⟩ s s :=
    .performAll Mirror.plain_below Mirror.level_below Mirror.maps_below Mirror.fits_below
      (.initial Mirror.plain_below) history below
  refine ⟨first.join second, fun ran => ⟨?_, ?_⟩, fun e ran => h.run_error self ran⟩
  -- Behind empty lines the second text stands where it does in the whole: no lines are dropped.
  · have tree {Γ : List Renaming} (unchanged : Unchanged Γ) :
        StmtsRel (.dropping fun _ => 0) 0 Γ (Stmt.laterAll (linesOf s₁) p₂)
          (Stmt.laterAll (linesOf s₁) p₂) := by
      have rel : StmtsRel (.dropping fun _ => 0) 0 Γ (Stmt.laterAll (linesOf s₁) p₂)
          (Stmt.laterAll 0 (Stmt.laterAll (linesOf s₁) p₂)) :=
        h.later.later_tree (fun _ _ => rfl) unchanged
      rw [Stmt.laterAll_zero] at rel
      exact rel
    have dropped := h.later.run_ok self 0 (fun _ _ => rfl) tree ran
    rcases dropped.result with same | ⟨line, here, fault, failed, same⟩
    · exact same
    · rw [same, failed, Nat.add_zero]
  · have labels : u.labels = (readProgram s.labels s₁).labels := s.run_labels config s₁
    -- Alone it stands higher, by the lines of the first one, and its declarations with it.
    rw [labels]
    refine h.run_ok self (readProgram s.labels s₁).labels.site
      (fun site below => if_pos below) (fun unchanged => ?_) ran
    rw [if_neg (Nat.lt_irrefl _)]
    exact h.later_tree (fun site behind => if_neg (Nat.not_lt.mpr behind)) unchanged

/-- A call of what is no function fails in the line behind the one that declares it. -/
theorem call_of_no_function_at_once :
    let config : Config := ⟨none, .working, fun _ => 0, 100⟩
    let whole := (Session.initial.performAll []).run config ("var a = true;" ++ "\n" ++ "a();")
    Checked ("var a = true;" ++ "\n" ++ "a();") ∧
      whole.1 = .error (.failed (.fault ⟨2, .notCallable .boolean⟩)) := by
  intro config whole
  have first : Checked "var a = true;" := by decide +kernel
  have second : Checked "a();" := by decide +kernel
  have ok : ((Session.initial.performAll []).run config "var a = true;").1 = .ok () := by
    decide +kernel
  have joined := run_both_at_once [] config first second
  have same := (joined.2.1 ok).1
  refine ⟨joined.1, same.trans ?_⟩
  decide +kernel

end LoxLang
