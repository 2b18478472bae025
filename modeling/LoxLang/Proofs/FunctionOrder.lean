import LoxLang.Proofs.CommutingStatements
import LoxLang.Proofs.FunctionTexts
import LoxLang.Proofs.RelinedHistory

/-!
The order of global functions.  Texts that declare some functions with distinct names one after the
other, in one order or another, do the same: the functions are given other numbers, which show
nowhere, and none of them is looked for before all of them are declared.
-/

set_option autoImplicit false
set_option relaxedAutoImplicit false

namespace LoxLang

def IsProgram (ts : List Token) : Prop :=
  ∃ program, (parseProgram ⟨0, 0⟩ ts 0).result = .ok program

instance (ts : List Token) : Decidable (IsProgram ts) :=
  match parsed : (parseProgram ⟨0, 0⟩ ts 0).result with
  | .ok program => isTrue ⟨program, parsed⟩
  | .error _ => isFalse (by simp [IsProgram, parsed])

/-- Texts that pass the checks and are the same, but for their lines and for the order of
declarations of functions with distinct names, one behind the other at the top level. -/
structure FunctionsReordered (source source' : String) : Prop where
  checked : Checked source
  checked' : Checked source'
  arranged : ∃ (before after : List Token) (fs fs' : List FunctionText),
    IsProgram before ∧ IsProgram after ∧ fs'.Perm fs ∧ (fs.map FunctionText.name).Nodup ∧
    (scan source).tokens.map (Token.reline oneLine) =
      before ++ fs.flatMap FunctionText.tokens ++ after ∧
    (scan source').tokens.map (Token.reline oneLine) =
      before ++ fs'.flatMap FunctionText.tokens ++ after

/-! Reading the texts. -/

private theorem IsProgram.reads {ts : List Token} (h : IsProgram ts) (lo : Labels) :
    ∃ p hi, Reads lo ts p hi := by
  obtain ⟨p, result⟩ := h
  exact ⟨_, _, .of_start result lo⟩

private theorem Reads.readProgram {lo hi : Labels} {source : String} {p : List Stmt}
    (h : Reads lo ((scan source).tokens.map (Token.reline oneLine)) p hi)
    (sound : (scan source).faults = []) :
    ∃ program, readProgram lo source = ⟨hi, .ok program⟩ ∧
      Stmt.relineAll oneLine program = p := by
  have parsed := parseProgram_reline oneLine lo (scan source).tokens (scan source).lastLine
  rw [h] at parsed
  rw [readProgram_clean sound rfl]
  generalize parseProgram lo (scan source).tokens (scan source).lastLine = read at parsed ⊢
  obtain ⟨labels, errors | program⟩ := read
  · cases (Parsed.mk.inj parsed).2
  · obtain ⟨rfl, same⟩ := Parsed.mk.inj parsed
    exact ⟨program, rfl, (Except.ok.inj same).symm⟩

private theorem Checked.sound {source : String} (h : Checked source) : (scan source).faults = [] :=
  by
  obtain ⟨program, read, _⟩ := h
  exact (readProgram_ok read).1

structure Rearranged (p p' : List Stmt) : Prop where
  distinct : (Stmt.labelsAll (Stmt.relineAll oneLine p')).Nodup
  arranged : ∃ (b a : List Stmt) (ds ds' : List FunctionDecl),
    Stmt.relineAll oneLine p = b ++ ds.map .function ++ a ∧
    Stmt.relineAll oneLine p' = b ++ ds'.map .function ++ a ∧
    ds'.Perm ds ∧ (ds.map fun decl => decl.name.lexeme).Nodup

private theorem Stmt.renumberAll_append (f : ExprId → ExprId) (g : SiteId → SiteId)
    (ss ss' : List Stmt) :
    Stmt.renumberAll f g (ss ++ ss') = Stmt.renumberAll f g ss ++ Stmt.renumberAll f g ss' := by
  induction ss with
  | nil => rfl
  | cons s ss ih => rw [List.cons_append, renumberAll, renumberAll, ih, List.cons_append]

private theorem Stmt.renumberAll_functions (f : ExprId → ExprId) (g : SiteId → SiteId)
    (ds : List FunctionDecl) :
    Stmt.renumberAll f g (ds.map .function) =
      (ds.map (FunctionDecl.renumber f g)).map .function := by
  induction ds with
  | nil => rfl
  | cons d ds ih => exact congrArg (.function (d.renumber f g) :: ·) ih

private theorem Renumbering.program_outside {mid mid' lo hi : Labels} (R : Renumbering mid mid')
    {p : List Stmt} (numbered : Numbered lo (Stmt.labelsAll p) hi)
    (outside : hi ≤ mid ∨ mid' ≤ lo) : Stmt.renumberAll R.expr R.site p = p := by
  have same : Stmt.renumberAll id id p = Stmt.renumberAll R.expr R.site p := by
    refine Stmt.renumberAll_congr fun l member => ?_
    have within := numbered.within l member
    cases l with
    | expr id => exact (R.expr_within outside within).symm
    | site id => exact (R.site_within outside within).symm
  rw [← same, Stmt.renumberAll_id]

private theorem FunctionsReordered.reading {source source' : String}
    (h : FunctionsReordered source source')
    (lo : Labels) : ∃ (mid mid' hi : Labels) (R : Renumbering mid mid') (p p' : List Stmt),
      (readProgram lo source = ⟨hi, .ok p⟩ ∧ readProgram lo source' = ⟨hi, .ok p'⟩) ∧
        (lo ≤ mid ∧ mid' ≤ hi) ∧ Rearranged (Stmt.renumberAll R.expr R.site p) p' := by
  obtain ⟨before, after, fs, fs', front, rest, perm, distinct, tokens, tokens'⟩ := h.arranged
  obtain ⟨b, mid, first⟩ := front.reads lo
  obtain ⟨labels, R, moved⟩ := FunctionText.declsFrom_perm perm mid
  obtain ⟨a, hi, last⟩ := rest.reads (FunctionText.labelsFrom mid fs)
  have middle := FunctionText.reads_flatMap mid fs
  have middle' := FunctionText.reads_flatMap mid fs'
  rw [labels] at middle'
  have whole := (first.append middle).append last
  have whole' := (first.append middle').append last
  have numbered := whole'.numbered
  rw [← tokens] at whole
  rw [← tokens'] at whole'
  obtain ⟨p, read, tree⟩ := whole.readProgram h.checked.sound
  obtain ⟨p', read', tree'⟩ := whole'.readProgram h.checked'.sound
  refine ⟨mid, _, hi, R, p, p', ⟨read, read'⟩, ⟨first.numbered.le, last.numbered.le⟩, ?_,
    b, a, (FunctionText.declsFrom mid fs).map R.decl, FunctionText.declsFrom mid fs', ?_, tree',
    moved, ?_⟩
  · rw [tree']
    exact numbered.nodup
  · rw [Stmt.relineAll_renumberAll, tree, Stmt.renumberAll_append, Stmt.renumberAll_append,
      R.program_outside first.numbered (.inl Labels.le_rfl), Stmt.renumberAll_functions,
      R.program_outside last.numbered (.inr Labels.le_rfl)]
  · have named : ∀ decl : FunctionDecl, (R.decl decl).name.lexeme = decl.name.lexeme := by
      intro decl
      cases decl
      rfl
    rw [List.map_map, Function.comp_def]
    simp only [named]
    rw [FunctionText.names_declsFrom]
    exact distinct

/-! Executing the programs. -/

private theorem Rearranged.execute {p p' : List Stmt} (h : Rearranged p p') (config : Config)
    (i : Interpreter) :
    EndsAlike ((i.resolve p).2.execute config p) ((i.resolve p').2.execute config p') := by
  obtain ⟨b, a, ds, ds', tree, tree', perm, names⟩ := h.arranged
  have order : (Stmt.relineAll oneLine p').Perm (Stmt.relineAll oneLine p) := by
    rw [tree, tree']
    exact ((perm.map _).append_left b).append_right a
  have resolved := ((Interpreter.SameButLines.refl i).resolve_reordered order.symm h.distinct).symm
  rw [Stmt.relineAll_eq_map] at tree tree'
  obtain ⟨p₁₂, p₃, rfl, parts, third⟩ := List.map_eq_append_iff.mp tree
  obtain ⟨p₁, p₂, rfl, first, second⟩ := List.map_eq_append_iff.mp parts
  obtain ⟨q₁₂, q₃, rfl, parts', third'⟩ := List.map_eq_append_iff.mp tree'
  obtain ⟨q₁, q₂, rfl, first', second'⟩ := List.map_eq_append_iff.mp parts'
  have same {ss ss' : List Stmt} (h : ss'.map (Stmt.reline oneLine) = ss.map (Stmt.reline oneLine))
      {j j' : Interpreter} (alike : j.SameButLines j') :
      EndsAlike (j.execute config ss) (j'.execute config ss') := by
    refine alike.execute config ?_
    rw [Stmt.relineAll_eq_map, Stmt.relineAll_eq_map, h]
  have named : p₂.map Stmt.functionName? = (ds.map fun decl => decl.name.lexeme).map some := by
    have told := congrArg (List.map Stmt.functionName?) second
    rw [List.map_map, List.map_map, Function.comp_def, Function.comp_def] at told
    simp only [Stmt.functionName?_reline] at told
    rw [told, List.map_map]
    rfl
  have commute := Stmt.pairwise_commutes config named names
  have reordered : (q₂.map (Stmt.reline oneLine)).Perm (p₂.map (Stmt.reline oneLine)) := by
    rw [second, second']
    exact perm.map _
  refine Interpreter.SameButLines.execute_append ?_ (same (third'.trans third.symm))
  exact Interpreter.SameButLines.execute_append (same (first'.trans first.symm) resolved)
    (Interpreter.SameButLines.execute_reordered reordered commute)

/-! Changing the numbers. -/

namespace Renumbering

variable {lo hi lo' hi' : Labels} (R : Renumbering lo hi)

def mirror : Mirror where
  expr id id' := id' = R.expr id
  site site site' := site' = R.site site
  drop _ := 0
  bound _ _ := True
  quoted name name' := name' = name
  allowed ρ := ρ = .refl
  site_iff := by
    rintro a _ b _ rfl rfl
    exact R.site_injective.eq_iff.symm
  allowed_refl := rfl

private theorem plain_mirror : R.mirror.Plain where
  allowed h := h
  bound _ _ := trivial
  quoted := Iff.rfl
  expr_iff := by
    rintro a _ b _ rfl rfl
    exact R.expr_injective.eq_iff.symm

private theorem level_mirror : R.mirror.Level := fun _ => rfl

private theorem maps_mirror : R.mirror.Maps R.expr R.site := ⟨fun h => h, fun h => h⟩

private theorem fits_outside (outside : hi' ≤ lo ∨ hi ≤ lo') : R.mirror.Fits ⟨0, 0⟩ lo' hi' := by
  rintro (id | site) within
  · exact (R.expr_within outside within).symm
  · exact ⟨(R.site_within outside within).symm, rfl⟩

private theorem sessionRel (history : List Request)
    (le : (Session.initial.performAll history).labels ≤ lo) :
    SessionRel R.mirror ⟨0, 0⟩ (Session.initial.performAll history)
      (Session.initial.performAll history) :=
  SessionRel.performAll R.plain_mirror R.level_mirror R.maps_mirror (R.fits_outside (.inl le))
    (.initial R.plain_mirror) history Labels.le_rfl

private theorem relatesAll (ls : List Label) : R.mirror.RelatesAll R.expr R.site 0 ls := by
  rintro (id | site) _
  · exact rfl
  · exact ⟨rfl, rfl⟩

end Renumbering

def Session.behindProgram (s : Session) (config : Config) (p : List Stmt) (labels : Labels) :
    Session :=
  let out := (s.interpreter.resolve p).2.execute config p
  { s with
    interpreter := out.2
    labels
    hadRuntimeError := s.hadRuntimeError || !out.1.isOk }

private theorem Checked.run_eq {source : String} (h : Checked source) (config : Config)
    (s : Session) {p : List Stmt} {hi : Labels} (read : readProgram s.labels source = ⟨hi, .ok p⟩) :
    s.run config source =
      ((((s.interpreter.resolve p).2.execute config p).1).mapError .failed,
        s.behindProgram config p hi) := by
  obtain ⟨q, read', sound⟩ := (checked_iff s.labels s.interpreter.distances).mp h
  rw [read] at read'
  obtain rfl := Except.ok.inj read'
  rw [s.run_executed config source (congrArg Parsed.result read) sound, read]
  rfl

/-- The order of global functions does not matter.  From every session that can be reached, two
texts that pass the checks and differ in the order of declarations of functions with distinct names
print the same and end in the same way, but for lines; and whatever is done later shows the same
behind either, but for lines and for the numbers inside of values. -/
theorem function_order_irrelevant (history later : List Request) (config : Config)
    {source source' : String} (reordered : FunctionsReordered source source') :
    let s := Session.initial.performAll history
    let run := s.run config source
    let run' := s.run config source'
    run'.2.lines = run.2.lines ∧
      run'.1.mapError (SessionError.reline oneLine) = run.1.mapError (SessionError.reline oneLine) ∧
      ∃ f g, Function.Injective f ∧ Function.Injective g ∧
        (run'.2.observe later).map (Observation.reline oneLine) =
          ((run.2.observe later).map (Observation.renumber f g)).map
            (Observation.reline oneLine) := by
  intro s run run'
  obtain ⟨mid, mid', hi, R, p, p', ⟨read, read'⟩, ⟨le, le'⟩, arranged⟩ :=
    reordered.reading s.labels
  have ran : run = _ := reordered.checked.run_eq config s read
  have ran' : run' = _ := reordered.checked'.run_eq config s read'
  -- Between the two texts stands the first program, with the numbers of the second one.
  let q := Stmt.renumberAll R.expr R.site p
  obtain ⟨W, start⟩ := (R.sessionRel history le).interpreter
  have relates := R.relatesAll (Stmt.labelsAll p)
  have resolved := (start.resolve_renumber R.plain_mirror relates).2
  obtain ⟨same, behind⟩ := resolved.execute_renumber R.plain_mirror relates R.level_mirror config
  have mirrored : SessionRel R.mirror ⟨0, 0⟩ (s.behindProgram config p hi)
      (s.behindProgram config q hi) :=
    ⟨behind, rfl, congrArg (fun r : Except Failure Unit => s.hadRuntimeError || !r.isOk) same⟩
  have alike := arranged.execute config s.interpreter
  obtain ⟨failed, ok⟩ := failed_alike alike.result
  have relined : (s.behindProgram config q hi).SameButLines (s.behindProgram config p' hi) :=
    ⟨alike.interpreter.machine, alike.interpreter.distances, rfl, rfl,
      congrArg (s.hadRuntimeError || !·) ok⟩
  rw [ran, ran']
  refine ⟨relined.lines_eq.trans mirrored.lines_eq, ?_, R.expr, R.site, R.expr_injective,
    R.site_injective, ?_⟩
  · exact failed.trans (congrArg (fun r : Except Failure Unit =>
      (r.mapError SessionError.failed).mapError (SessionError.reline oneLine)) same)
  · have later_eq := mirrored.observe_renumber R.plain_mirror R.level_mirror R.maps_mirror
      (fun _ => R.fits_outside (.inr le')) later rfl
    rw [relined.observe later, later_eq]

/-- Two functions that call one another may be declared in either order. -/
theorem mutual_functions_in_either_order :
    let config : Config := ⟨none, .working, fun _ => 0, 100⟩
    let front := "fun f(x)\x7bif(x)g(nil);print x;\x7d"
    let back := "fun g(x)\x7bf(x);\x7d"
    let run := (Session.initial.performAll []).run config (front ++ back ++ "g(true);")
    let run' := (Session.initial.performAll []).run config (back ++ "\n" ++ front ++ "g(true);")
    FunctionsReordered (front ++ back ++ "g(true);") (back ++ "\n" ++ front ++ "g(true);") ∧
      run'.2.lines = run.2.lines ∧ run'.2.lines = ["nil", "true"] := by
  intro config front back run run'
  let tokens (text : String) : List Token := (scan text).tokens.map (Token.reline oneLine)
  obtain ⟨f, own, named⟩ : ∃ f : FunctionText, f.tokens = tokens front ∧ f.name = "f" :=
    FunctionText.exists_of_named (by decide +kernel)
  obtain ⟨g, own', named'⟩ : ∃ f : FunctionText, f.tokens = tokens back ∧ f.name = "g" :=
    FunctionText.exists_of_named (by decide +kernel)
  have either (a b : FunctionText) :
      [a, b].flatMap FunctionText.tokens = a.tokens ++ b.tokens := by
    rw [List.flatMap_cons, List.flatMap_cons, List.flatMap_nil, List.append_nil]
  have reordered : FunctionsReordered (front ++ back ++ "g(true);")
      (back ++ "\n" ++ front ++ "g(true);") := by
    refine ⟨by decide +kernel, by decide +kernel, [], tokens "g(true);", [f, g], [g, f],
      by decide +kernel, by decide +kernel, .swap _ _ [], ?_, ?_, ?_⟩
    · rw [List.map_cons, List.map_cons, named, named']
      decide
    · rw [either, own, own']
      decide +kernel
    · rw [either, own, own']
      decide +kernel
  have same := (function_order_irrelevant [] [] config reordered).1
  refine ⟨reordered, same, same.trans ?_⟩
  decide +kernel

end LoxLang
