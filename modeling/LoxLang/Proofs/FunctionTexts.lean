import LoxLang.Proofs.JoinedPrograms
import LoxLang.Proofs.ParserShift
import LoxLang.Proofs.RenumberedTrees
import LoxLang.Proofs.StatementSound

/-!
Declarations of functions one behind the other, in any order.  Each of them takes up as many numbers
wherever it stands, so in another order the same numbers are handed out: the declarations are the
same ones, but for numbers that change places.
-/

set_option autoImplicit false
set_option relaxedAutoImplicit false

namespace LoxLang

/-! Tokens that are read as a program. -/

def Reads (lo : Labels) (ts : List Token) (p : List Stmt) (hi : Labels) : Prop :=
  ∀ line, parseProgram lo ts line = ⟨hi, .ok p⟩

namespace Reads

variable {lo mid hi : Labels} {ts ts' : List Token} {p p' : List Stmt}

private theorem of_result {line : Nat} (h : (parseProgram lo ts line).result = .ok p) :
    Reads lo ts p (parseProgram lo ts line).labels := by
  intro other
  have nothing : (parseProgram lo [] 0).result = .ok [] := rfl
  have joined := parseProgram_join nothing h 0 other
  rw [Token.later_zero_eq_id, List.map_id, Stmt.laterAll_zero] at joined
  exact joined

theorem append (h : Reads lo ts p mid) (h' : Reads mid ts' p' hi) :
    Reads lo (ts ++ ts') (p ++ p') hi := by
  intro line
  have first : (parseProgram lo ts 0).result = .ok p := congrArg Parsed.result (h 0)
  have labels : (parseProgram lo ts 0).labels = mid := congrArg Parsed.labels (h 0)
  have second : (parseProgram (parseProgram lo ts 0).labels ts' 0).result = .ok p' := by
    rw [labels, h']
  have joined := parseProgram_join first second 0 line
  rw [labels, h', Token.later_zero_eq_id, List.map_id, Stmt.laterAll_zero] at joined
  exact joined

private theorem plus (h : Reads lo ts p hi) (k : Labels) :
    Reads (lo.plus k) ts (shifted k p) (hi.plus k) := by
  intro line
  rw [parseProgram_plus, h]
  rfl

theorem of_start {line : Nat} (h : (parseProgram ⟨0, 0⟩ ts line).result = .ok p) (lo : Labels) :
    Reads lo ts (shifted lo p) ((parseProgram ⟨0, 0⟩ ts line).labels.plus lo) := by
  have start : (⟨0, 0⟩ : Labels).plus lo = lo := by simp [Labels.plus]
  have reads := (of_result h).plus lo
  rwa [start] at reads

theorem numbered (h : Reads lo ts p hi) : Numbered lo (Stmt.labelsAll p) hi := by
  have sound := (parseProgram_sound (congrArg Parsed.result (h 0))).2
  rwa [h] at sound

end Reads

structure FunctionText where
  tokens : List Token
  decl : FunctionDecl
  reads : (parseProgram ⟨0, 0⟩ tokens 0).result = .ok [.function decl]

namespace FunctionText

def ofTokens? (ts : List Token) : Option FunctionText :=
  match reads : (parseProgram ⟨0, 0⟩ ts 0).result with
  | .ok [.function decl] => some ⟨ts, decl, reads⟩
  | _ => none

def name (f : FunctionText) : String := f.decl.name.lexeme

theorem exists_of_named {ts : List Token} {x : String} (h : (ofTokens? ts).map name = some x) :
    ∃ f : FunctionText, f.tokens = ts ∧ f.name = x := by
  obtain ⟨f, found, named⟩ := Option.map_eq_some_iff.mp h
  refine ⟨f, ?_, named⟩
  unfold ofTokens? at found
  split at found
  · exact congrArg tokens (Option.some.inj found).symm
  · cases found

def used (f : FunctionText) : Labels := (parseProgram ⟨0, 0⟩ f.tokens 0).labels

def declsFrom : Labels → List FunctionText → List FunctionDecl
  | _, [] => []
  | lo, f :: fs => shifted lo f.decl :: declsFrom (f.used.plus lo) fs

def labelsFrom : Labels → List FunctionText → Labels
  | lo, [] => lo
  | lo, f :: fs => labelsFrom (f.used.plus lo) fs

private theorem reads_from (f : FunctionText) (lo : Labels) :
    Reads lo f.tokens [.function (shifted lo f.decl)] (f.used.plus lo) :=
  .of_start f.reads lo

theorem reads_flatMap (lo : Labels) (fs : List FunctionText) :
    Reads lo (fs.flatMap tokens) ((declsFrom lo fs).map .function) (labelsFrom lo fs) := by
  induction fs generalizing lo with
  | nil => exact fun _ => rfl
  | cons f fs ih => exact (f.reads_from lo).append (ih (f.used.plus lo))

private theorem numbered (f : FunctionText) : Numbered ⟨0, 0⟩ f.decl.labels f.used := by
  have numbered := (Reads.of_result f.reads).numbered
  rwa [Stmt.labelsAll, Stmt.labelsAll, List.append_nil] at numbered

theorem names_declsFrom (lo : Labels) (fs : List FunctionText) :
    (declsFrom lo fs).map (fun decl => decl.name.lexeme) = fs.map name := by
  induction fs generalizing lo with
  | nil => rfl
  | cons f fs ih =>
    have same : (shifted lo f.decl).name = f.decl.name := by
      cases f.decl
      rfl
    rw [declsFrom, List.map_cons, List.map_cons, ih, same, name]

private theorem le_labelsFrom (lo : Labels) (fs : List FunctionText) : lo ≤ labelsFrom lo fs :=
  (reads_flatMap lo fs).numbered.le

end FunctionText

/-! Other numbers between two marks. -/

structure Renumbering (lo hi : Labels) where
  expr : ExprId → ExprId
  site : SiteId → SiteId
  expr_injective : Function.Injective expr
  site_injective : Function.Injective site
  expr_outside : ∀ {id}, id < lo.expr ∨ hi.expr ≤ id → expr id = id
  site_outside : ∀ {id}, id < lo.site ∨ hi.site ≤ id → site id = id

def exchanged (mark first second n : Nat) : Nat :=
  if n < mark then n
  else if n < mark + first then n + second
  else if n < mark + first + second then n - first
  else n

private theorem exchanged_injective (mark first second : Nat) :
    Function.Injective (exchanged mark first second) := by
  intro a b h
  unfold exchanged at h
  split_ifs at h <;> omega

private theorem exchanged_outside {mark first second n : Nat}
    (outside : n < mark ∨ second + (first + mark) ≤ n) : exchanged mark first second n = n := by
  unfold exchanged
  split
  · rfl
  · rw [if_neg (by omega), if_neg (by omega)]

private theorem exchanged_first {mark first second n : Nat} (h : n < first) :
    exchanged mark first second (n + mark) = n + (second + mark) := by
  unfold exchanged
  rw [if_neg (by omega), if_pos (by omega)]
  omega

private theorem exchanged_second {mark first second n : Nat} (h : n < second) :
    exchanged mark first second (n + (first + mark)) = n + mark := by
  unfold exchanged
  rw [if_neg (by omega), if_neg (by omega), if_pos (by omega)]
  omega

namespace Renumbering

variable {lo mid hi : Labels}

def refl (lo hi : Labels) : Renumbering lo hi where
  expr := id
  site := id
  expr_injective := Function.injective_id
  site_injective := Function.injective_id
  expr_outside _ := rfl
  site_outside _ := rfl

def widen (R : Renumbering lo hi) {lo' hi' : Labels} (le : lo' ≤ lo) (le' : hi ≤ hi') :
    Renumbering lo' hi' where
  expr := R.expr
  site := R.site
  expr_injective := R.expr_injective
  site_injective := R.site_injective
  expr_outside outside := R.expr_outside (outside.imp
    (fun before => Nat.lt_of_lt_of_le before le.1) fun behind => Nat.le_trans le'.1 behind)
  site_outside outside := R.site_outside (outside.imp
    (fun before => Nat.lt_of_lt_of_le before le.2) fun behind => Nat.le_trans le'.2 behind)

def trans (R S : Renumbering lo hi) : Renumbering lo hi where
  expr := S.expr ∘ R.expr
  site := S.site ∘ R.site
  expr_injective := S.expr_injective.comp R.expr_injective
  site_injective := S.site_injective.comp R.site_injective
  expr_outside outside := by
    rw [Function.comp, R.expr_outside outside, S.expr_outside outside]
  site_outside outside := by
    rw [Function.comp, R.site_outside outside, S.site_outside outside]

def exchange (lo first second : Labels) : Renumbering lo (second.plus (first.plus lo)) where
  expr := exchanged lo.expr first.expr second.expr
  site := exchanged lo.site first.site second.site
  expr_injective := exchanged_injective _ _ _
  site_injective := exchanged_injective _ _ _
  expr_outside := exchanged_outside
  site_outside := exchanged_outside

section

variable (R : Renumbering lo hi) {lo' hi' : Labels} (outside : hi' ≤ lo ∨ hi ≤ lo')

include outside

theorem expr_within {id : ExprId} (within : lo'.expr ≤ id ∧ id < hi'.expr) : R.expr id = id :=
  R.expr_outside (outside.imp (fun before => Nat.lt_of_lt_of_le within.2 before.1)
    fun behind => Nat.le_trans behind.1 within.1)

theorem site_within {id : SiteId} (within : lo'.site ≤ id ∧ id < hi'.site) : R.site id = id :=
  R.site_outside (outside.imp (fun before => Nat.lt_of_lt_of_le within.2 before.2)
    fun behind => Nat.le_trans behind.2 within.1)

end

abbrev decl (R : Renumbering lo hi) : FunctionDecl → FunctionDecl :=
  FunctionDecl.renumber R.expr R.site

private theorem decl_outside (R : Renumbering lo hi) {f : FunctionText} {start : Labels}
    (outside : f.used.plus start ≤ lo ∨ hi ≤ start) :
    R.decl (shifted start f.decl) = shifted start f.decl := by
  refine FunctionDecl.renumber_renumber _ fun l member => ?_
  have within := f.numbered.within l member
  cases l with
  | expr id =>
    exact R.expr_within outside ⟨Nat.le_add_left _ _, Nat.add_lt_add_right within.2 start.expr⟩
  | site id =>
    exact R.site_within outside ⟨Nat.le_add_left _ _, Nat.add_lt_add_right within.2 start.site⟩

private theorem declsFrom_behind (R : Renumbering lo hi) {start : Labels} (behind : hi ≤ start)
    (fs : List FunctionText) :
    (FunctionText.declsFrom start fs).map R.decl = FunctionText.declsFrom start fs := by
  induction fs generalizing start with
  | nil => rfl
  | cons f fs ih =>
    have later : start ≤ f.used.plus start := ⟨Nat.le_add_left _ _, Nat.le_add_left _ _⟩
    rw [FunctionText.declsFrom, List.map_cons, R.decl_outside (.inr behind),
      ih (Labels.le_trans behind later)]

private theorem exchange_first (lo : Labels) (f g : FunctionText) :
    (exchange lo f.used g.used).decl (shifted lo f.decl) = shifted (g.used.plus lo) f.decl := by
  refine FunctionDecl.renumber_renumber _ fun l member => ?_
  have within := f.numbered.within l member
  cases l with
  | expr id => exact exchanged_first within.2
  | site id => exact exchanged_first within.2

private theorem exchange_second (lo : Labels) (f g : FunctionText) :
    (exchange lo f.used g.used).decl (shifted (f.used.plus lo) g.decl) = shifted lo g.decl := by
  refine FunctionDecl.renumber_renumber _ fun l member => ?_
  have within := g.numbered.within l member
  cases l with
  | expr id => exact exchanged_second within.2
  | site id => exact exchanged_second within.2

private theorem trans_decl (R S : Renumbering lo hi) (decl : FunctionDecl) :
    (R.trans S).decl decl = S.decl (R.decl decl) :=
  (decl.renumber_renumber (ComposesOn.comp R.expr S.expr R.site S.site _)).symm

end Renumbering

/-- In another order, functions take up the same numbers, and the declarations are the same ones
with other of these numbers. -/
theorem FunctionText.declsFrom_perm {fs gs : List FunctionText} (perm : gs.Perm fs) (lo : Labels) :
    labelsFrom lo gs = labelsFrom lo fs ∧ ∃ R : Renumbering lo (labelsFrom lo fs),
      (declsFrom lo gs).Perm ((declsFrom lo fs).map R.decl) := by
  induction perm generalizing lo with
  | nil => exact ⟨rfl, .refl _ _, .nil⟩
  | cons f _ ih =>
    obtain ⟨labels, R, perm⟩ := ih (f.used.plus lo)
    have later : lo ≤ f.used.plus lo := ⟨Nat.le_add_left _ _, Nat.le_add_left _ _⟩
    have stays : R.decl (shifted lo f.decl) = shifted lo f.decl :=
      R.decl_outside (.inl Labels.le_rfl)
    have first := perm.cons (shifted lo f.decl)
    nth_rewrite 2 [← stays] at first
    exact ⟨labels, R.widen later Labels.le_rfl, first⟩
  | swap f g fs =>
    have same : g.used.plus (f.used.plus lo) = f.used.plus (g.used.plus lo) := by
      simp only [Labels.plus, Nat.add_left_comm]
    have marks : labelsFrom lo (g :: f :: fs) = labelsFrom lo (f :: g :: fs) :=
      congrArg (labelsFrom · fs) same.symm
    have within : g.used.plus (f.used.plus lo) ≤ labelsFrom lo (f :: g :: fs) := le_labelsFrom _ fs
    refine ⟨marks, (Renumbering.exchange lo f.used g.used).widen Labels.le_rfl within, ?_⟩
    have moved : (declsFrom lo (f :: g :: fs)).map (Renumbering.exchange lo f.used g.used).decl =
        shifted (g.used.plus lo) f.decl :: shifted lo g.decl ::
          declsFrom (g.used.plus (f.used.plus lo)) fs := by
      simp only [declsFrom, List.map_cons, Renumbering.exchange_first, Renumbering.exchange_second,
        Renumbering.declsFrom_behind _ Labels.le_rfl]
    have swapped := List.Perm.swap (shifted (g.used.plus lo) f.decl) (shifted lo g.decl)
      (declsFrom (g.used.plus (f.used.plus lo)) fs)
    rw [← moved] at swapped
    rw [declsFrom, declsFrom, ← same]
    exact swapped
  | trans _ _ ih ih' =>
    obtain ⟨labels', S, perm'⟩ := ih' lo
    have before := ih lo
    rw [labels'] at before
    obtain ⟨labels, R, perm⟩ := before
    refine ⟨labels, S.trans R, ?_⟩
    rw [funext (S.trans_decl R), ← Function.comp_def, ← List.map_map]
    exact perm.trans (perm'.map R.decl)

end LoxLang
