import LoxLang.Proofs.History
import LoxLang.Proofs.MirrorValues
import LoxLang.Proofs.PlainMirror

/-!
Values where nothing but numbers and lines differs.  A value consists of declarations and of what
both sides have in common, so one side is the other one with all declarations turned into those
that mirror them.
-/

set_option autoImplicit false
set_option relaxedAutoImplicit false

namespace LoxLang

section

variable (h : FunctionDecl → FunctionDecl)

def Closure.mapDecl (c : Closure) : Closure := { c with decl := h c.decl }

def ClassBody.mapDecls (b : ClassBody) : ClassBody :=
  { b with methods := b.methods.map (Closure.mapDecl h) }

def Class.mapDecls (c : Class) : Class :=
  ⟨c.own.mapDecls h, c.ancestors.map (ClassBody.mapDecls h)⟩

def Callable.mapDecls : Callable → Callable
  | .native n => .native n
  | .function c => .function (c.mapDecl h)
  | .ofClass c => .ofClass (c.mapDecls h)

def Value.mapDecls : Value → Value
  | .callable c => .callable (c.mapDecls h)
  | .object o => .object { o with kind := o.kind.mapDecls h }
  | v => v

end

theorem Value.mapDecls_renumber (f : ExprId → ExprId) (g : SiteId → SiteId) (v : Value) :
    v.mapDecls (FunctionDecl.renumber f g) = v.renumber f g := by
  cases v with
  | callable c => cases c <;> rfl
  | _ => rfl

def Mirror.Level (M : Mirror) : Prop := ∀ site, M.drop site = 0

def Mirror.Turns (M : Mirror) (h : FunctionDecl → FunctionDecl) : Prop :=
  ∀ {Γ : List Renaming}, Unchanged Γ → ∀ {decl decl' : FunctionDecl},
    FunctionRel M (M.drop decl.site) Γ decl decl' → decl' = h decl

section

variable {M : Mirror} {f : ExprId → ExprId} {g : SiteId → SiteId}

theorem Mirror.Plain.turns_level (plain : M.Plain) (maps : M.Maps f g) (level : M.Level) :
    M.Turns (FunctionDecl.renumber f g) := by
  intro Γ unchanged decl decl' rel
  have same := rel.eq_renumber plain maps unchanged
  rw [level, FunctionDecl.later_zero] at same
  exact same

end

def World.Unchanged (W : World) : Prop := ∀ s, LoxLang.Unchanged (W.around s)

/-- In a plain mirror no frame renames anything. -/
theorem MachineRel.unchanged {M : Mirror} {W : World} (plain : M.Plain) {m m' : Machine}
    (h : MachineRel M W m m') : W.Unchanged := by
  intro s ρ hρ
  obtain ⟨f, _, rfl⟩ := List.mem_map.mp hρ
  unfold World.of
  cases found : W[f]? with
  | none => rfl
  | some ρ => exact plain.allowed (h.store.allowed ρ (List.mem_of_getElem? found))

private theorem eq_map_of_forall₂ {α β : Type} {R : α → β → Prop} {h : α → β}
    (hR : ∀ a b, R a b → b = h a) {as : List α} {bs : List β} (all : List.Forall₂ R as bs) :
    bs = as.map h := by
  induction all with
  | nil => rfl
  | cons head _ ih => rw [List.map_cons, hR _ _ head, ih]

section

variable {M : Mirror} {W : World} {h : FunctionDecl → FunctionDecl} (turns : M.Turns h)
  (unchanged : W.Unchanged)

include turns unchanged

private theorem ClosureRel.eq_mapDecl {inner : List Renaming} (hinner : LoxLang.Unchanged inner)
    {c c' : Closure} (rel : ClosureRel M W inner c c') : c' = c.mapDecl h := by
  have all : LoxLang.Unchanged (inner ++ W.around c.scope) := by
    intro ρ hρ
    rcases List.mem_append.mp hρ with hρ | hρ
    · exact hinner ρ hρ
    · exact unchanged _ ρ hρ
  obtain ⟨decl', scope', initializer'⟩ := c'
  obtain ⟨scope, _, initializer, decl⟩ := rel
  simp only at scope initializer
  have same : decl' = h c.decl := turns all decl
  rw [scope, initializer, same, Closure.mapDecl]

private theorem BodyRel.eq_mapDecls {b b' : ClassBody} (rel : BodyRel M W b b') :
    b' = b.mapDecls h := by
  have methods := eq_map_of_forall₂
    (fun _ _ c => c.eq_mapDecl turns unchanged (by simp [LoxLang.Unchanged])) rel.methods
  obtain ⟨id', name', methods'⟩ := b'
  obtain ⟨id, name, _⟩ := rel
  simp only at id name methods
  rw [id, name, methods, ClassBody.mapDecls]

private theorem ClassRel.eq_mapDecls {c c' : Class} (rel : ClassRel M W c c') : c' = c.mapDecls h :=
  by
  have chain := eq_map_of_forall₂ (fun _ _ b => b.eq_mapDecls turns unchanged) rel
  obtain ⟨own', ancestors'⟩ := c'
  simp only [Class.chain, List.map_cons, List.cons.injEq] at chain
  rw [chain.1, chain.2, Class.mapDecls]

theorem ValueRel.eq_mapDecls {v v' : Value} (rel : ValueRel M W v v') : v' = v.mapDecls h := by
  cases rel with
  | callable rel =>
    cases rel with
    | native f => rfl
    | function rel =>
      have same := rel.eq_mapDecl turns unchanged (by simp [LoxLang.Unchanged])
      exact congrArg (fun c => Value.callable (.function c)) same
    | ofClass rel =>
      exact congrArg (fun c => Value.callable (.ofClass c)) (rel.eq_mapDecls turns unchanged)
  | object rel =>
    have kind := rel.kind.eq_mapDecls turns unchanged
    exact congrArg₂ (fun id kind => Value.object ⟨id, kind⟩) rel.id kind
  | _ => rfl

theorem optionalRel_eq_mapDecls {v v' : Option Value} (rel : Option.Rel (ValueRel M W) v v') :
    v' = v.map (Value.mapDecls h) := by
  cases rel with
  | none => rfl
  | some rel => exact congrArg some (rel.eq_mapDecls turns unchanged)

end

section

variable {M : Mirror} (plain : M.Plain)

include plain

theorem FailureRel.eq_or_later {f f' : Failure} (h : FailureRel M f f') :
    f' = f ∨ ∃ (line : Nat) (here : SiteId) (fault : RuntimeFault),
      f = .fault ⟨line, fault⟩ ∧ f' = .fault ⟨line + M.drop here, fault⟩ := by
  cases h with
  | fault line here h =>
    refine .inr ⟨line, here, _, rfl, ?_⟩
    cases h with
    | refl f => rfl
    | unboundLocal h => rw [plain.quoted.mp h]
    | unbound h => rw [plain.quoted.mp h]
  | sink text => exact .inl rfl
  | exhausted => exact .inl rfl

theorem FailureRel.eq (level : M.Level) {f f' : Failure} (h : FailureRel M f f') : f' = f := by
  rcases h.eq_or_later plain with same | ⟨line, here, fault, rfl, rfl⟩
  · exact same
  · rw [level here, Nat.add_zero]

end

end LoxLang
