import LoxLang.Proofs.Mirror
import LoxLang.Proofs.OperatorResults

/-!
What mirrored values have in common, and what happens to mirrored stores.  A value tells nothing
of numbers and of the names of variables, so its text, its type and its equality to others are the
same on both sides; and whatever is stored on both sides alike keeps the stores alike.
-/

set_option autoImplicit false
set_option relaxedAutoImplicit false

namespace LoxLang

open Std (TreeMap)

namespace World

variable {W W' : World}

private theorem of_prefix (h : W <+: W') {f : FrameId} (made : f < W.length) : W'.of f = W.of f :=
  by
  unfold of
  rw [List.getElem?_eq_getElem made, List.prefix_iff_getElem?.mp h f made]

theorem Has.mono {s : Scope} (has : W.Has s) (h : W <+: W') : W'.Has s :=
  fun f hf => Nat.lt_of_lt_of_le (has f hf) h.length_le

theorem Has.around {s : Scope} (has : W.Has s) (h : W <+: W') : W'.around s = W.around s :=
  List.map_congr_left fun f hf => of_prefix h (has f hf)

private theorem around_getElem? (s : Scope) (k : Nat) : (W.around s)[k]? = s.frames[k]?.map W.of :=
  by
  simp [World.around]

end World

section

variable {M : Mirror} {W W' : World}

theorem ClosureRel.mono {inner : List Renaming} {c c' : Closure} (h : ClosureRel M W inner c c')
    (later : W <+: W') : ClosureRel M W' inner c c' where
  scope := h.scope
  has := h.has.mono later
  initializer := h.initializer
  decl := h.has.around later ▸ h.decl

private theorem BodyRel.mono {b b' : ClassBody} (h : BodyRel M W b b') (later : W <+: W') :
    BodyRel M W' b b' :=
  ⟨h.id, h.name, h.methods.imp fun _ _ c => c.mono later⟩

theorem ClassRel.mono {c c' : Class} (h : ClassRel M W c c') (later : W <+: W') :
    ClassRel M W' c c' :=
  List.Forall₂.imp (fun _ _ b => b.mono later) h

private theorem CallableRel.mono {c c' : Callable} (h : CallableRel M W c c') (later : W <+: W') :
    CallableRel M W' c c' := by
  cases h with
  | native f => exact .native f
  | function c => exact .function (c.mono later)
  | ofClass c => exact .ofClass (c.mono later)

theorem ObjectRel.mono {o o' : Object} (h : ObjectRel M W o o') (later : W <+: W') :
    ObjectRel M W' o o' :=
  ⟨h.id, h.kind.mono later⟩

theorem ValueRel.mono {v v' : Value} (h : ValueRel M W v v') (later : W <+: W') :
    ValueRel M W' v v' := by
  cases h with
  | nil => exact .nil
  | bool b => exact .bool b
  | number x => exact .number x
  | string s => exact .string s
  | callable c => exact .callable (c.mono later)
  | object o => exact .object (o.mono later)

private theorem optional_mono {v v' : Option Value} (h : Option.Rel (ValueRel M W) v v')
    (later : W <+: W') : Option.Rel (ValueRel M W') v v' := by
  cases h with
  | none => exact .none
  | some h => exact .some (h.mono later)

/-! What a value shows is the same on both sides. -/

theorem FunctionRel.name_eq {k : Nat} {Γ : List Renaming} {d d' : FunctionDecl}
    (h : FunctionRel M k Γ d d') : d'.name.lexeme = d.name.lexeme := by
  cases h
  rfl

private theorem FunctionRel.params_length {k : Nat} {Γ : List Renaming} {d d' : FunctionDecl}
    (h : FunctionRel M k Γ d d') : d'.params.length = d.params.length := by
  cases h with
  | intro ρ name params _ _ _ _ => simp [FunctionDecl.params]

/-- What stands in the frame of a call mirrors under a renaming of the parameters. -/
theorem FunctionRel.parts {k : Nat} {Γ : List Renaming} {d d' : FunctionDecl}
    (h : FunctionRel M k Γ d d') : ∃ ρ, M.allowed ρ ∧
      d'.params.map Token.lexeme = (d.params.map Token.lexeme).map ρ.apply ∧
      StmtsRel M k (ρ :: Γ) d.body d'.body := by
  cases h with
  | intro ρ name params hρ site drop body =>
    refine ⟨ρ, hρ, ?_, body⟩
    rw [FunctionDecl.params, FunctionDecl.params, List.map_map, List.map_map]
    rfl

private theorem ClosureRel.name_eq {inner : List Renaming} {c c' : Closure}
    (h : ClosureRel M W inner c c') : c'.name = c.name := by
  simp only [Closure.name, h.decl.name_eq]

private theorem ClosureRel.arity_eq {inner : List Renaming} {c c' : Closure}
    (h : ClosureRel M W inner c c') : c'.arity = c.arity :=
  h.decl.params_length

private theorem ClassRel.own {c c' : Class} (h : ClassRel M W c c') : BodyRel M W c.own c'.own := by
  cases h with
  | cons own _ => exact own

private theorem findSome?_rel {α β : Type} {R : α → α → Prop} {S : β → β → Prop} {f : α → Option β}
    (hf : ∀ a a', R a a' → Option.Rel S (f a) (f a')) :
    ∀ {as as' : List α}, List.Forall₂ R as as' →
      Option.Rel S (as.findSome? f) (as'.findSome? f)
  | _, _, .nil => .none
  | _, _, .cons (a := a) (b := a') head tail => by
    have first := hf a a' head
    simp only [List.findSome?_cons]
    cases h : f a <;> cases h' : f a' <;> rw [h, h'] at first
    · exact findSome?_rel hf tail
    · nomatch first
    · nomatch first
    · exact first

private theorem BodyRel.method? {b b' : ClassBody} (h : BodyRel M W b b') (name : String) :
    Option.Rel (ClosureRel M W [.refl]) (b.method? name) (b'.method? name) := by
  unfold ClassBody.method?
  have reversed := List.forall₂_reverse_iff.mpr h.methods
  generalize b.methods.reverse = methods, b'.methods.reverse = methods' at reversed ⊢
  induction reversed with
  | nil => exact .none
  | cons first _ ih =>
    simp only [List.find?_cons, first.name_eq]
    split
    · exact .some first
    · exact ih

theorem ClassRel.method? {c c' : Class} (h : ClassRel M W c c') (name : String) :
    Option.Rel (ClosureRel M W [.refl]) (c.method? name) (c'.method? name) :=
  findSome?_rel (fun _ _ b => b.method? name) h

private theorem ClassRel.arity_eq {c c' : Class} (h : ClassRel M W c c') : c'.arity = c.arity := by
  unfold Class.arity
  have found := h.method? initializerName
  generalize c.method? initializerName = m, c'.method? initializerName = m' at found ⊢
  cases found with
  | none => rfl
  | some found => exact found.arity_eq

theorem CallableRel.arity_eq {c c' : Callable} (h : CallableRel M W c c') : c'.arity = c.arity := by
  cases h with
  | native f => rfl
  | function c => exact c.arity_eq
  | ofClass c => exact c.arity_eq

theorem ValueRel.alike {v v' : Value} (h : ValueRel M W v v') : v.Alike v' := by
  cases h with
  | callable c => exact .callable _ _
  | object o => exact .object _ _
  | _ => exact .refl _

/-- A value that closes over nothing mirrors itself. -/
theorem Value.IsConstant.mirrored {v : Value} (h : v.IsConstant) : ValueRel M W v v := by
  cases v with
  | callable c | object o => cases h
  | _ => constructor

theorem ValueRel.text_eq {v v' : Value} (h : ValueRel M W v v') : v'.text = v.text := by
  cases h with
  | callable c =>
    cases c with
    | native f => rfl
    | function c => simp only [Value.text, c.name_eq]
    | ofClass c => exact c.own.name
  | object o => simp only [Value.text, Class.name, o.kind.own.name]
  | _ => rfl

theorem FunctionRel.site {k : Nat} {Γ : List Renaming} {d d' : FunctionDecl}
    (h : FunctionRel M k Γ d d') : M.site d.site d'.site := by
  cases h with
  | intro _ _ _ _ site _ _ => exact site

private theorem FunctionRel.drop_eq {k : Nat} {Γ : List Renaming} {d d' : FunctionDecl}
    (h : FunctionRel M k Γ d d') : M.drop d.site = k := by
  cases h with
  | intro _ _ _ _ _ drop _ => exact drop

/-- A declaration stands as many lines further down as its site tells. -/
theorem FunctionRel.at_site {k : Nat} {Γ : List Renaming} {d d' : FunctionDecl}
    (h : FunctionRel M k Γ d d') : FunctionRel M (M.drop d.site) Γ d d' :=
  h.drop_eq.symm ▸ h

private theorem ClosureRel.same_eq {a a' b b' : Closure} (ha : ClosureRel M W [] a a')
    (hb : ClosureRel M W [] b b') : a'.same b' = a.same b := by
  have site := M.site_iff ha.decl.site hb.decl.site
  simp only [Closure.same, ha.scope, hb.scope]
  congr 1
  rw [Bool.eq_iff_iff]
  simpa using site.symm

theorem ValueRel.same_eq {a a' b b' : Value} (ha : ValueRel M W a a') (hb : ValueRel M W b b') :
    a'.same b' = a.same b := by
  cases ha with
  | callable ca =>
    cases hb with
    | callable cb =>
      cases ca with
      | function ca =>
        cases cb with
        | function cb => exact ca.same_eq cb
        | _ => rfl
      | ofClass ca =>
        cases cb with
        | ofClass cb => simp only [Value.same, ca.own.id, cb.own.id]
        | _ => rfl
      | native f => cases cb <;> rfl
    | _ => cases ca <;> rfl
  | object oa =>
    cases hb with
    | object ob => simp only [Value.same, oa.id, ob.id]
    | _ => rfl
  | _ =>
    cases hb with
    | callable cb => cases cb <;> rfl
    | _ => rfl

/-! Stores that mirror one another go on to do so. -/

theorem BindingsRel.empty (ρ : Renaming) : BindingsRel M W ρ ∅ ∅ := by
  intro name
  simp only [TreeMap.getElem?_emptyc]
  exact .none

theorem BindingsRel.insert {ρ : Renaming} {b b' : Bindings} (h : BindingsRel M W ρ b b')
    (name : String) {v v' : Value} (hv : ValueRel M W v v') :
    BindingsRel M W ρ (b.insert name v) (b'.insert (ρ.apply name) v') := by
  intro key
  simp only [TreeMap.getElem?_insert, Std.compare_eq_iff_eq, ρ.injective.eq_iff]
  split
  · exact .some hv
  · exact h key

theorem BindingsRel.bindAll {ρ : Renaming} {b b' : Bindings} (h : BindingsRel M W ρ b b')
    {names : List String} {args args' : List Value} (hargs : List.Forall₂ (ValueRel M W) args args') :
    BindingsRel M W ρ
      ((names.zip args).foldl (fun b arg => b.insert arg.1 arg.2) b)
      (((names.map ρ.apply).zip args').foldl (fun b arg => b.insert arg.1 arg.2) b') := by
  induction hargs generalizing names b b' with
  | nil => simpa using h
  | cons first _ ih =>
    cases names with
    | nil => simpa using h
    | cons name names => exact ih (h.insert name first)

private theorem Store.local?_eq_none (m : Store) {f : FrameId} (h : ¬ f < m.frames.size)
    (name : String) :
    m.local? f name = none := by
  unfold local?
  rw [Array.getElem?_eq_none (Nat.le_of_not_lt h)]
  rfl

variable {m m' : Store}

theorem World.has_inside {s : Scope} (h : StoreRel M W m m') (has : W.Has s) (ρ : Renaming) :
    (W ++ [ρ] : World).Has (.inside m.frames.size (some s)) := by
  intro f hf
  simp only [Scope.inside, Scope.frames, List.mem_cons, List.length_append,
    List.length_singleton] at hf ⊢
  rcases hf with rfl | hf
  · rw [h.size]
    exact Nat.lt_succ_self _
  · exact Nat.lt_succ_of_lt (has f (by simpa [Scope.frames] using hf))

theorem World.around_inside {s : Scope} (h : StoreRel M W m m') (has : W.Has s) (ρ : Renaming) :
    (W ++ [ρ] : World).around (.inside m.frames.size (some s)) = ρ :: W.around s := by
  have older := has.around (List.prefix_append W [ρ])
  simp only [World.around, Scope.inside, Scope.frames, List.map_cons, List.cons.injEq] at older ⊢
  refine ⟨?_, older⟩
  simp [World.of, h.size]

theorem StoreRel.newScope (h : StoreRel M W m m') {ρ : Renaming} (hρ : M.allowed ρ)
    {b b' : Bindings} (hb : BindingsRel M W ρ b b') (s : Option Scope) :
    (m'.newScope b' s).1 = (m.newScope b s).1 ∧
      StoreRel M (W ++ [ρ]) (m.newScope b s).2 (m'.newScope b' s).2 := by
  have later := List.prefix_append W [ρ]
  refine ⟨by simp only [Store.newScope, h.size, h.size'], ?_⟩
  exact {
    size := by simp [Store.newScope, h.size]
    size' := by simp [Store.newScope, h.size']
    globals := by
      have made : 0 < W.length := (List.getElem?_eq_some_iff.mp h.globals).1
      rw [List.getElem?_append_left made, h.globals]
    allowed := by
      intro σ hσ
      rcases List.mem_append.mp hσ with hσ | hσ
      · exact h.allowed σ hσ
      · exact List.mem_singleton.mp hσ ▸ hρ
    named := by
      intro f name
      rw [Store.local?_newScope, Store.local?_newScope, h.size, h.size']
      by_cases new : f = W.length
      · simp only [new, if_true]
        have own : World.of (W ++ [ρ]) W.length = ρ := by simp [World.of]
        rw [own]
        exact optional_mono (hb name) later
      · simp only [new, if_false]
        by_cases made : f < W.length
        · rw [World.of_prefix later made]
          exact optional_mono (h.named f name) later
        · rw [m.local?_eq_none (h.size ▸ made), m'.local?_eq_none (h.size' ▸ made)]
          exact .none
    objects := h.objects
    fields := fun id name => optional_mono (h.fields id name) later
    nextClass := h.nextClass }

theorem StoreRel.setLocal (h : StoreRel M W m m') (f : FrameId) (name : String) {v v' : Value}
    (hv : ValueRel M W v v') :
    StoreRel M W (m.setLocal f name v) (m'.setLocal f ((W.of f).apply name) v') := by
  exact {
    size := by simp [Store.setLocal, h.size]
    size' := by simp [Store.setLocal, h.size']
    globals := h.globals
    allowed := h.allowed
    named := by
      intro other key
      rw [Store.local?_setLocal, Store.local?_setLocal, h.size, h.size']
      by_cases same : f = other
      · subst same
        simp only [true_and, (W.of f).injective.eq_iff]
        split
        · exact .some hv
        · exact h.named f key
      · simp only [same, false_and, if_false]
        exact h.named other key
    objects := h.objects
    fields := h.fields
    nextClass := h.nextClass }

theorem StoreRel.newObject (h : StoreRel M W m m') {k k' : Class} (hk : ClassRel M W k k') :
    ObjectRel M W (m.newObject k).1 (m'.newObject k').1 ∧
      StoreRel M W (m.newObject k).2 (m'.newObject k').2 := by
  refine ⟨⟨by simp only [Store.newObject, h.objects], hk⟩, ?_⟩
  exact {
    size := h.size
    size' := h.size'
    globals := h.globals
    allowed := h.allowed
    named := h.named
    objects := by simp [Store.newObject, h.objects]
    fields := by
      intro id name
      rw [m.getElem?_newObject, m'.getElem?_newObject]
      exact h.fields id name
    nextClass := h.nextClass }

theorem StoreRel.newClass (h : StoreRel M W m m') :
    m'.newClass.1 = m.newClass.1 ∧ StoreRel M W m.newClass.2 m'.newClass.2 :=
  ⟨h.nextClass, { h with nextClass := congrArg (· + 1) h.nextClass }⟩

theorem StoreRel.setField (h : StoreRel M W m m') {o o' : Object} (ho : ObjectRel M W o o')
    (name : String) {v v' : Value} (hv : ValueRel M W v v') :
    StoreRel M W (m.setField o name v) (m'.setField o' name v') := by
  exact {
    size := h.size
    size' := h.size'
    globals := h.globals
    allowed := h.allowed
    named := h.named
    objects := by simp [Store.setField, h.objects]
    fields := by
      intro id key
      rw [m.getElem?_setField, m'.getElem?_setField, ho.id, h.objects]
      split
      · exact .some hv
      · exact h.fields id key
    nextClass := h.nextClass }

/-! A name that is looked up is found on both sides or on neither. -/

private theorem renamed_around {s t : Scope} {d : Nat} (h : s.ancestor? d = some t)
    (name : String) :
    renamed (W.around s) (some d) name = (W.of t.frame).apply name := by
  have frame : s.frames[d]? = some t.frame := by
    have dropped := congrArg List.head? (Scope.ancestor?_eq_some_iff.mp h)
    simpa [Scope.frames, List.head?_drop] using dropped
  simp only [renamed, World.around_getElem?, frame, Option.map_some, Option.getD_some]

theorem StoreRel.getAt? (h : StoreRel M W m m') (s : Scope) (d : Nat) (name : String) :
    Option.Rel (ValueRel M W) (m.getAt? s d name)
      (m'.getAt? s d (renamed (W.around s) (some d) name)) := by
  unfold Store.getAt?
  cases found : s.ancestor? d with
  | none => exact .none
  | some t =>
    rw [renamed_around found]
    exact h.named t.frame name

theorem renamed_super (Γ : List Renaming) (d : Option Nat) : renamed Γ d "super" = "super" := by
  cases d with
  | none => rfl
  | some d => exact Renaming.super _

theorem renamed_this (Γ : List Renaming) (d : Option Nat) : renamed Γ d "this" = "this" := by
  cases d with
  | none => rfl
  | some d => exact Renaming.this _

private theorem StoreRel.holds (h : StoreRel M W m m') (f : FrameId) (name : String) :
    m'.holds f ((W.of f).apply name) = m.holds f name := by
  have named := h.named f name
  unfold Store.holds
  generalize m.local? f name = v, m'.local? f ((W.of f).apply name) = v' at named ⊢
  cases named <;> rfl

theorem StoreRel.holderAt? (h : StoreRel M W m m') (s : Scope) (d : Nat) (name : String) :
    m'.holderAt? s d (renamed (W.around s) (some d) name) = m.holderAt? s d name := by
  unfold Store.holderAt?
  cases found : s.ancestor? d with
  | none => rfl
  | some t => simp only [renamed_around found, Option.map_some, Option.filter_some, h.holds]

theorem Store.renamed_holderAt? {s : Scope} {d : Nat} {name key : String} {f : FrameId}
    (h : m.holderAt? s d name = some f) :
    renamed (W.around s) (some d) key = (W.of f).apply key := by
  unfold Store.holderAt? at h
  cases found : s.ancestor? d with
  | none => simp [found] at h
  | some t =>
    rw [renamed_around found]
    simp only [found, Option.map_some, Option.filter_some, Option.ite_none_right_eq_some,
      Option.some.injEq] at h
    rw [h.2]

theorem StoreRel.of_globals (h : StoreRel M W m m') : W.of 0 = .refl := by
  simp [World.of, h.globals]

private theorem StoreRel.global (h : StoreRel M W m m') (name : String) :
    Option.Rel (ValueRel M W) (m.local? 0 name) (m'.local? 0 name) := by
  have named := h.named 0 name
  rw [h.of_globals] at named
  exact named

theorem StoreRel.getGlobal? (h : StoreRel M W m m') (name : String) :
    Option.Rel (ValueRel M W) (m.get? .globals name) (m'.get? .globals name) := by
  have global := h.global name
  simp only [Store.get?, Scope.globals, Scope.frames, List.findSome?_cons, List.findSome?_nil]
  generalize m.local? 0 name = v, m'.local? 0 name = v' at global ⊢
  cases global with
  | none => exact .none
  | some h => exact .some h

theorem StoreRel.globalHolder? (h : StoreRel M W m m') (name : String) :
    m'.holder? .globals name = m.holder? .globals name := by
  have holds := h.holds 0 name
  rw [h.of_globals] at holds
  have holds : m'.holds 0 name = m.holds 0 name := holds
  simp only [Store.holder?, Scope.globals, Scope.frames, List.find?_cons, List.find?_nil, holds]

end

end LoxLang
