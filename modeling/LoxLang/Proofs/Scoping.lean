import LoxLang.Machine
import LoxLang.Proofs.StaticScopes
import LoxLang.Proofs.WellFormed

/-!
Frames and static scopes.  A scope of an execution stands for the static scopes around a place in
the text when the two agree frame for frame: each frame was made for the static scope at the same
place, and holds the names declared there.  Every function that a program can get hold of closes
over a scope that stands for the static scopes around its declaration.
-/

set_option autoImplicit false
set_option relaxedAutoImplicit false

namespace LoxLang

open Std (TreeMap)

/-- The number and the name by which an expression reads a variable. -/
def Expr.read? : Expr → Option (ExprId × Token)
  | .variable id name | .this id name | .super id name _ => some (id, name)
  | _ => none

theorem Expr.reference?_of_read? {e : Expr} {r : ExprId × Token} (h : e.read? = some r) :
    e.reference? = some r := by
  cases e <;> first | exact h | cases h

/-- What is known of the frames made so far: which scopes were opened for what, and which names the
frames hold. -/
structure Known where
  opened : Origin → Scope → Prop
  holds : FrameId → String → Prop

instance : LE Known :=
  ⟨fun V V' => (∀ o s, V.opened o s → V'.opened o s) ∧ ∀ f name, V.holds f name → V'.holds f name⟩

theorem Known.le_rfl {V : Known} : V ≤ V := ⟨fun _ _ h => h, fun _ _ h => h⟩

theorem Known.le_trans {V V' V'' : Known} (h : V ≤ V') (h' : V' ≤ V'') : V ≤ V'' :=
  ⟨fun o s hs => h'.1 o s (h.1 o s hs), fun f name hf => h'.2 f name (h.2 f name hf)⟩

/-- A scope stands for the static scopes around a place, frame for frame.  One name may still be
missing from the innermost frame. -/
inductive Stands (V : Known) : Option String → StaticStack → Scope → Prop where
  | globals {missing : Option String} : Stands V missing [] .globals
  | inside {missing : Option String} {σ : StaticFrame} {Γ : StaticStack} {f : FrameId} {s : Scope} :
      V.opened σ.origin ⟨f, s.frames⟩ →
      (∀ name : String, σ.names.contains name → some name ≠ missing → V.holds f name) →
      Stands V none Γ s → Stands V missing (σ :: Γ) ⟨f, s.frames⟩

/-- A note that concerns an expression of the programs in question, which does not read the missing
name. -/
def Note.Accepted (A : Expr → StaticStack → Prop) (missing : Option String) : Note → Prop
  | .met e Γ => A e Γ ∧ ∀ r ∈ e.read?, some r.2.lexeme ≠ missing
  | .fault _ => False

def Accepted (A : Expr → StaticStack → Prop) (missing : Option String) (notes : List Note) : Prop :=
  ∀ n ∈ notes, n.Accepted A missing

section

variable {A : Expr → StaticStack → Prop} {missing : Option String} {notes notes' : List Note}

theorem Accepted.left (h : Accepted A missing (notes ++ notes')) : Accepted A missing notes :=
  fun n hn => h n (List.mem_append_left _ hn)

theorem Accepted.right (h : Accepted A missing (notes ++ notes')) : Accepted A missing notes' :=
  fun n hn => h n (List.mem_append_right _ hn)

theorem Accepted.append (h : Accepted A missing notes) (h' : Accepted A missing notes') :
    Accepted A missing (notes ++ notes') := by
  intro n hn
  rcases List.mem_append.mp hn with hn | hn
  · exact h n hn
  · exact h' n hn

theorem Accepted.not_fault {e : BindingError} (h : Accepted A missing notes) :
    .fault e ∉ notes :=
  fun member => h _ member

end

section

variable (A : Expr → StaticStack → Prop) (V : Known)

/-- A function of the programs in question that closes over a scope which stands for the static
scopes around its declaration. -/
def Closure.Scoped (c : Closure) : Prop :=
  ∃ Γ enclosing context, Stands V none Γ c.scope ∧ c.decl.WellFormed ∧
    Accepted A none (Walk.function enclosing context Γ c.decl)

def Closure.ScopedMethod (c : Closure) : Prop :=
  ∃ Γ enclosing context, Stands V none Γ c.scope ∧ c.decl.WellFormed ∧
    Accepted A none (Walk.function enclosing context (Γ.receiving c.decl) c.decl)

def Class.Scoped (k : Class) : Prop := ∀ b ∈ k.chain, ∀ c ∈ b.methods, c.ScopedMethod A V

def Value.Scoped : Value → Prop
  | .callable (.function c) => c.Scoped A V
  | .callable (.ofClass k) => k.Scoped A V
  | .object o => o.kind.Scoped A V
  | _ => True

/-- What is stored when everything is scoped.  A frame is opened once. -/
structure Store.Scoped (m : Store) : Prop where
  holds : ∀ f name, V.holds f name ↔ m.holds f name
  globals : 0 < m.frames.size
  made : ∀ o s, V.opened o s → s.frame < m.frames.size
  once : ∀ o s o' s', V.opened o s → V.opened o' s' → s.frame = s'.frame → o = o' ∧ s = s'
  frames : ∀ f name v, m.local? f name = some v → v.Scoped A V
  objects : ∀ (id : ObjectId) (name : String) v,
    m.objects[id]?.bind (·[name]?) = some v → v.Scoped A V

end

section

variable {A : Expr → StaticStack → Prop} {V V' : Known} {m : Store}

theorem Stands.mono {missing : Option String} {Γ : StaticStack} {s : Scope}
    (h : Stands V missing Γ s) (le : V ≤ V') : Stands V' missing Γ s := by
  induction h with
  | globals => exact .globals
  | inside opened names _ ih =>
    exact .inside (le.1 _ _ opened) (fun name member other => le.2 _ _ (names name member other)) ih

private theorem Closure.Scoped.mono {c : Closure} (h : c.Scoped A V) (le : V ≤ V') :
    c.Scoped A V' := by
  obtain ⟨Γ, enclosing, context, stands, rest⟩ := h
  exact ⟨Γ, enclosing, context, stands.mono le, rest⟩

theorem Closure.ScopedMethod.mono {c : Closure} (h : c.ScopedMethod A V) (le : V ≤ V') :
    c.ScopedMethod A V' := by
  obtain ⟨Γ, enclosing, context, stands, rest⟩ := h
  exact ⟨Γ, enclosing, context, stands.mono le, rest⟩

theorem Class.Scoped.mono {k : Class} (h : k.Scoped A V) (le : V ≤ V') : k.Scoped A V' :=
  fun b hb c hc => (h b hb c hc).mono le

theorem Value.Scoped.mono {v : Value} (h : v.Scoped A V) (le : V ≤ V') : v.Scoped A V' := by
  cases v with
  | callable c =>
    cases c with
    | native f => trivial
    | function c => exact Closure.Scoped.mono h le
    | ofClass k => exact Class.Scoped.mono h le
  | object o => exact Class.Scoped.mono h le
  | _ => trivial

theorem Class.Scoped.method? {k : Class} (h : k.Scoped A V) {name : String} {c : Closure}
    (found : k.method? name = some c) : c.ScopedMethod A V := by
  obtain ⟨b, hb, hc⟩ := List.exists_of_findSome?_eq_some found
  exact h b hb c (List.mem_reverse.mp (List.mem_of_find?_eq_some hc))

/-- The frame at the distance at which a name is found is there, holds the name, and was opened for
the static scope in which the name was found. -/
theorem Stands.ancestor? {missing : Option String} {Γ : StaticStack} {s : Scope}
    (h : Stands V missing Γ s) {name : String} {d : Nat} (found : Γ.distance? name = some d)
    (other : some name ≠ missing) :
    ∃ σ t, Γ[d]? = some σ ∧ σ.names.contains name ∧ s.ancestor? d = some t ∧
      V.holds t.frame name ∧ V.opened σ.origin t := by
  induction h generalizing d with
  | globals => simp [StaticStack.distance?] at found
  | @inside missing σ Γ f s opened names _ ih =>
    rw [StaticStack.distance?, List.findIdx?_cons] at found
    by_cases here : σ.names.contains name
    · rw [if_pos here] at found
      obtain rfl := Option.some.inj found
      exact ⟨σ, ⟨f, s.frames⟩, rfl, here, rfl, names name here other, opened⟩
    · rw [if_neg here] at found
      obtain ⟨d', found', rfl⟩ := Option.map_eq_some_iff.mp found
      obtain ⟨σ', t, around, member, out, held, opened'⟩ := ih found' (by simp)
      refine ⟨σ', t, around, member, ?_, held, opened'⟩
      rw [Scope.ancestor?_eq_some_iff] at out ⊢
      exact out

theorem Stands.made {missing : Option String} {Γ : StaticStack} {s : Scope}
    (h : Stands V missing Γ s) (stored : m.Scoped A V) : s.frame < m.frames.size := by
  cases h with
  | globals => exact stored.globals
  | inside opened _ _ => exact stored.made _ _ opened

private theorem Stands.weaken {Γ : StaticStack} {s : Scope} (h : Stands V none Γ s)
    (missing : Option String) : Stands V missing Γ s := by
  cases h with
  | globals => exact .globals
  | inside opened names outer =>
    exact .inside opened (fun name member _ => names name member (by simp)) outer

/-- A name may be added to the innermost scope while it counts as missing, or once the innermost
frame holds it. -/
theorem Stands.mark {missing : Option String} {Γ : StaticStack} {s : Scope}
    (h : Stands V missing Γ s) {name : String} (complete : Bool)
    (held : some name ≠ missing → V.holds s.frame name) :
    Stands V missing (Γ.mark name complete) s := by
  cases h with
  | globals => exact .globals
  | inside opened names outer =>
    refine .inside opened (fun n member other => ?_) outer
    by_cases same : name = n
    · exact same ▸ held (same ▸ other)
    · exact names n (by simpa [TreeMap.contains_insert, same] using member) other

theorem Stands.declare {Γ : StaticStack} {s : Scope} (h : Stands V none Γ s) (name : Token) :
    Stands V (some name.lexeme) (Γ.declare name) s := by
  unfold StaticStack.declare
  split
  · exact h.weaken _
  · exact (h.weaken _).mark false fun other => absurd rfl other

theorem Stands.introducing {Γ : StaticStack} {s : Scope} (h : Stands V none Γ s) (name : Token) :
    Stands V (some name.lexeme) (Γ.introduce name) s :=
  (h.declare name).mark true fun other => absurd rfl other

theorem Stands.introduce {Γ : StaticStack} {s : Scope} (h : Stands V none Γ s) {name : Token}
    (held : V.holds s.frame name.lexeme) : Stands V none (Γ.introduce name) s := by
  unfold StaticStack.introduce StaticStack.define StaticStack.declare
  split
  · exact h.mark true fun _ => held
  · exact (h.mark false fun _ => held).mark true fun _ => held

theorem Stands.introduceAll {Γ : StaticStack} {s : Scope} (h : Stands V none Γ s)
    {names : List Token} (held : ∀ name ∈ names, V.holds s.frame name.lexeme) :
    Stands V none (Γ.introduceAll names) s := by
  induction names generalizing Γ with
  | nil => exact h
  | cons name names ih =>
    exact ih (h.introduce (held name List.mem_cons_self))
      fun name' member => held name' (List.mem_cons_of_mem _ member)

/-! What is scoped stays so in every change of a store. -/

def Known.opening (V : Known) (origin : Origin) (t : Scope) (bindings : Bindings) : Known where
  opened o s := V.opened o s ∨ (o = origin ∧ s = t)
  holds f name := V.holds f name ∨ (f = t.frame ∧ bindings.contains name)

def Known.setting (V : Known) (f : FrameId) (name : String) : Known where
  opened := V.opened
  holds f' name' := V.holds f' name' ∨ (f' = f ∧ name' = name)

theorem Known.le_opening (V : Known) (origin : Origin) (t : Scope) (bindings : Bindings) :
    V ≤ V.opening origin t bindings :=
  ⟨fun _ _ h => .inl h, fun _ _ h => .inl h⟩

theorem Known.le_setting (V : Known) (f : FrameId) (name : String) : V ≤ V.setting f name :=
  ⟨fun _ _ h => h, fun _ _ h => .inl h⟩

theorem Store.Scoped.newScope (h : m.Scoped A V) (origin : Origin) {bindings : Bindings}
    (values : ∀ (name : String) v, bindings[name]? = some v → v.Scoped A V)
    (enclosing : Option Scope) :
    (m.newScope bindings enclosing).2.Scoped A
      (V.opening origin (m.newScope bindings enclosing).1 bindings) := by
  have later := V.le_opening origin (m.newScope bindings enclosing).1 bindings
  have size : (m.newScope bindings enclosing).2.frames.size = m.frames.size + 1 :=
    Array.size_push _
  have frame := m.frame_newScope bindings enclosing
  constructor
  case holds =>
    intro f name
    simp only [Known.opening, Store.holds, Store.local?_newScope, frame]
    by_cases new : f = m.frames.size
    · subst new
      simp only [if_true, true_and, TreeMap.contains_eq_isSome_getElem?]
      constructor
      · rintro (held | new)
        · have holds := (h.holds _ _).mp held
          simp [Store.holds, Store.local?] at holds
        · exact new
      · exact .inr
    · simp only [new, if_false, false_and, or_false]
      exact h.holds f name
  case globals =>
    rw [size]
    exact Nat.succ_pos _
  case made =>
    rw [size]
    rintro o s (opened | ⟨rfl, rfl⟩)
    · exact Nat.lt_succ_of_lt (h.made o s opened)
    · exact Nat.lt_succ_of_le (Nat.le_of_eq frame)
  case once =>
    have old : ∀ o s, V.opened o s → s.frame ≠ (m.newScope bindings enclosing).1.frame :=
      fun o s opened => Nat.ne_of_lt (frame ▸ h.made o s opened)
    rintro o s o' s' (opened | ⟨rfl, rfl⟩) (opened' | ⟨rfl, rfl⟩) same
    · exact h.once o s o' s' opened opened' same
    · exact absurd same (old o s opened)
    · exact absurd same.symm (old o' s' opened')
    · exact ⟨rfl, rfl⟩
  case frames =>
    intro f name v found
    rw [Store.local?_newScope] at found
    split at found
    · exact (values name v found).mono later
    · exact (h.frames f name v found).mono later
  case objects => exact fun id name v found => (h.objects id name v found).mono later

theorem Store.Scoped.setLocal (h : m.Scoped A V) {f : FrameId} (made : f < m.frames.size)
    {name : String} {v : Value} (value : v.Scoped A (V.setting f name)) :
    (m.setLocal f name v).Scoped A (V.setting f name) := by
  have later := V.le_setting f name
  have size : (m.setLocal f name v).frames.size = m.frames.size := Array.size_modify ..
  constructor
  case holds =>
    intro f' name'
    simp only [Known.setting, Store.holds, Store.local?_setLocal]
    by_cases here : f = f' ∧ name = name'
    · obtain ⟨rfl, rfl⟩ := here
      simp [made]
    · have other : ¬(f = f' ∧ name = name' ∧ f < m.frames.size) := fun h => here ⟨h.1, h.2.1⟩
      have other' : ¬(f' = f ∧ name' = name) := fun h => here ⟨h.1.symm, h.2.symm⟩
      rw [if_neg other]
      simp only [other', or_false]
      exact h.holds f' name'
  case globals => exact size ▸ h.globals
  case made => exact size ▸ h.made
  case once => exact h.once
  case frames =>
    intro f' name' v' found
    rw [Store.local?_setLocal] at found
    split at found
    · exact Option.some.inj found ▸ value
    · exact (h.frames f' name' v' found).mono later
  case objects => exact fun id name v found => (h.objects id name v found).mono later

theorem Store.Scoped.newObject (h : m.Scoped A V) (k : Class) : (m.newObject k).2.Scoped A V where
  holds := h.holds
  globals := h.globals
  made := h.made
  once := h.once
  frames := h.frames
  objects id name v found := by
    rw [m.getElem?_newObject] at found
    exact h.objects id name v found

theorem Store.Scoped.newClass (h : m.Scoped A V) : m.newClass.2.Scoped A V :=
  ⟨h.holds, h.globals, h.made, h.once, h.frames, h.objects⟩

theorem Store.Scoped.setField (h : m.Scoped A V) (o : Object) (name : String) {v : Value}
    (value : v.Scoped A V) : (m.setField o name v).Scoped A V where
  holds := h.holds
  globals := h.globals
  made := h.made
  once := h.once
  frames := h.frames
  objects id name' v' found := by
    rw [m.getElem?_setField] at found
    split at found
    · exact Option.some.inj found ▸ value
    · exact h.objects id name' v' found

theorem Store.Scoped.getAt? (h : m.Scoped A V) {s : Scope} {d : Nat} {name : String} {v : Value}
    (found : m.getAt? s d name = some v) : v.Scoped A V := by
  obtain ⟨t, _, held⟩ := Option.bind_eq_some_iff.mp found
  exact h.frames _ _ v held

theorem Store.Scoped.get? (h : m.Scoped A V) {s : Scope} {name : String} {v : Value}
    (found : m.get? s name = some v) : v.Scoped A V := by
  obtain ⟨f, _, held⟩ := List.exists_of_findSome?_eq_some found
  exact h.frames _ _ v held

theorem Store.Scoped.made_of_holds (h : m.Scoped A V) {f : FrameId} {name : String}
    (holds : V.holds f name) : f < m.frames.size := by
  have held := (h.holds f name).mp holds
  rcases Nat.lt_or_ge f m.frames.size with made | outside
  · exact made
  · simp [Store.holds, Store.local?, Array.getElem?_eq_none outside] at held

end

/-! What is scoped stays so when there are more programs in question. -/

section

variable {A A' : Expr → StaticStack → Prop} (more : ∀ e Γ, A e Γ → A' e Γ) {V : Known}

include more

private theorem Accepted.widen {missing : Option String} {notes : List Note}
    (h : Accepted A missing notes) : Accepted A' missing notes := by
  intro n hn
  have accepted := h n hn
  cases n with
  | met e Γ => exact ⟨more e Γ accepted.1, accepted.2⟩
  | fault e => exact accepted

private theorem Closure.Scoped.widen {c : Closure} (h : c.Scoped A V) : c.Scoped A' V := by
  obtain ⟨Γ, enclosing, context, stands, wellFormed, accepted⟩ := h
  exact ⟨Γ, enclosing, context, stands, wellFormed, accepted.widen more⟩

theorem Class.Scoped.widen {k : Class} (h : k.Scoped A V) : k.Scoped A' V := by
  intro b hb c hc
  obtain ⟨Γ, enclosing, context, stands, wellFormed, accepted⟩ := h b hb c hc
  exact ⟨Γ, enclosing, context, stands, wellFormed, accepted.widen more⟩

theorem Value.Scoped.widen {v : Value} (h : v.Scoped A V) : v.Scoped A' V := by
  cases v with
  | callable c =>
    cases c with
    | native f => trivial
    | function c => exact Closure.Scoped.widen more h
    | ofClass k => exact Class.Scoped.widen more h
  | object o => exact Class.Scoped.widen more h
  | _ => trivial

theorem Store.Scoped.widen {m : Store} (h : m.Scoped A V) : m.Scoped A' V where
  holds := h.holds
  globals := h.globals
  made := h.made
  once := h.once
  frames f name v found := (h.frames f name v found).widen more
  objects id name v found := (h.objects id name v found).widen more

end

end LoxLang
