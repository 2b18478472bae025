import LoxLang.Proofs.Events

/-!
The values that are stored, in variables and in fields.  A step keeps what was stored before, but
for the value that it stores itself, and only adds frames and objects.
-/

set_option autoImplicit false
set_option relaxedAutoImplicit false

namespace LoxLang

open Std (TreeMap)

/-! The methods of classes. -/

def Class.Methods (P : Closure → Prop) (k : Class) : Prop := ∀ b ∈ k.chain, ∀ f ∈ b.methods, P f

theorem Class.Methods.method {P : Closure → Prop} {k : Class} (h : k.Methods P) {name : String}
    {f : Closure} (found : k.method? name = some f) : P f ∧ f.name = name := by
  obtain ⟨b, body, inBody⟩ := List.exists_of_findSome?_eq_some found
  have member := List.mem_reverse.mp (List.mem_of_find?_eq_some inBody)
  have named := List.find?_some (p := fun g : Closure => g.name == name) inBody
  exact ⟨h b body f member, beq_iff_eq.mp named⟩

theorem Class.Methods.below {P : Closure → Prop} {superclass : Option Class}
    (h : ∀ k ∈ superclass, k.Methods P) {id : ClassId} {name : Token}
    {methods : List FunctionDecl} {scope : Scope}
    (own : ∀ d ∈ methods, P ⟨d, scope, d.name.lexeme = initializerName⟩) :
    (Class.below (.of id name methods scope) superclass).Methods P := by
  have here : ∀ f ∈ (ClassBody.of id name methods scope).methods, P f := by
    intro f member
    obtain ⟨decl, there, rfl⟩ := List.mem_map.mp member
    exact own decl there
  intro b body f member
  cases superclass with
  | none =>
    obtain rfl := List.mem_singleton.mp body
    exact here f member
  | some k =>
    rcases List.mem_cons.mp body with rfl | body
    · exact here f member
    · exact h k rfl b body f member

namespace Store

/-- An object has been made. -/
def Has (m : Store) (o : Object) : Prop := o.id < m.objects.size

/-- A value is kept in a variable of some frame or in a field of some object. -/
def Keeps (m : Store) (v : Value) : Prop :=
  (∃ f x, m.local? f x = some v) ∨ ∃ o x, m.field? o x = some v

/-- Frames and objects are added to what is stored, and none is taken away. -/
structure Grows (m m' : Store) : Prop where
  frames : m.frames.size ≤ m'.frames.size
  objects : m.objects.size ≤ m'.objects.size

variable {m m' m'' : Store}

theorem Grows.refl (m : Store) : m.Grows m := ⟨Nat.le_refl _, Nat.le_refl _⟩

theorem Grows.trans (h : m.Grows m') (h' : m'.Grows m'') : m.Grows m'' :=
  ⟨Nat.le_trans h.frames h'.frames, Nat.le_trans h.objects h'.objects⟩

theorem Grows.has (h : m.Grows m') {o : Object} (made : m.Has o) : m'.Has o :=
  Nat.lt_of_lt_of_le made h.objects

theorem grows_newScope (m : Store) (b : Bindings) (s : Option Scope) :
    m.Grows (m.newScope b s).2 :=
  ⟨Nat.le_of_lt (size_newScope m b s ▸ Nat.lt_succ_self _), Nat.le_refl _⟩

theorem grows_setLocal (m : Store) (f : FrameId) (x : String) (v : Value) :
    m.Grows (m.setLocal f x v) :=
  ⟨Nat.le_of_eq (Array.size_modify ..).symm, Nat.le_refl _⟩

theorem grows_setField (m : Store) (o : Object) (x : String) (v : Value) :
    m.Grows (m.setField o x v) :=
  ⟨Nat.le_refl _, Nat.le_of_eq (Array.size_modify ..).symm⟩

theorem grows_newObject (m : Store) (k : Class) : m.Grows (m.newObject k).2 :=
  ⟨Nat.le_refl _, Nat.le_of_lt (size_newObject m k ▸ Nat.lt_succ_self _)⟩

/-! What is kept behind a step was kept before, but for what the step stores. -/

theorem keeps_newScope {b : Bindings} {s : Option Scope} {v : Value}
    (h : (m.newScope b s).2.Keeps v) : m.Keeps v ∨ ∃ x : String, b[x]? = some v := by
  rcases h with ⟨f, x, held⟩ | field
  · rw [local?_newScope] at held
    split at held
    · exact .inr ⟨x, held⟩
    · exact .inl (.inl ⟨f, x, held⟩)
  · exact .inl (.inr field)

theorem keeps_setLocal {f : FrameId} {x : String} {u v : Value}
    (h : (m.setLocal f x u).Keeps v) : m.Keeps v ∨ v = u := by
  rcases h with ⟨f', x', held⟩ | field
  · rw [local?_setLocal] at held
    split at held
    · exact .inr (Option.some.inj held).symm
    · exact .inl (.inl ⟨f', x', held⟩)
  · exact .inl (.inr field)

theorem keeps_setField {o : Object} {x : String} {u v : Value}
    (h : (m.setField o x u).Keeps v) : m.Keeps v ∨ v = u := by
  rcases h with held | ⟨o', x', field⟩
  · exact .inl (.inl held)
  · rw [field?, getElem?_setField] at field
    split at field
    · exact .inr (Option.some.inj field).symm
    · exact .inl (.inr ⟨o', x', field⟩)

theorem keeps_newObject {k : Class} {v : Value} (h : (m.newObject k).2.Keeps v) : m.Keeps v := by
  rcases h with held | ⟨o, x, field⟩
  · exact .inl held
  · rw [field?, getElem?_newObject] at field
    exact .inr ⟨o, x, field⟩

end Store

theorem eq_of_getElem?_insert_empty {key x : String} {u v : Value}
    (held : ((∅ : Bindings).insert key u)[x]? = some v) : v = u := by
  rw [TreeMap.getElem?_insert] at held
  split at held
  · exact (Option.some.inj held).symm
  · simp at held

/-- In the beginning nothing is kept but the native functions. -/
theorem Store.eq_of_keeps_initial {v : Value} (h : Machine.initial.store.Keeps v) :
    v = .callable (.native .clock) := by
  rcases keeps_newScope (s := none) h with (⟨f, x, held⟩ | ⟨o, x, held⟩) | ⟨x, held⟩
  · simp [Store.empty, Store.local?] at held
  · simp [Store.empty, Store.field?] at held
  · exact eq_of_getElem?_insert_empty held

theorem mem_of_getElem?_bindAll {names : List String} {args : List Value} {b : Bindings}
    {x : String} {v : Value}
    (held : ((names.zip args).foldl (fun b (name, v) => b.insert name v) b)[x]? = some v) :
    v ∈ args ∨ b[x]? = some v := by
  induction names generalizing args b with
  | nil => exact .inr (by simpa using held)
  | cons name names ih =>
    cases args with
    | nil => exact .inr (by simpa using held)
    | cons u args =>
      rcases ih held with member | before
      · exact .inl (List.mem_cons_of_mem _ member)
      · rw [TreeMap.getElem?_insert] at before
        split at before
        · exact .inl (Option.some.inj before ▸ List.mem_cons_self)
        · exact .inr before

end LoxLang
