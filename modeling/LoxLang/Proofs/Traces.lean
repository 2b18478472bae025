import LoxLang.Proofs.DeclaredNames
import LoxLang.Proofs.Events

/-!
What the events of an execution tell of the variables.  The contents of the frames at any point
follow from the events before it: frames that are made hold what they are filled with, and after
that only declarations and assignments give values to names.  An execution leaves no new names in
the frames that were there before, but for the names that its statement declares in the present one,
and declares nothing anywhere else.
-/

set_option autoImplicit false
set_option relaxedAutoImplicit false

namespace LoxLang

open Std (TreeMap)

/-- The values of the names in all frames, and the count of the frames. -/
@[ext]
structure Contents where
  held : FrameId → String → Option Value
  size : Nat

def Store.contents (m : Store) : Contents := ⟨m.local?, m.frames.size⟩

/-- The frame that is found holds the name. -/
theorem Machine.target?_holds {m : Machine} {D : Distances} {id : ExprId} {name : Token}
    {f : FrameId} (h : m.target? D id name = some f) : m.store.holds f name.lexeme := by
  unfold target? at h
  split at h
  · exact (Option.filter_eq_some_iff.mp h).2
  · exact List.find?_some (p := (m.store.holds · name.lexeme)) h

theorem Store.lt_size_of_holds {m : Store} {f : FrameId} {name : String} (h : m.holds f name) :
    f < m.frames.size := by
  rcases Nat.lt_or_ge f m.frames.size with made | outside
  · exact made
  · simp [holds, local?, Array.getElem?_eq_none outside] at h

private theorem Store.contents_congr {m m' : Store} (h : m'.frames = m.frames) :
    m'.contents = m.contents := by
  unfold contents local?
  rw [h]

private theorem Store.holds_congr {m m' : Store} (h : m'.frames = m.frames) : m'.holds = m.holds :=
  by
  unfold holds local?
  rw [h]

private theorem Store.contents_setLocal {m : Store} {frame : FrameId} (made : frame < m.frames.size)
    (name : String) (v : Value) : (m.setLocal frame name v).contents =
      ⟨fun f x => if frame = f ∧ name = x then some v else m.local? f x, m.frames.size⟩ := by
  refine Contents.ext (funext fun f => funext fun x => ?_) (Array.size_modify ..)
  simp only [contents, local?_setLocal, made, and_true]

private theorem Store.contents_newScope (m : Store) (bindings : Bindings)
    (enclosing : Option Scope) :
    (m.newScope bindings enclosing).2.contents =
      ⟨fun f x => if f = m.frames.size then bindings[x]? else m.local? f x, m.frames.size + 1⟩ := by
  refine Contents.ext (funext fun f => funext fun x => ?_) (Array.size_push _)
  simp only [contents, local?_newScope]

namespace Event

def write? : Event → Option (FrameId × String × Value)
  | declares s v m => s.declares?.map fun name => (m.scope.frame, name.lexeme, v)
  | assigns D (.assign id name _) v m => (m.target? D id name).map fun f => (f, name.lexeme, v)
  | _ => none

/-- What the frames hold behind an event. -/
def next (c : Contents) : Event → Contents
  | filled frame bindings =>
    ⟨fun f x => if f = frame then bindings[x]? else c.held f x, frame + 1⟩
  | ev =>
    match ev.write? with
    | some (frame, name, v) => ⟨fun f x => if frame = f ∧ name = x then some v else c.held f x, c.size⟩
    | none => c

/-- An event that can come about while the frames hold what they hold. -/
structure Fits (c : Contents) (ev : Event) : Prop where
  fresh : ∀ frame bindings, ev = .filled frame bindings → frame = c.size
  known : ∀ m ∈ ev.machine?, m.store.contents = c
  present : ∀ m ∈ ev.machine?, m.scope.frame < c.size

/-- Events that can come about one after the other. -/
def Tell : Contents → List Event → Prop
  | _, [] => True
  | c, ev :: evs => ev.Fits c ∧ Tell (ev.next c) evs

theorem tell_append {c : Contents} {evs evs' : List Event} :
    Tell c (evs ++ evs') ↔ Tell c evs ∧ Tell (evs.foldl next c) evs' := by
  induction evs generalizing c with
  | nil => exact (and_iff_right trivial).symm
  | cons ev evs ih => rw [List.cons_append, Tell, Tell, ih, and_assoc, List.foldl_cons]

theorem Tell.single {m : Machine} {ev : Event} (present : m.scope.frame < m.store.frames.size)
    (state : ev.machine? = some m) (old : ∀ frame bindings, ev ≠ .filled frame bindings) :
    Tell m.store.contents [ev] := by
  refine ⟨⟨fun frame bindings same => absurd same (old frame bindings), ?_, ?_⟩, trivial⟩ <;>
  · intro m' same
    obtain rfl := Option.mem_some_iff.mp (state ▸ same)
    first | rfl | exact present

theorem Tell.silent {c : Contents} {ev : Event} (state : ev.machine? = none)
    (old : ∀ frame bindings, ev ≠ .filled frame bindings) : Tell c [ev] := by
  refine ⟨⟨fun frame bindings same => absurd same (old frame bindings), ?_, ?_⟩, trivial⟩ <;>
  · rw [state]
    exact nofun

theorem size_le_next {c : Contents} {ev : Event} (h : ev.Fits c) : c.size ≤ (ev.next c).size := by
  unfold next
  split
  · rename_i frame bindings
    exact Nat.le_succ_of_le (Nat.le_of_eq (h.fresh frame bindings rfl).symm)
  · split <;> exact Nat.le_refl _

theorem size_le_foldl {c : Contents} {evs : List Event} (h : Tell c evs) :
    c.size ≤ (evs.foldl next c).size := by
  induction evs generalizing c with
  | nil => exact Nat.le_refl _
  | cons ev evs ih => exact Nat.le_trans (size_le_next h.1) (ih h.2)

def declaredIn? (f : FrameId) : Event → Option Stmt
  | declares s _ m => if m.scope.frame = f then some s else none
  | _ => none

def declaredIn (f : FrameId) (evs : List Event) : List Stmt := evs.filterMap (declaredIn? f)

theorem declaredIn_append (f : FrameId) (evs evs' : List Event) :
    declaredIn f (evs ++ evs') = declaredIn f evs ++ declaredIn f evs' :=
  List.filterMap_append

end Event

/-- What an execution that passes some events has done to the variables.  It has declared nothing
but some names, and those in the present frame, as far as the frames go that were there before. -/
structure Traced (m : Machine) (own : List String) (events : List Event) (m' : Machine) : Prop where
  scope : m'.scope = m.scope
  told : m'.store.contents = events.foldl Event.next m.store.contents
  tell : Event.Tell m.store.contents events
  names : ∀ f < m.store.frames.size, ∀ x, m'.store.holds f x →
    m.store.holds f x ∨ (f = m.scope.frame ∧ x ∈ own)
  spared : ∀ f < m.store.frames.size, (f = m.scope.frame → own = []) →
    Event.declaredIn f events = []

namespace Traced

variable {m m₁ m' : Machine} {own own' : List String} {events events' : List Event}

theorem grows (h : Traced m own events m') : m.store.frames.size ≤ m'.store.frames.size := by
  have size := Event.size_le_foldl h.tell
  rw [← h.told] at size
  exact size

theorem present (h : Traced m own events m') (present : m.scope.frame < m.store.frames.size) :
    m'.scope.frame < m'.store.frames.size :=
  h.scope ▸ Nat.lt_of_lt_of_le present h.grows

theorem nowhere (h : Traced m [] events m') (present : m.scope.frame < m.store.frames.size) :
    Event.declaredIn m.scope.frame events = [] :=
  h.spared _ present fun _ => rfl

theorem quiet (frames : m'.store.frames = m.store.frames) (scope : m'.scope = m.scope) :
    Traced m own [] m' where
  scope := scope
  told := Store.contents_congr frames
  tell := trivial
  names f _ x held := by
    rw [Store.holds_congr frames] at held
    exact .inl held
  spared _ _ _ := rfl

theorem mono (h : Traced m own events m') (more : own ⊆ own') : Traced m own' events m' :=
  { h with
    names := fun f made x held => (h.names f made x held).imp_right (.imp_right (more ·))
    spared := fun f made other => h.spared f made fun same => List.subset_nil.mp (other same ▸ more) }

theorem trans (h : Traced m own events m₁) (h' : Traced m₁ own events' m') :
    Traced m own (events ++ events') m' where
  scope := h'.scope.trans h.scope
  told := by rw [h'.told, h.told, List.foldl_append]
  tell := Event.tell_append.mpr ⟨h.tell, h.told ▸ h'.tell⟩
  names f made x held := by
    rcases h'.names f (Nat.lt_of_lt_of_le made h.grows) x held with held | own
    · exact h.names f made x held
    · exact .inr (h.scope ▸ own)
  spared f made other := by
    have later := h'.spared f (Nat.lt_of_lt_of_le made h.grows) fun same => other (h.scope ▸ same)
    rw [Event.declaredIn_append, h.spared f made other, later, List.append_nil]

theorem passing {ev : Event} (frames : m'.store.frames = m.store.frames)
    (scope : m'.scope = m.scope) (next : ev.next m.store.contents = m.store.contents)
    (tell : Event.Tell m.store.contents [ev]) (other : ∀ f, Event.declaredIn? f ev = none) :
    Traced m own [ev] m' where
  scope := scope
  told := (Store.contents_congr frames).trans next.symm
  tell := tell
  names f _ x held := by
    rw [Store.holds_congr frames] at held
    exact .inl held
  spared f _ _ := List.filterMap_cons_none (other f)

theorem wrote {ev : Event} {frame : FrameId} {name : String} {v : Value}
    (present : m.scope.frame < m.store.frames.size) (state : ev.machine? = some m)
    (write : ev.write? = some (frame, name, v)) (made : frame < m.store.frames.size)
    (known : m.store.holds frame name ∨ (frame = m.scope.frame ∧ name ∈ own))
    (spared : ∀ f, (f = m.scope.frame → own = []) → Event.declaredIn f [ev] = []) :
    Traced m own [ev] { m with store := m.store.setLocal frame name v } where
  scope := rfl
  told := by
    rw [List.foldl_cons, List.foldl_nil, Store.contents_setLocal made]
    cases ev <;> simp [Event.next, write, Store.contents] ; cases write
  tell := .single present state (by rintro _ _ rfl; cases state)
  names f _ x held := by
    simp only [Store.holds, Store.local?_setLocal] at held
    split at held
    · rename_i here
      exact here.1 ▸ here.2.1 ▸ known
    · exact .inl held
  spared f _ := spared f

theorem opened (origin : Origin) (bindings : Bindings) (s : Scope) :
    Traced m own (Event.entering origin (m.store.newScope bindings (some s)).1 bindings)
      { m with store := (m.store.newScope bindings (some s)).2 } where
  scope := rfl
  told := Store.contents_newScope m.store bindings (some s)
  tell := ⟨⟨nofun, nofun, nofun⟩, ⟨fun _ _ same => (Event.filled.inj same).1.symm, nofun, nofun⟩,
    trivial⟩
  names f made x held := by
    rw [Store.holds, Store.local?_newScope, if_neg (Nat.ne_of_lt made)] at held
    exact .inl held
  spared _ _ _ := rfl

theorem within (h : Traced m own events m₁) {t : Scope}
    (h' : Traced { m₁ with scope := t } own' events' m') (new : m.store.frames.size ≤ t.frame) :
    Traced m own (events ++ events') { m' with scope := m.scope } where
  scope := rfl
  told := by
    refine h'.told.trans ?_
    rw [List.foldl_append, ← h.told]
  tell := Event.tell_append.mpr ⟨h.tell, h.told ▸ h'.tell⟩
  names f made x held := by
    rcases h'.names f (Nat.lt_of_lt_of_le made h.grows) x held with held | ⟨rfl, _⟩
    · exact h.names f made x held
    · exact absurd made (Nat.not_lt.mpr new)
  spared f made other := by
    have inside := h'.spared f (Nat.lt_of_lt_of_le made h.grows) fun same =>
      absurd made (Nat.not_lt.mpr (same ▸ new))
    rw [Event.declaredIn_append, h.spared f made other, inside, List.append_nil]

end Traced

end LoxLang
