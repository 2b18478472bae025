import LoxLang.Proofs.ExecutedPrograms
import LoxLang.Proofs.OpenedFrames
import LoxLang.Proofs.PrivateLocals
import LoxLang.Proofs.SuperScopes

/-!
Frames that keep what they are filled with.  A frame is filled once.  If nothing is declared in its
scope, and it holds values under reserved words only, nothing is ever assigned there either: an
assignment needs a name that the frame holds.  So are the frame that is made for an object when a
method is bound, and the one that is made for a superclass.
-/

set_option autoImplicit false
set_option relaxedAutoImplicit false

namespace LoxLang

namespace Event

section

variable {c : Contents} {evs : List Event} {f : FrameId} {b : Bindings}

private theorem Tell.size_le (tell : Tell c evs) (member : .filled f b ∈ evs) : c.size ≤ f := by
  induction evs generalizing c with
  | nil => cases member
  | cons ev evs ih =>
    rcases List.mem_cons.mp member with rfl | later
    · exact Nat.le_of_eq (tell.1.fresh f b rfl).symm
    · exact Nat.le_trans (size_le_next tell.1) (ih tell.2 later)

theorem Tell.filled_once {before after : List Event}
    (tell : Tell c (before ++ .filled f b :: after)) (b' : Bindings) :
    .filled f b' ∉ before ++ after := by
  intro member
  obtain ⟨_, _, behind⟩ := tell_append.mp tell
  rcases List.mem_append.mp member with early | late
  · obtain ⟨front, rest, rfl⟩ := List.append_of_mem early
    rw [List.append_assoc] at tell
    obtain ⟨_, _, again⟩ := tell_append.mp tell
    exact absurd (again.size_le (List.mem_append_right _ List.mem_cons_self)) (Nat.not_succ_le_self f)
  · exact absurd (behind.size_le late) (Nat.not_succ_le_self f)

theorem filled_unique {b' : Bindings} (tell : Tell c evs) (member : .filled f b ∈ evs)
    (member' : .filled f b' ∈ evs) : b = b' := by
  obtain ⟨before, after, rfl⟩ := List.append_of_mem member
  rcases List.mem_append.mp member' with early | late
  · exact absurd (List.mem_append_left _ early) (tell.filled_once b')
  · rcases List.mem_cons.mp late with same | late
    · exact (Event.filled.inj same).2.symm
    · exact absurd (List.mem_append_right _ late) (tell.filled_once b')

private theorem Fits.write_lt {ev : Event} (fits : ev.Fits c) {x : String} {v : Value}
    (write : ev.write? = some (f, x, v)) : f < c.size := by
  cases ev with
  | declares s u m =>
    obtain ⟨_, _, pair⟩ := Option.map_eq_some_iff.mp write
    obtain ⟨rfl, _⟩ := Prod.mk.inj pair
    exact fits.present m rfl
  | assigns D e u m =>
    cases e with
    | assign id name value =>
      obtain ⟨_, target, pair⟩ := Option.map_eq_some_iff.mp write
      obtain ⟨rfl, _⟩ := Prod.mk.inj pair
      have there := Store.lt_size_of_holds (Machine.target?_holds target)
      rwa [show m.store.frames.size = c.size from congrArg Contents.size (fits.known m rfl)] at there
    | _ => cases write
  | _ => cases write

private theorem size_next {ev : Event} (fits : ev.Fits c) (other : ¬∃ b', ev = .filled f b')
    (made : f < (ev.next c).size) : f < c.size := by
  cases ev with
  | filled frame b' =>
    have fresh : frame = c.size := fits.fresh frame b' rfl
    have apart : f ≠ frame := fun same => other ⟨b', by rw [same]⟩
    exact fresh ▸ Nat.lt_of_le_of_ne (Nat.le_of_lt_succ made) apart
  | _ =>
    unfold Event.next at made
    dsimp only at made
    split at made <;> exact made

private theorem held_filled (tell : Tell c evs) (once : ∀ b', .filled f b' ∈ evs → b' = b)
    (old : f < c.size → ∀ x : String, c.held f x = b[x]?)
    (others : ∀ c', ∀ ev ∈ evs, ev.Fits c' → (∀ x : String, c'.held f x = b[x]?) →
      ∀ x v, ev.write? ≠ some (f, x, v)) :
    f < (evs.foldl Event.next c).size → ∀ x : String, (evs.foldl Event.next c).held f x = b[x]? := by
  induction evs generalizing c with
  | nil => exact old
  | cons ev evs ih =>
    refine ih tell.2 (fun b' member => once b' (List.mem_cons_of_mem _ member)) ?_
      fun c' ev' member => others c' ev' (List.mem_cons_of_mem _ member)
    have fits := tell.1
    intro made x
    by_cases filled : ∃ b', ev = .filled f b'
    · obtain ⟨b', rfl⟩ := filled
      rw [once b' List.mem_cons_self]
      exact if_pos rfl
    · have present : f < c.size := size_next fits filled made
      rw [held_next fits present, old present x]
      rintro u (⟨b', same, _⟩ | write)
      · exact filled ⟨b', same⟩
      · exact others c ev List.mem_cons_self fits (old present) x u write

end

structure Sealed (evs : List Event) (t : Scope) (b : Bindings) : Prop where
  entered : ∃ o : Origin, o.body = [] ∧ .opened o t ∈ evs
  filled : .filled t.frame b ∈ evs
  reserved : ∀ name : Token, name.IsName → b[name.lexeme]? = none

/-- The frame for an object is such a frame. -/
theorem Binds.sealed {evs : List Event} {decl : FunctionDecl} {r : Scope} {o : Object}
    (binds : Binds evs decl r o) : Sealed evs r (receiving o) where
  entered := ⟨.receiver decl, rfl, binds.subset List.mem_cons_self⟩
  filled := binds.subset (List.mem_cons_of_mem _ List.mem_cons_self)
  reserved name isName := by rw [getElem?_receiving, if_neg isName.ne_this]

theorem Inherits.sealed {evs : List Event} {name : Token} {superclass : Expr}
    {methods : List FunctionDecl} {t : Scope} {c : Class}
    (inherits : Inherits evs name superclass methods t c) : Sealed evs t (inheriting c) := by
  obtain ⟨_, _, _, _, _, _, _, _, _, here⟩ := inherits
  have made : entering (.superclass name methods) t (inheriting c) ⊆ evs := fun ev member =>
    here.subset (List.mem_append_left _ (List.mem_append_right _ member))
  exact {
    entered := ⟨.superclass name methods, rfl, made List.mem_cons_self⟩
    filled := made (List.mem_cons_of_mem _ List.mem_cons_self)
    reserved := fun name isName => by rw [getElem?_inheriting, if_neg isName.ne_super] }

end Event

namespace Session

theorem executed_placed {s : Session} {rs : List Request} {program : List Stmt}
    (member : program ∈ s.executed rs) : ∀ n ∈ Walk.program program, n.Placed :=
  Walk.program_placed (executed_accepted member).1 (executed_accepted member).2

variable {history : List Request} {t : Scope} {b : Bindings}

private theorem sealed_unwritten (kept : Event.Sealed (initial.eventsAll history) t b) {ev : Event}
    (event : ev ∈ initial.eventsAll history) {c : Contents} (fits : ev.Fits c)
    (held : ∀ x : String, c.held t.frame x = b[x]?) (x : String) (v : Value) :
    ev.write? ≠ some (t.frame, x, v) := by
  intro write
  obtain ⟨o, nothing, entered⟩ := kept.entered
  obtain ⟨V, ⟨_, opened, sound⟩, invariant⟩ := Scoped.initial.performAll history
  have known : V.opened o t := (opened o t).mpr (.inr entered)
  obtain ⟨_, local_⟩ := sound _ entered
  obtain ⟨_, told⟩ := sound ev event
  cases told.ownWrite invariant.store.once (fun e Γ => met_executed) known local_
    (.inr write) with
  | given _ _ => cases write
  | declared _ declares _ _ _ _ =>
    rw [nothing] at declares
    cases declares
  | @assigned D e _ m d bound _ =>
    obtain ⟨program, executed, Γ, _, _, id, name, value, rfl, same, met, _⟩ := bound
    have isName : name.IsName := (executed_placed executed _ met).1.1
    obtain ⟨f, target, pair⟩ := Option.map_eq_some_iff.mp write
    obtain ⟨rfl, _⟩ := Prod.mk.inj pair
    have present : c.held t.frame name.lexeme ≠ none := by
      have holds := Machine.target?_holds target
      rw [← fits.known m rfl]
      intro absent
      rw [Store.holds, show m.store.local? t.frame name.lexeme = none from absent] at holds
      cases holds
    rw [held] at present
    exact present (kept.reserved name isName)

theorem sealed_held (kept : Event.Sealed (initial.eventsAll history) t b)
    {before after : List Event} (split : initial.eventsAll history = before ++ after)
    (made : t.frame < (before.foldl Event.next initial.contents).size) (x : String) :
    (before.foldl Event.next initial.contents).held t.frame x = b[x]? := by
  have tell := tell_eventsAll history
  obtain ⟨o, _, entered⟩ := kept.entered
  have early {ev : Event} (member : ev ∈ before) : ev ∈ initial.eventsAll history := by
    rw [split]
    exact List.mem_append_left _ member
  refine Event.held_filled (b := b) (Event.tell_append.mp (split ▸ tell)).1 ?_ ?_ ?_ made x
  · intro b' member
    exact (Event.filled_unique tell kept.filled (early member)).symm
  · intro old
    have first : t.frame = Scope.globals.frame := Nat.lt_one_iff.mp old
    obtain ⟨V, ⟨_, _, sound⟩, _⟩ := Scoped.initial.performAll history
    obtain ⟨_, local_⟩ := sound _ entered
    exact absurd first local_
  · intro c ev member fits held
    exact sealed_unwritten kept (early member) fits held

theorem sealed_local? (kept : Event.Sealed (initial.eventsAll history) t b) {ev : Event}
    (event : ev ∈ initial.eventsAll history) {m : Machine} (state : ev.machine? = some m)
    (there : t.frame < m.store.frames.size) (x : String) : m.store.local? t.frame x = b[x]? := by
  have tell := tell_eventsAll history
  obtain ⟨before, after, split⟩ := List.append_of_mem event
  rw [split] at tell
  have contents := (Event.tell_append.mp tell).2.1.known m state
  rw [← sealed_held kept split (contents ▸ there) x]
  exact congrFun (congrFun (congrArg Contents.held contents) t.frame) x

theorem sealed_kept (kept : Event.Sealed (initial.eventsAll history) t b) (x : String) :
    (initial.performAll history).contents.held t.frame x = b[x]? := by
  obtain ⟨before, after, split⟩ := List.append_of_mem kept.filled
  have made : t.frame < ((initial.eventsAll history).foldl Event.next initial.contents).size := by
    have tell := tell_eventsAll history
    rw [split] at tell ⊢
    rw [List.foldl_append, List.foldl_cons]
    exact Event.size_le_foldl (Event.tell_append.mp tell).2.2
  rw [contents_performAll, sealed_held kept (List.append_nil _).symm made x]

theorem sealed_written_once (kept : Event.Sealed (initial.eventsAll history) t b) :
    ∃ before after, initial.eventsAll history = before ++ .filled t.frame b :: after ∧
      ∀ ev ∈ before ++ after, ∀ x v, ¬ev.Writes t.frame x v := by
  have tell := tell_eventsAll history
  obtain ⟨before, after, split⟩ := List.append_of_mem kept.filled
  refine ⟨before, after, split, ?_⟩
  rintro ev member x v (⟨b', rfl, _⟩ | write)
  · rw [split] at tell
    exact tell.filled_once b' member
  · have event : ev ∈ initial.eventsAll history := by
      rw [split]
      exact (List.mem_append.mp member).elim (List.mem_append_left _)
        fun late => List.mem_append_right _ (List.mem_cons_of_mem _ late)
    obtain ⟨front, rest, split'⟩ := List.append_of_mem event
    rw [split'] at tell
    have fits := (Event.tell_append.mp tell).2.1
    exact sealed_unwritten kept event fits (sealed_held kept split' (fits.write_lt write)) x v write

end Session

end LoxLang
