import LoxLang.Proofs.GlobalDeclarations
import LoxLang.Proofs.MadeValues
import LoxLang.Proofs.Receivers

/-!
Functions are equal exactly if they were made together.  Two functions are compared by their
declaration and the frame that they close over.  That tells apart whatever was made apart: a method
that is bound to an object gets a frame of its own, and no declaration is executed twice in one and
the same frame.  In a frame that is made for a block or a call the name would be there already, and
at the top level a declaration is executed once.
-/

set_option autoImplicit false
set_option relaxedAutoImplicit false

namespace LoxLang

/-! Declarations with the same number. -/

private theorem Stmt.labelsAll_append (ss ts : List Stmt) :
    Stmt.labelsAll (ss ++ ts) = Stmt.labelsAll ss ++ Stmt.labelsAll ts := by
  induction ss with
  | nil => rfl
  | cons s ss ih => rw [List.cons_append, labelsAll, labelsAll, ih, List.append_assoc]

private theorem Stmt.labelsAll_sublist {ss ts : List Stmt} (part : ss.Sublist ts) :
    (Stmt.labelsAll ss).Sublist (Stmt.labelsAll ts) := by
  induction part with
  | slnil => exact List.Sublist.refl _
  | cons s _ ih => exact ih.trans (List.sublist_append_right _ _)
  | cons_cons s _ ih => exact List.Sublist.append (List.Sublist.refl _) ih

private theorem FunctionDecl.site_mem (d : FunctionDecl) : .site d.site ∈ d.labels := by
  rw [labels_eq]
  exact List.mem_append_right _ (List.mem_singleton_self _)

private theorem Stmt.site_ne {ss : List Stmt} (distinct : (Stmt.labelsAll ss).Nodup)
    {d d' : FunctionDecl} (order : [Stmt.function d, .function d'].Sublist ss) :
    d.site ≠ d'.site := by
  intro same
  have both := distinct.sublist (labelsAll_sublist order)
  refine List.disjoint_of_nodup_append both d.site_mem (List.mem_append_left _ ?_)
  rw [same]
  exact d'.site_mem

private theorem Stmt.site_unique {ss : List Stmt} (distinct : (Stmt.labelsAll ss).Nodup)
    {d d' : FunctionDecl} (member : Stmt.function d ∈ ss) (member' : Stmt.function d' ∈ ss)
    (same : d.site = d'.site) : d = d' := by
  obtain ⟨before, after, rfl⟩ := List.append_of_mem member
  rcases List.mem_append.mp member' with early | late
  · refine absurd same.symm (site_ne distinct ?_)
    exact (List.singleton_sublist.mpr early).append (List.singleton_sublist.mpr List.mem_cons_self)
  · rcases List.mem_cons.mp late with here | late
    · exact (Stmt.function.inj here).symm
    · refine absurd same (site_ne distinct ?_)
      exact (((List.singleton_sublist.mpr late).cons_cons _)).trans (List.sublist_append_right _ _)

namespace Session

private theorem executed_numbered (s : Session) (rs : List Request) :
    Numbered s.labels (Stmt.labelsAll (s.executed rs).flatten) (s.performAll rs).labels := by
  induction rs generalizing s with
  | nil => exact .nil Labels.le_rfl
  | cons r rs ih =>
    rw [executed, List.flatten_append, Stmt.labelsAll_append]
    refine Numbered.append ?_ (ih _)
    cases taken : s.executed? r with
    | none => exact .nil (perform_labels_le s r)
    | some program =>
      obtain ⟨source, operation, read, _⟩ := executed?_eq taken
      have labels : (s.perform r).2.labels = (readProgram s.labels source).labels := by
        simp only [perform, operation]
        exact run_labels r.config s source
      rw [labels]
      simpa using readProgram_numbered read

end Session

/-! Places among the events. -/

namespace Event

private theorem getElem?_of_place {evs own : List Event} {i k : Nat} {ev : Event}
    (place : own <+: evs.drop i) (here : own[k]? = some ev) : evs[i + k]? = some ev := by
  obtain ⟨behind, same⟩ := place
  rw [← List.getElem?_drop, ← same, List.getElem?_append_left (List.getElem?_eq_some_iff.mp here).1]
  exact here

private theorem split_places {evs : List Event} {i j : Nat} {ev ev' : Event}
    (at_i : evs[i]? = some ev)
    (at_j : evs[j]? = some ev') (order : i < j) :
    ∃ before mid after, evs = before ++ ev :: (mid ++ ev' :: after) := by
  obtain ⟨there, rfl⟩ := List.getElem?_eq_some_iff.mp at_j
  have early : ev ∈ evs.take j :=
    List.mem_iff_getElem?.mpr ⟨i, (List.getElem?_take_of_lt order).trans at_i⟩
  obtain ⟨before, mid, split⟩ := List.append_of_mem early
  refine ⟨before, mid, evs.drop (j + 1), ?_⟩
  have whole := List.take_append_drop j evs
  rw [split, List.drop_eq_getElem_cons there, List.append_assoc] at whole
  exact whole.symm

private theorem filled_place {c : Contents} {evs : List Event} (tell : Tell c evs) {i j : Nat}
    {f : FrameId} {b b' : Bindings} (at_i : evs[i]? = some (.filled f b))
    (at_j : evs[j]? = some (.filled f b')) : i = j := by
  rcases Nat.lt_trichotomy i j with order | same | order
  · obtain ⟨before, mid, after, rfl⟩ := split_places at_i at_j order
    exact absurd (List.mem_append_right _ (List.mem_append_right _ List.mem_cons_self))
      (tell.filled_once b')
  · exact same
  · obtain ⟨before, mid, after, rfl⟩ := split_places at_j at_i order
    exact absurd (List.mem_append_right _ (List.mem_append_right _ List.mem_cons_self))
      (tell.filled_once b)

private theorem declared_held {c : Contents} {before mid after : List Event} {s s' : Stmt}
    {v v' : Value} {m m' : Machine}
    (tell : Tell c (before ++ .declares s v m :: (mid ++ .declares s' v' m' :: after)))
    {name : Token} (declares : s.declares? = some name) :
    m'.store.holds m.scope.frame name.lexeme := by
  obtain ⟨_, first, behind⟩ := tell_append.mp tell
  obtain ⟨passed, second, _⟩ := tell_append.mp behind
  have writes : (Event.declares s v m).Writes m.scope.frame name.lexeme v :=
    .inr (by rw [write?, declares, Option.map_some])
  have held := held_foldl_isSome (x := name.lexeme) passed (writes.made first)
    (by rw [writes.next]; rfl)
  rw [← second.known m' rfl] at held
  exact held

end Event

namespace Session

variable {history : List Request}

private theorem scoped_at (history : List Request) : ∃ V : Known,
    (∀ o t, V.opened o t ↔ .opened o t ∈ initial.eventsAll history) ∧
    (∀ o s o' s', V.opened o s → V.opened o' s' → s.frame = s'.frame → o = o' ∧ s = s') ∧
    (∀ o t, V.opened o t → t.frame ≠ Scope.globals.frame) ∧
    ∀ s v m, .declares s v m ∈ initial.eventsAll history → DeclaresItsName V s m := by
  obtain ⟨V, ⟨_, opened, sound⟩, invariant⟩ := Scoped.initial.performAll history
  have told : ∀ o t, V.opened o t ↔ .opened o t ∈ initial.eventsAll history :=
    fun o t => by simpa using opened o t
  refine ⟨V, told, invariant.store.once, fun o t known => ?_, fun s v m event => ?_⟩
  · obtain ⟨_, local_⟩ := sound _ ((told o t).mp known)
    exact local_
  · obtain ⟨_, own⟩ := sound _ event
    exact own

private theorem declared_place {i j : Nat} {d d' : FunctionDecl} {v v' : Value} {m m' : Machine}
    (at_i : (initial.eventsAll history)[i]? = some (.declares (.function d) v m))
    (at_j : (initial.eventsAll history)[j]? = some (.declares (.function d') v' m'))
    (site : d.site = d'.site) (frame : m.scope.frame = m'.scope.frame) : ¬i < j := by
  intro order
  have tell := tell_eventsAll history
  obtain ⟨before, mid, after, split⟩ := Event.split_places at_i at_j order
  have event := List.mem_of_getElem? at_i
  have event' := List.mem_of_getElem? at_j
  obtain ⟨V, opened, once, local_, declares⟩ := scoped_at history
  obtain ⟨name, names, globals | ⟨o, here, member, _⟩⟩ := declares _ _ _ event <;>
    obtain ⟨name', names', globals' | ⟨o', here', member', absent⟩⟩ := declares _ _ _ event'
  · have order : [Stmt.function d, .function d'].Sublist
        (Event.declaredIn Scope.globals.frame (initial.eventsAll history)) := by
      have first : Event.declaredIn? Scope.globals.frame (.declares (.function d) v m) =
          some (.function d) := if_pos (congrArg Scope.frame globals)
      have second : Event.declaredIn? Scope.globals.frame (.declares (.function d') v' m') =
          some (.function d') := if_pos (congrArg Scope.frame globals')
      rw [split, Event.declaredIn, List.filterMap_append, List.filterMap_cons_some first,
        List.filterMap_append, List.filterMap_cons_some second]
      refine List.Sublist.trans (List.Sublist.cons_cons _ ?_) (List.sublist_append_right _ _)
      exact (List.singleton_sublist.mpr List.mem_cons_self).trans (List.sublist_append_right _ _)
    rw [declaredIn_eventsAll (s := initial) rfl Nat.one_pos] at order
    exact Stmt.site_ne (executed_numbered initial history).nodup
      (order.trans (List.filter_sublist.trans (completedAll_sublist initial history))) site
  · exact local_ _ _ here' (frame.symm.trans (congrArg Scope.frame globals))
  · exact local_ _ _ here (frame.trans (congrArg Scope.frame globals'))
  · obtain ⟨rfl, scope⟩ := once _ _ _ _ here here' frame
    have distinct : (Stmt.labelsAll o.body).Nodup :=
      all_made .distinct reads_distinct history _ ((opened _ _).mp here)
    obtain rfl := Stmt.site_unique distinct member member' site
    obtain rfl := Option.some.inj (names.symm.trans names')
    rw [split] at tell
    exact absent (frame ▸ Event.declared_held tell names)

private theorem bound_apart {d : FunctionDecl} {t : Scope} {s : Stmt} {v : Value} {m : Machine}
    (opened : .opened (.receiver d) t ∈ initial.eventsAll history)
    (event : .declares s v m ∈ initial.eventsAll history) : t.frame ≠ m.scope.frame := by
  intro frame
  obtain ⟨V, told, once, local_, declares⟩ := scoped_at history
  have known := (told _ _).mpr opened
  obtain ⟨_, _, globals | ⟨o, here, member, _⟩⟩ := declares _ _ _ event
  · exact local_ _ _ known (frame.trans (congrArg Scope.frame globals))
  · obtain ⟨rfl, _⟩ := once _ _ _ _ known here frame
    cases member

private theorem same_iff_place {i j : Nat} {f g : Closure}
    (hf : Event.Creates (initial.eventsAll history) i f)
    (hg : Event.Creates (initial.eventsAll history) j g) : f.same g ↔ i = j := by
  rw [Closure.same, Bool.and_eq_true, beq_iff_eq, beq_iff_eq]
  cases hf with
  | declared place scope =>
    have here := Event.getElem?_of_place place (k := 0) rfl
    cases hg with
    | declared place' scope' =>
      have here' := Event.getElem?_of_place place' (k := 0) rfl
      constructor
      · rintro ⟨site, frame⟩
        rw [← scope, ← scope'] at frame
        exact Nat.le_antisymm (Nat.not_lt.mp (declared_place here' here site.symm frame.symm))
          (Nat.not_lt.mp (declared_place here here' site frame))
      · rintro rfl
        obtain ⟨_, value, _⟩ := Event.declares.inj (Option.some.inj (here.symm.trans here'))
        obtain rfl := Callable.function.inj (Value.callable.inj value)
        exact ⟨rfl, rfl⟩
    | bound place' =>
      have here' := Event.getElem?_of_place place' (k := 0) rfl
      constructor
      · rintro ⟨_, frame⟩
        rw [← scope] at frame
        exact absurd frame.symm
          (bound_apart (List.mem_of_getElem? here') (List.mem_of_getElem? here))
      · rintro rfl
        cases here.symm.trans here'
  | bound place =>
    have here := Event.getElem?_of_place place (k := 0) rfl
    cases hg with
    | declared place' scope' =>
      have here' := Event.getElem?_of_place place' (k := 0) rfl
      constructor
      · rintro ⟨_, frame⟩
        rw [← scope'] at frame
        exact absurd frame (bound_apart (List.mem_of_getElem? here) (List.mem_of_getElem? here'))
      · rintro rfl
        cases here.symm.trans here'
    | bound place' =>
      constructor
      · rintro ⟨_, frame⟩
        have filled := Event.getElem?_of_place place (k := 1) rfl
        have filled' := Event.getElem?_of_place place' (k := 1) rfl
        rw [← frame] at filled'
        exact Nat.succ.inj (Event.filled_place (tell_eventsAll history) filled filled')
      · rintro rfl
        have here' := Event.getElem?_of_place place' (k := 0) rfl
        obtain ⟨origin, scope⟩ := Event.opened.inj (Option.some.inj (here.symm.trans here'))
        rw [scope, Origin.receiver.inj origin]
        exact ⟨rfl, rfl⟩

end Session

/-- In every history, every function that a program gets hold of is made at some place among the
events.  Two functions are equal exactly if they are made at the same place.  Every execution of the
declaration of a function makes one, and what is made otherwise is a method, bound to an object by
one property access, one use of `super` or one construction. -/
theorem functions_equal_iff_created_together (history : List Request) :
    let events := Session.initial.eventsAll history
    (∀ f m, Session.Obtained history (.callable (.function f)) m →
      ∃ i, Event.Creates events i f) ∧
    (∀ i j f g, Event.Creates events i f → Event.Creates events j g →
      applyBinary .equalEqual (.callable (.function f)) (.callable (.function g)) =
        .ok (.bool (decide (i = j)))) ∧
    (∀ i decl v m, events[i]? = some (.declares (.function decl) v m) →
      ∃ f, v = .callable (.function f) ∧ f.decl = decl ∧ Event.Creates events i f) ∧
    ∀ i f, Event.Creates events i f →
      (∃ m, events[i]? = some (.declares (.function f.decl) (.callable (.function f)) m)) ∨
      ∃ o, events[i]? = some (.opened (.receiver f.decl) f.scope) ∧
        Event.Obtains events f.decl f.scope o := by
  intro events
  refine ⟨fun f m obtained => (obtained.made Session.reads_distinct).1, ?_, ?_, ?_⟩
  · intro i j f g hf hg
    have same : f.same g = decide (i = j) :=
      Bool.eq_iff_iff.mpr ((Session.same_iff_place hf hg).trans decide_eq_true_iff.symm)
    exact congrArg (fun b => Except.ok (Value.bool b)) same
  · intro i decl v m here
    obtain ⟨_, _, made⟩ :=
      Session.all_made .distinct Session.reads_distinct history _ (List.mem_of_getElem? here)
    obtain rfl := made decl rfl
    refine ⟨_, rfl, rfl, .declared ?_ rfl rfl⟩
    obtain ⟨there, same⟩ := List.getElem?_eq_some_iff.mp here
    rw [List.drop_eq_getElem_cons there, same]
    exact ⟨_, rfl⟩
  · intro i f created
    cases created with
    | declared place => exact .inl ⟨_, Event.getElem?_of_place place (k := 0) rfl⟩
    | @bound o place =>
      have binds : Event.Binds events f.decl f.scope o :=
        place.isInfix.trans (List.drop_suffix i events).isInfix
      exact .inr ⟨o, Event.getElem?_of_place place (k := 0) rfl, Session.receiver_obtained binds⟩

def Session.tellsApart (s : Session) (x y : String) : Bool :=
  match s.interpreter.machine.store.local? Scope.globals.frame x,
    s.interpreter.machine.store.local? Scope.globals.frame y with
  | some (.callable (.function f)), some (.callable (.function g)) =>
    f.decl.site == g.decl.site && !f.same g
  | _, _ => false

/-- A declaration that is executed by two calls makes two functions. -/
theorem function_of_each_call_made_apart :
    let config : Config := ⟨none, .working, fun _ => 0, 100⟩
    let history : List Request :=
      [⟨config, .run "fun make() \x7b fun inner() \x7b \x7d return inner; \x7d var a = make();"⟩,
        ⟨config, .run "var b = make();"⟩]
    ∃ f g m i j, Session.Obtained history (.callable (.function f)) m ∧
      Session.Obtained history (.callable (.function g)) m ∧ f.decl.site = g.decl.site ∧
      Event.Creates (Session.initial.eventsAll history) i f ∧
      Event.Creates (Session.initial.eventsAll history) j g ∧ i ≠ j := by
  intro config history
  have apart : (Session.initial.performAll history).tellsApart "a" "b" := by decide +kernel
  unfold Session.tellsApart at apart
  split at apart
  · rename_i f g first second
    obtain ⟨site, different⟩ := Bool.and_eq_true_iff.mp apart
    have hf : Session.Obtained history (.callable (.function f)) _ := .left (.inl ⟨_, _, first⟩)
    have hg : Session.Obtained history (.callable (.function g)) _ := .left (.inl ⟨_, _, second⟩)
    obtain ⟨made, equal, _⟩ := functions_equal_iff_created_together history
    obtain ⟨i, here⟩ := made f _ hf
    obtain ⟨j, there⟩ := made g _ hg
    refine ⟨f, g, _, i, j, hf, hg, beq_iff_eq.mp site, here, there, ?_⟩
    rintro rfl
    have same := Value.bool.inj (Except.ok.inj (equal i i f g here there))
    rw [decide_eq_true rfl] at same
    rw [show f.same g = true from same] at different
    cases different
  · cases apart

end LoxLang
