import LoxLang.Proofs.SessionInvariants

/-!
The fields of objects.  Some events are accesses to the objects: a property of an object is taken, or
a field is set.  What the fields hold at any point follows from the accesses before it, since setting
a field is the only thing that changes one, and it changes no other.
-/

set_option autoImplicit false
set_option relaxedAutoImplicit false

namespace LoxLang

open EvalM Event

/-- Something that an execution does with an object. -/
inductive Access where
  /-- A property of an object is about to be taken. -/
  | gets (o : Object) (name : Token) (m : Machine)
  /-- A field of an object gets a value. -/
  | sets (o : Object) (name : String) (v : Value)

abbrev Fields := ObjectId → String → Option Value

def Store.fields (m : Store) : Fields := fun id x => m.objects[id]?.bind (·[x]?)

namespace Access

def of? : Event → Option Access
  | .takes (.object o) name m => some (.gets o name m)
  | .sets o name v _ => some (.sets o name.lexeme v)
  | _ => none

def ofEvents (evs : List Event) : List Access := evs.filterMap of?

private theorem ofEvents_append (evs evs' : List Event) :
    ofEvents (evs ++ evs') = ofEvents evs ++ ofEvents evs' :=
  List.filterMap_append

/-- The accesses of evaluating an expression. -/
def ofExpr (w : Surroundings) (bound : Nat) (e : Expr) (m : Machine) : List Access :=
  ofEvents (Event.ofExpr w bound e m)

/-- To take a property of an object is one access, behind those of the expression for the object. -/
theorem ofExpr_get {w : Surroundings} {bound : Nat} {object : Expr} {m m' : Machine} {o : Object}
    (value : (evalExpr w bound object).outcome m = (.ok (.object o), m')) (name : Token) :
    ofExpr w (bound + 1) (.get object name) m = ofExpr w bound object m ++ [.gets o name m'] := by
  have split : Event.ofExpr w (bound + 1) (.get object name) m =
      .evaluated w.distances (.get object name) m :: (Event.ofExpr w bound object m ++
        (.takes (.object o) name m' :: ofProperty (.object o) name m')) := by
    simp only [Event.ofExpr, Event.behind, value]
  have quiet : ofEvents (ofProperty (.object o) name m') = [] := by
    unfold ofProperty
    dsimp only
    split <;> rfl
  calc ofExpr w (bound + 1) (.get object name) m
    _ = ofEvents (Event.ofExpr w bound object m ++
        (.takes (.object o) name m' :: ofProperty (.object o) name m')) := by rw [ofExpr, split]; rfl
    _ = ofExpr w bound object m ++ (.gets o name m' :: ofEvents (ofProperty (.object o) name m')) :=
      ofEvents_append ..
    _ = ofExpr w bound object m ++ [.gets o name m'] := by rw [quiet]

end Access

/-- The accesses of a sequence of operations. -/
def Session.accessesAll (s : Session) (rs : List Request) : List Access :=
  Access.ofEvents (s.eventsAll rs)

/-! What accesses tell of the fields. -/

namespace Access

def sets? (id : ObjectId) (x : String) : Access → Option Value
  | sets o name v => if o.id = id ∧ name = x then some v else none
  | gets _ _ _ => none

def lastSet? (accs : List Access) (id : ObjectId) (x : String) : Option Value :=
  accs.reverse.findSome? (sets? id x)

/-- Some accesses last gave a value to a field: one of them did, and none behind it. -/
def LastSets (accs : List Access) (id : ObjectId) (x : String) (v : Value) : Prop :=
  ∃ before o after, accs = before ++ .sets o x v :: after ∧ o.id = id ∧
    ∀ a ∈ after, a.sets? id x = none

/-- No access gave a value to a field. -/
def Unset (accs : List Access) (id : ObjectId) (x : String) : Prop :=
  ∀ a ∈ accs, a.sets? id x = none

private theorem sets?_eq_some_iff {a : Access} {id : ObjectId} {x : String} {v : Value} :
    a.sets? id x = some v ↔ ∃ o, a = .sets o x v ∧ o.id = id := by
  cases a with
  | gets o name m => simp [sets?]
  | sets o name u =>
    rw [sets?, Option.ite_none_right_eq_some]
    constructor
    · rintro ⟨⟨same, rfl⟩, given⟩
      exact ⟨o, Option.some.inj given ▸ rfl, same⟩
    · rintro ⟨o', same, rfl⟩
      obtain ⟨rfl, rfl, rfl⟩ := Access.sets.inj same
      exact ⟨⟨rfl, rfl⟩, rfl⟩

theorem lastSet?_eq_some_iff {accs : List Access} {id : ObjectId} {x : String} {v : Value} :
    lastSet? accs id x = some v ↔ LastSets accs id x v := by
  rw [lastSet?, List.findSome?_eq_some_iff]
  constructor
  · rintro ⟨front, a, rest, same, given, others⟩
    obtain ⟨o, rfl, made⟩ := sets?_eq_some_iff.mp given
    refine ⟨rest.reverse, o, front.reverse, by simpa using congrArg List.reverse same, made, ?_⟩
    exact fun a member => others a (List.mem_reverse.mp member)
  · rintro ⟨before, o, after, rfl, made, others⟩
    have given : (Access.sets o x v).sets? id x = some v :=
      sets?_eq_some_iff.mpr ⟨o, rfl, made⟩
    refine ⟨after.reverse, .sets o x v, before.reverse, by simp, given, ?_⟩
    exact fun a member => others a (List.mem_reverse.mp member)

theorem lastSet?_eq_none_iff {accs : List Access} {id : ObjectId} {x : String} :
    lastSet? accs id x = none ↔ Unset accs id x := by
  simp [lastSet?, Unset]

def next (c : Fields) (a : Access) : Fields := fun id x => (a.sets? id x).or (c id x)

private theorem foldl_next (accs : List Access) (c : Fields) (id : ObjectId) (x : String) :
    accs.foldl next c id x = (lastSet? accs id x).or (c id x) := by
  induction accs generalizing c with
  | nil => rfl
  | cons a accs ih =>
    rw [List.foldl_cons, ih, next, ← Option.or_assoc, lastSet?, lastSet?, List.reverse_cons,
      List.findSome?_append, List.findSome?_singleton]

def Tell : Fields → List Access → Prop
  | _, [] => True
  | c, a :: accs => (∀ o name m, a = .gets o name m → m.store.fields = c) ∧ Tell (a.next c) accs

private theorem tell_append {c : Fields} {accs accs' : List Access} :
    Tell c (accs ++ accs') ↔ Tell c accs ∧ Tell (accs.foldl next c) accs' := by
  induction accs generalizing c with
  | nil => exact (and_iff_right trivial).symm
  | cons a accs ih => rw [List.cons_append, Tell, Tell, ih, and_assoc, List.foldl_cons]

end Access

namespace Store

private theorem fields_newObject (m : Store) (k : Class) : (m.newObject k).2.fields = m.fields := by
  funext id x
  exact m.getElem?_newObject k id x

private theorem fields_setField {m : Store} {o : Object} (made : m.Has o) (name : String)
    (v : Value) :
    (m.setField o name v).fields = Access.next m.fields (.sets o name v) := by
  funext id x
  rw [fields, getElem?_setField, Access.next, Access.sets?]
  by_cases here : o.id = id ∧ name = x
  · have made : id < m.objects.size := here.1 ▸ made
    simp [here, made]
  · rw [if_neg fun h => here ⟨h.1, h.2.1⟩, if_neg here]
    rfl

end Store

structure Accessed (m : Store) (accs : List Access) (m' : Store) : Prop where
  told : m'.fields = accs.foldl Access.next m.fields
  tell : Access.Tell m.fields accs

namespace Accessed

variable {m m₁ m' : Store} {accs accs' : List Access}

private theorem quiet (fields : m'.fields = m.fields) : Accessed m [] m' := ⟨fields, trivial⟩

private theorem trans (h : Accessed m accs m₁) (h' : Accessed m₁ accs' m') :
    Accessed m (accs ++ accs') m' where
  told := by rw [h'.told, h.told, List.foldl_append]
  tell := Access.tell_append.mpr ⟨h.tell, h.told ▸ h'.tell⟩

private theorem setField {o : Object} (made : m.Has o) (name : String) (v : Value) :
    Accessed m [.sets o name v] (m.setField o name v) :=
  ⟨Store.fields_setField made name v, nofun, trivial⟩

theorem field? (h : Accessed m accs m') (o : Object) (x : String) :
    m'.field? o x = (Access.lastSet? accs o.id x).or (m.fields o.id x) := by
  rw [← Access.foldl_next, ← h.told]
  rfl

theorem before {before after : List Access} {o : Object} {name : Token} {present : Machine}
    (h : Accessed m (before ++ .gets o name present :: after) m') :
    Accessed m before present.store := by
  obtain ⟨tell, here, _⟩ := Access.tell_append.mp h.tell
  exact ⟨here o name present rfl, tell⟩

end Accessed

/-! Executions. -/

def Invariant.accessing : Invariant where
  tree := .any
  value m v := ∀ o, v = .object o → m.Has o
  event _ := True
  path _ m evs m' := Accessed m.store (Access.ofEvents evs) m'.store ∧ m.store.Grows m'.store
  failure _ := True

private theorem Invariant.accessing_kept (w : Surroundings) : accessing.Kept w where
  left _ _ _ := trivial
  right _ _ _ := trivial
  still {_ m _} store _ _ _ := show Accessed m.store [] _ ∧ m.store.Grows _ from
    store ▸ ⟨.quiet rfl, .refl _⟩
  trans h h' := ⟨Access.ofEvents_append .. ▸ h.1.trans h'.1, h.2.trans h'.2⟩
  mono h _ := h
  within h h' _ _ := ⟨Access.ofEvents_append .. ▸ h.1.trans h'.1, h.2.trans h'.2⟩
  calls {_ m paren evs m'} _ h := by
    have same : Access.ofEvents (.begins paren { m with depth := m.depth + 1 } ::
        (evs ++ [.ends { m' with depth := m'.depth - 1 }])) = Access.ofEvents evs :=
      (Access.ofEvents_append evs _).trans (List.append_nil _)
    exact ⟨same ▸ h.1, h.2⟩
  later h given o same := h.2.has (given o same)
  constant {_ v} constant o same := by
    subst same
    cases constant
  kind _ := nofun
  closure _ := trivial
  method _ _ := trivial
  toFailures := .any fun _ => trivial
  function _ _ := nofun
  evaluated _ _ := ⟨.quiet rfl, .refl _⟩
  takes {_ m v name} _ _ := by
    cases v with
    | object o =>
      refine ⟨⟨rfl, fun o' name' m' same => ?_, trivial⟩, .refl _⟩
      rw [(Access.gets.inj same).2.2]
    | _ => exact ⟨.quiet rfl, .refl _⟩
  prints _ _ := ⟨.quiet rfl, .refl _⟩
  misses _ _ _ := ⟨.quiet rfl, .refl _⟩
  assigns _ _ _ := ⟨.quiet rfl, Store.grows_setLocal ..⟩
  declares _ _ _ _ := ⟨.quiet rfl, Store.grows_setLocal ..⟩
  sets {_ m o name v} _ object _ :=
    ⟨.setField (object o rfl) name.lexeme v, m.store.grows_setField ..⟩
  enters {_ m _ b s} _ _ _ _ := ⟨.quiet rfl, m.store.grows_newScope b (some s)⟩
  newObject {_ m k} _ _ := by
    refine ⟨⟨.quiet (m.store.fields_newObject k), m.store.grows_newObject k⟩, ?_⟩
    rintro o same
    obtain rfl := Value.object.inj same
    rw [Store.Has, Store.size_newObject]
    exact Nat.lt_succ_self _
  binds {_ m f o} _ _ _ _ _ :=
    ⟨⟨.quiet rfl, m.store.grows_newScope (receiving o) (some f.scope)⟩, nofun⟩
  inherits {_ _ _ _ m _ c _} _ _ _ _ :=
    ⟨.quiet rfl, m.store.grows_newScope (inheriting c) (some m.scope)⟩
  names {_ m _ _ _ _ _} _ _ _ _ _ := by
    have fresh : m.store.Grows m.store.newClass.2 := ⟨Nat.le_refl _, Nat.le_refl _⟩
    exact ⟨⟨.quiet rfl, fresh.trans (Store.grows_setLocal ..)⟩, nofun⟩

namespace Session

theorem accessed (history : List Request) :
    Accessed initial.interpreter.machine.store (initial.accessesAll history)
      (initial.performAll history).interpreter.machine.store := by
  have stored : Invariant.accessing.Stored initial.interpreter.machine.store := by
    intro v keeps o same
    rw [Store.eq_of_keeps_initial keeps] at same
    cases same
  have kept : Invariant.accessing.Reaches _ (initial.eventsAll history) _ :=
    performAll_kept Invariant.accessing_kept rfl stored reads_any trivial
  obtain ⟨_, path⟩ := kept.path
  exact path.1

theorem initial_fields (id : ObjectId) (x : String) :
    initial.interpreter.machine.store.fields id x = none := rfl

end Session

end LoxLang
