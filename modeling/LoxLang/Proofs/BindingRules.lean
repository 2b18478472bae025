import LoxLang.Interpreter
import LoxLang.Proofs.DeclaredNames
import LoxLang.Proofs.ResolveWalk

/-!
The rules of binding, told without scopes and without an order of visits: each rule speaks of the
places at which some construct stands in a program, and of what lies around such a place.  The
resolver finds no error in a program exactly if the program obeys all of them, whatever was
resolved before.
-/

set_option autoImplicit false
set_option relaxedAutoImplicit false

namespace LoxLang

open Std (TreeMap)

/-- What lies around a place in a program. -/
inductive Enclosure where
  | block
  /-- A function that is declared by a statement: its parameters and its body. -/
  | function (decl : FunctionDecl)
  | method (decl : FunctionDecl)
  /-- A class with its superclass clause, if any. -/
  | classBody (superclass : Option Expr)

namespace Enclosure

def isFunction : Enclosure → Bool
  | function _ | method _ => true
  | block | classBody _ => false

def isInitializer : Enclosure → Bool
  | method decl => decl.name.lexeme = initializerName
  | _ => false

def isClass : Enclosure → Bool
  | classBody _ => true
  | _ => false

def isDerived : Enclosure → Bool
  | classBody superclass => superclass.isSome
  | _ => false

end Enclosure

inductive Node where
  | expr (e : Expr)
  | stmt (s : Stmt)
  | function (decl : FunctionDecl)

def Node.read? : Node → Option Token
  | .expr e => e.variableName?
  | _ => none

/-- A construct where it stands, with what lies around it, innermost first. -/
structure Location where
  node : Node
  around : List Enclosure

mutual

def Expr.places (around : List Enclosure) : Expr → List Location
  | .literal v => [⟨.expr (.literal v), around⟩]
  | .grouping inner => ⟨.expr (.grouping inner), around⟩ :: inner.places around
  | .unary operator operand => ⟨.expr (.unary operator operand), around⟩ :: operand.places around
  | .binary operator left right =>
    ⟨.expr (.binary operator left right), around⟩ :: (left.places around ++ right.places around)
  | .logical operator left right =>
    ⟨.expr (.logical operator left right), around⟩ :: (left.places around ++ right.places around)
  | .variable id name => [⟨.expr (.variable id name), around⟩]
  | .assign id name value => ⟨.expr (.assign id name value), around⟩ :: value.places around
  | .call callee paren args =>
    ⟨.expr (.call callee paren args), around⟩ ::
      (callee.places around ++ Expr.placesAll around args)
  | .get object name => ⟨.expr (.get object name), around⟩ :: object.places around
  | .set object name value =>
    ⟨.expr (.set object name value), around⟩ :: (object.places around ++ value.places around)
  | .this id keyword => [⟨.expr (.this id keyword), around⟩]
  | .super id keyword method => [⟨.expr (.super id keyword method), around⟩]

def Expr.placesAll (around : List Enclosure) : List Expr → List Location
  | [] => []
  | e :: es => e.places around ++ Expr.placesAll around es

end

def Expr.placesOption (around : List Enclosure) : Option Expr → List Location
  | none => []
  | some e => e.places around

mutual

def Stmt.places (around : List Enclosure) : Stmt → List Location
  | .expression e => ⟨.stmt (.expression e), around⟩ :: e.places around
  | .print e => ⟨.stmt (.print e), around⟩ :: e.places around
  | .var name initializer =>
    ⟨.stmt (.var name initializer), around⟩ :: Expr.placesOption around initializer
  | .block body => ⟨.stmt (.block body), around⟩ :: Stmt.placesAll (.block :: around) body
  | .branch condition thenBranch elseBranch =>
    ⟨.stmt (.branch condition thenBranch elseBranch), around⟩ ::
      (condition.places around ++ (thenBranch.places around ++
        Stmt.placesOption around elseBranch))
  | .loop condition body =>
    ⟨.stmt (.loop condition body), around⟩ :: (condition.places around ++ body.places around)
  | .function decl => ⟨.stmt (.function decl), around⟩ :: decl.places .function around
  | .ret keyword value => ⟨.stmt (.ret keyword value), around⟩ :: Expr.placesOption around value
  | .classDecl name superclass methods =>
    ⟨.stmt (.classDecl name superclass methods), around⟩ ::
      (Expr.placesOption (.classBody superclass :: around) superclass ++
        FunctionDecl.placesAll (.classBody superclass :: around) methods)

def Stmt.placesOption (around : List Enclosure) : Option Stmt → List Location
  | none => []
  | some s => s.places around

def Stmt.placesAll (around : List Enclosure) : List Stmt → List Location
  | [] => []
  | s :: ss => s.places around ++ Stmt.placesAll around ss

def FunctionDecl.places (role : FunctionDecl → Enclosure) (around : List Enclosure) :
    FunctionDecl → List Location
  | .mk site name params body =>
    ⟨.function (.mk site name params body), around⟩ ::
      Stmt.placesAll (role (.mk site name params body) :: around) body

def FunctionDecl.placesAll (around : List Enclosure) : List FunctionDecl → List Location
  | [] => []
  | decl :: decls => decl.places .method around ++ FunctionDecl.placesAll around decls

end

/-- A program that obeys the rules of binding. -/
structure ObeysBindingRules (program : List Stmt) : Prop where
  /-- Every `return` stands in a function or method. -/
  returns : ∀ around keyword value,
    ⟨.stmt (.ret keyword value), around⟩ ∈ Stmt.placesAll [] program → ∃ c ∈ around, c.isFunction
  /-- No `return` with a value has a method that sets up an object as its innermost function. -/
  initializers : ∀ around keyword e,
    ⟨.stmt (.ret keyword (some e)), around⟩ ∈ Stmt.placesAll [] program →
    ∀ c ∈ around.find? (·.isFunction), ¬c.isInitializer
  /-- Every `this` stands in a class. -/
  this : ∀ around id keyword,
    ⟨.expr (.this id keyword), around⟩ ∈ Stmt.placesAll [] program → ∃ c ∈ around, c.isClass
  /-- The innermost class around every `super` has a superclass clause. -/
  super : ∀ around id keyword method,
    ⟨.expr (.super id keyword method), around⟩ ∈ Stmt.placesAll [] program →
    ∃ c ∈ around.find? (·.isClass), c.isDerived
  /-- No class names itself as its superclass. -/
  superclasses : ∀ around name e methods,
    ⟨.stmt (.classDecl name (some e) methods), around⟩ ∈ Stmt.placesAll [] program →
    ∀ superName ∈ e.variableName?, superName.lexeme ≠ name.lexeme
  /-- The names declared in a block are distinct. -/
  blocks : ∀ around body,
    ⟨.stmt (.block body), around⟩ ∈ Stmt.placesAll [] program → (Stmt.declaredAll body).Nodup
  /-- The parameters of a function and the names declared in its body are distinct. -/
  functions : ∀ around decl, ⟨.function decl, around⟩ ∈ Stmt.placesAll [] program →
    (decl.params.map Token.lexeme ++ Stmt.declaredAll decl.body).Nodup
  /-- The initial value of a variable that is not global does not read the variable. -/
  unread : ∀ around name e, around ≠ [] →
    ⟨.stmt (.var name (some e)), around⟩ ∈ Stmt.placesAll [] program →
    ∀ p ∈ e.places around, ∀ read ∈ p.node.read?, read.lexeme ≠ name.lexeme

def Location.Sound (p : Location) : Prop :=
  match p.node with
  | .expr (.this _ _) => ∃ c ∈ p.around, c.isClass
  | .expr (.super _ _ _) => ∃ c ∈ p.around.find? (·.isClass), c.isDerived
  | .stmt (.ret _ value) => (∃ c ∈ p.around, c.isFunction) ∧
      (value.isSome → ∀ c ∈ p.around.find? (·.isFunction), ¬c.isInitializer)
  | .stmt (.classDecl name superclass _) => ∀ e ∈ superclass,
      ∀ superName ∈ e.variableName?, superName.lexeme ≠ name.lexeme
  | .stmt (.block body) => (Stmt.declaredAll body).Nodup
  | .stmt (.var name initializer) => p.around ≠ [] → ∀ e ∈ initializer,
      ∀ q ∈ e.places p.around, ∀ read ∈ q.node.read?, read.lexeme ≠ name.lexeme
  | .function decl => (decl.params.map Token.lexeme ++ Stmt.declaredAll decl.body).Nodup
  | _ => True

private theorem sound_derived {around : List Enclosure} {name : Token} {e : Expr}
    {methods : List FunctionDecl} :
    (⟨.stmt (.classDecl name (some e) methods), around⟩ : Location).Sound ↔
      ∀ superName ∈ e.variableName?, superName.lexeme ≠ name.lexeme := by
  simp [Location.Sound]

private theorem obeysBindingRules_iff (program : List Stmt) :
    ObeysBindingRules program ↔ ∀ p ∈ Stmt.placesAll [] program, p.Sound := by
  constructor
  · rintro rules ⟨node, around⟩ member
    unfold Location.Sound
    dsimp only
    split
    · exact rules.this _ _ _ member
    · exact rules.super _ _ _ _ member
    · refine ⟨rules.returns _ _ _ member, fun hasValue => ?_⟩
      obtain ⟨e, rfl⟩ := Option.isSome_iff_exists.mp hasValue
      exact rules.initializers _ _ _ member
    · rintro e rfl
      exact rules.superclasses _ _ _ _ member
    · exact rules.blocks _ _ member
    · rintro inside e rfl
      exact rules.unread _ _ _ inside member
    · exact rules.functions _ _ member
    · trivial
  · intro sound
    exact {
      returns := fun _ _ _ member => (sound _ member).1
      initializers := fun _ _ _ member => (sound _ member).2 rfl
      this := fun _ _ _ member => sound _ member
      super := fun _ _ _ _ member => sound _ member
      superclasses := fun _ _ e _ member => sound _ member e rfl
      blocks := fun _ _ member => sound _ member
      functions := fun _ _ member => sound _ member
      unread := fun _ _ e inside member => sound _ member inside e rfl }

/-! What the resolver keeps of the enclosures around a place. -/

def functionContext (around : List Enclosure) : FunctionContext :=
  match around.find? (·.isFunction) with
  | none => .outside
  | some (.method decl) => methodContext decl.name.lexeme
  | some _ => .function

def classContext (around : List Enclosure) : ClassContext :=
  match around.find? (·.isClass) with
  | none => .outside
  | some c => if c.isDerived then .derived else .plain

def contextOf (around : List Enclosure) : BindingContext :=
  ⟨functionContext around, classContext around⟩

private theorem functionContext_eq_outside {around : List Enclosure} :
    functionContext around = .outside ↔ ¬∃ c ∈ around, c.isFunction := by
  unfold functionContext
  split
  · rename_i h
    simpa using List.find?_eq_none.mp h
  · rename_i decl h
    have member := List.mem_of_find?_eq_some h
    refine iff_of_false ?_ fun none => none ⟨_, member, rfl⟩
    unfold methodContext
    split <;> simp
  · rename_i c _ h
    exact iff_of_false (by simp)
      fun none => none ⟨c, List.mem_of_find?_eq_some h, List.find?_some h⟩

private theorem functionContext_eq_initializer {around : List Enclosure} :
    functionContext around = .initializer ↔
      ¬∀ c ∈ around.find? (·.isFunction), ¬c.isInitializer := by
  unfold functionContext
  split
  · rename_i h
    simp [h]
  · rename_i decl h
    by_cases name : decl.name.lexeme = initializerName <;>
      simp [h, methodContext, Enclosure.isInitializer, name]
  · rename_i c other h
    have no : c.isInitializer = false := by
      cases c with
      | method decl => exact absurd rfl (other decl)
      | _ => rfl
    simp [h, no]

private theorem classContext_eq_outside {around : List Enclosure} :
    classContext around = .outside ↔ ¬∃ c ∈ around, c.isClass := by
  unfold classContext
  split
  · rename_i h
    simpa using List.find?_eq_none.mp h
  · rename_i c h
    refine iff_of_false ?_ fun none => none ⟨c, List.mem_of_find?_eq_some h, List.find?_some h⟩
    split <;> simp

private theorem classContext_eq_derived {around : List Enclosure} :
    classContext around = .derived ↔ ∃ c ∈ around.find? (·.isClass), c.isDerived := by
  unfold classContext
  split
  · rename_i h
    simp [h]
  · rename_i c h
    by_cases derived : c.isDerived <;> simp [h, derived]

@[simp] theorem contextOf_block (around : List Enclosure) :
    contextOf (.block :: around) = contextOf around := rfl

namespace Walk

/-! Walks without faults. -/

def Clear (notes : List Note) : Prop := notes.filterMap Note.fault? = []

@[simp] theorem clear_nil : Clear [] := rfl

@[simp] theorem clear_met (e : Expr) (Γ : StaticStack) : Clear [.met e Γ] := rfl

@[simp] theorem not_clear_fault (e : BindingError) (notes : List Note) :
    ¬Clear (.fault e :: notes) := by
  simp [Clear, Note.fault?]

theorem clear_of_not_fault {notes : List Note} (none : ∀ e, .fault e ∉ notes) : Clear notes := by
  refine List.filterMap_eq_nil_iff.mpr fun n member => ?_
  cases n with
  | met => rfl
  | fault e => exact absurd member (none e)

private theorem clear_append {notes notes' : List Note} :
    Clear (notes ++ notes') ↔ Clear notes ∧ Clear notes' := by
  simp [Clear]

@[simp] theorem clear_append_met {notes : List Note} {e : Expr} {Γ : StaticStack} :
    Clear (notes ++ [.met e Γ]) ↔ Clear notes := by
  rw [clear_append, and_iff_left (clear_met e Γ)]

private theorem clear_if {p : Prop} [Decidable p] {e : BindingError} :
    Clear (if p then [.fault e] else []) ↔ ¬p := by
  by_cases h : p <;> simp [h]

private theorem declared_clear {Γ : StaticStack} {name : Token} :
    Clear (declared Γ name) ↔ Γ.Free [name.lexeme] := by
  rw [declared, clear_if, StaticStack.free_singleton]

private theorem read_clear {Γ : StaticStack} {name : Token} :
    Clear (read Γ name) ↔ Γ.incomplete name.lexeme = false := by
  rw [read, clear_if, Bool.not_eq_true]
  rfl

private theorem declaredAll_clear {names : List Token} {Γ : StaticStack} :
    Clear (declaredAll names Γ) ↔ Γ.Free (names.map Token.lexeme) := by
  induction names generalizing Γ with
  | nil => simp [declaredAll, StaticStack.free_nil]
  | cons name names ih =>
    rw [declaredAll, clear_append, declared_clear, ih, List.map_cons, ← List.singleton_append]
    refine (StaticStack.free_append [name.lexeme] _ ?_ fun inside => ?_).symm
    · rintro rfl
      rfl
    · refine ⟨StaticStack.introduce_ne_nil inside name, fun other => ?_⟩
      rw [StaticStack.has_introduce inside, List.mem_singleton]

variable {around : List Enclosure} {Γ : StaticStack} {notes notes' : List Note}
  {places places' : List Location}

def Passes (Γ : StaticStack) (p : Location) : Prop :=
  p.Sound ∧ ∀ name ∈ p.node.read?, Γ.incomplete name.lexeme = false

private theorem clear_both {P : Location → Prop} (h : Clear notes ↔ ∀ p ∈ places, P p)
    (h' : Clear notes' ↔ ∀ p ∈ places', P p) :
    Clear (notes ++ notes') ↔ ∀ p ∈ places ++ places', P p := by
  rw [clear_append, h, h', List.forall_mem_append]

private theorem clear_plain {node : Node} (sound : (⟨node, around⟩ : Location).Sound)
    (unnamed : node.read? = none) (h : Clear notes ↔ ∀ p ∈ places, Passes Γ p) :
    Clear notes ↔ ∀ p ∈ ⟨node, around⟩ :: places, Passes Γ p := by
  have passes : Passes Γ ⟨node, around⟩ := ⟨sound, by simp [unnamed]⟩
  rw [List.forall_mem_cons, h, and_iff_right passes]

mutual

private theorem expr_clear (around : List Enclosure) (Γ : StaticStack) : ∀ e : Expr,
    Clear (expr (classContext around) Γ e) ↔ ∀ p ∈ e.places around, Passes Γ p
  | .literal _ => clear_plain trivial rfl (by simp [expr])
  | .grouping inner => clear_plain trivial rfl (expr_clear around Γ inner)
  | .unary _ operand => clear_plain trivial rfl (expr_clear around Γ operand)
  | .binary _ left right | .logical _ left right =>
    clear_plain trivial rfl (clear_both (expr_clear around Γ left) (expr_clear around Γ right))
  | .variable id name => by
    have sound : (⟨.expr (.variable id name), around⟩ : Location).Sound := trivial
    simp [expr, Expr.places, Passes, sound, Node.read?, Expr.variableName?, read_clear]
  | .assign _ _ value => by
    rw [expr, clear_append_met]
    exact clear_plain trivial rfl (expr_clear around Γ value)
  | .call callee _ args =>
    clear_plain trivial rfl (clear_both (expr_clear around Γ callee) (exprs_clear around Γ args))
  | .get object _ => clear_plain trivial rfl (expr_clear around Γ object)
  | .set object _ value => by
    rw [expr, clear_append, and_comm, ← clear_append]
    exact clear_plain trivial rfl (clear_both (expr_clear around Γ object)
      (expr_clear around Γ value))
  | .this id keyword => by
    have known : Clear (expr (classContext around) Γ (.this id keyword)) ↔
        classContext around ≠ .outside := by
      cases classContext around <;> simp [expr]
    rw [known, ne_eq, classContext_eq_outside, Classical.not_not]
    simp [Expr.places, Passes, Location.Sound, Node.read?, Expr.variableName?]
  | .super id keyword method => by
    have known : Clear (expr (classContext around) Γ (.super id keyword method)) ↔
        classContext around = .derived := by
      cases classContext around <;> simp [expr]
    rw [known, classContext_eq_derived]
    simp [Expr.places, Passes, Location.Sound, Node.read?, Expr.variableName?]

private theorem exprs_clear (around : List Enclosure) (Γ : StaticStack) : ∀ es : List Expr,
    Clear (exprs (classContext around) Γ es) ↔ ∀ p ∈ Expr.placesAll around es, Passes Γ p
  | [] => by simp [exprs, Expr.placesAll]
  | e :: es => clear_both (expr_clear around Γ e) (exprs_clear around Γ es)

end

private theorem expr?_clear (around : List Enclosure) (Γ : StaticStack) (e : Option Expr) :
    Clear (expr? (classContext around) Γ e) ↔ ∀ p ∈ Expr.placesOption around e, Passes Γ p := by
  cases e with
  | none => simp [expr?, Expr.placesOption]
  | some e => exact expr_clear around Γ e

private theorem forall_sound_cons (node : Node) (sound : (⟨node, around⟩ : Location).Sound) :
    (∀ p ∈ ⟨node, around⟩ :: places, p.Sound) ↔ ∀ p ∈ places, p.Sound := by
  rw [List.forall_mem_cons, and_iff_right sound]

private theorem forall_passes (complete : Γ.Complete) :
    (∀ p ∈ places, Passes Γ p) ↔ ∀ p ∈ places, p.Sound :=
  forall₂_congr fun _ _ => and_iff_left fun name _ => complete name.lexeme

private theorem forall_passes_declare (complete : Γ.Complete) (inside : Γ ≠ []) {name : Token}
    (new : ¬Γ.has name.lexeme) :
    (∀ p ∈ places, Passes (Γ.declare name) p) ↔
      (∀ p ∈ places, ∀ read ∈ p.node.read?, read.lexeme ≠ name.lexeme) ∧
        ∀ p ∈ places, p.Sound := by
  simp only [Passes, StaticStack.incomplete_declare complete inside new, decide_eq_false_iff_not,
    forall_and]
  exact and_comm

structure Agrees (around : List Enclosure) (Γ : StaticStack) : Prop where
  complete : Γ.Complete
  globals : Γ = [] ↔ around = []

namespace Agrees

private theorem after (h : Agrees around Γ) (s : Stmt) : Agrees around (after Γ s) where
  complete := after_complete h.complete s
  globals := by
    refine ⟨fun none => h.globals.mp ?_, fun none => ?_⟩
    · exact Classical.byContradiction fun inside => (has_after inside s).1 none
    · rw [h.globals.mpr none, after_globals]

private theorem fresh (origin : Origin) (Γ : StaticStack) (c : Enclosure)
    (around : List Enclosure) :
    Agrees (c :: around) (⟨origin, ∅⟩ :: Γ) where
  complete := StaticStack.complete_cons_empty origin Γ
  globals := by simp

private theorem calling (decl : FunctionDecl) (Γ : StaticStack) (c : Enclosure)
    (around : List Enclosure) :
    Agrees (c :: around) (Γ.calling decl) where
  complete := (StaticStack.complete_cons_empty _ Γ).introduceAll decl.params
  globals := by
    refine iff_of_false ?_ (by simp)
    exact (StaticStack.has_introduceAll (by simp) decl.params).1

end Agrees

private theorem expr?_complete (complete : Γ.Complete) (e : Option Expr) :
    Clear (expr? (classContext around) Γ e) ↔ ∀ p ∈ Expr.placesOption around e, p.Sound :=
  (expr?_clear around Γ e).trans (forall_passes complete)

private theorem expr_complete (complete : Γ.Complete) (e : Expr) :
    Clear (expr (classContext around) Γ e) ↔ ∀ p ∈ e.places around, p.Sound :=
  expr?_complete complete (some e)

private theorem returned_clear {keyword : Token} {hasValue : Bool} :
    Clear (returned (functionContext around) keyword hasValue) ↔
      (∃ c ∈ around, c.isFunction) ∧
        (hasValue → ∀ c ∈ around.find? (·.isFunction), ¬c.isInitializer) := by
  rw [returned, clear_append, clear_if, clear_if, functionContext_eq_outside, Classical.not_not,
    Bool.and_eq_true, decide_eq_true_eq, functionContext_eq_initializer, not_and,
    Classical.not_not]

private theorem inherited_clear {name : Token} {superclass : Expr} :
    Clear (inherited name superclass) ↔
      ∀ superName ∈ superclass.variableName?, superName.lexeme ≠ name.lexeme := by
  unfold inherited
  cases superclass.variableName? with
  | none => simp
  | some superName => simp [clear_if]

private theorem var_clear (h : Agrees around Γ) (name : Token) (initializer : Option Expr) :
    Clear (stmt (contextOf around) Γ (.var name initializer)) ↔
      Γ.Free [name.lexeme] ∧ ∀ p ∈ (Stmt.var name initializer).places around, p.Sound := by
  rw [stmt, clear_append, declared_clear, Stmt.places, List.forall_mem_cons]
  refine and_congr_right fun free => ?_
  rw [show (contextOf around).enclosing = classContext around from rfl, expr?_clear]
  by_cases globals : Γ = []
  · subst globals
    rw [show StaticStack.declare name [] = [] from rfl, forall_passes h.complete]
    exact (and_iff_right fun inside => absurd (h.globals.mp rfl) inside).symm
  · rw [forall_passes_declare h.complete globals (StaticStack.free_singleton.mp free)]
    refine and_congr_left fun _ => ?_
    have inside : around ≠ [] := fun none => globals (h.globals.mpr none)
    cases initializer <;> simp [Location.Sound, Expr.placesOption, inside]

mutual

/-- A statement is walked without a fault if the names that it declares are free and the rules are
obeyed in it. -/
theorem stmt_clear : ∀ {around : List Enclosure} {Γ : StaticStack}, Agrees around Γ → ∀ s : Stmt,
    Clear (stmt (contextOf around) Γ s) ↔ Γ.Free s.declared ∧ ∀ p ∈ s.places around, p.Sound
  | _, Γ, h, .expression e => by
    rw [stmt, Stmt.places, forall_sound_cons (.stmt (.expression e)) trivial, Stmt.declared,
      and_iff_right (Γ.free_nil)]
    exact expr_complete h.complete e
  | _, Γ, h, .print e => by
    rw [stmt, Stmt.places, forall_sound_cons (.stmt (.print e)) trivial, Stmt.declared,
      and_iff_right (Γ.free_nil)]
    exact expr_complete h.complete e
  | _, _, h, .var name initializer => var_clear h name initializer
  | around, Γ, h, .block body => by
    rw [stmt, ← contextOf_block, stmts_clear (.fresh (.block body) Γ .block around),
      StaticStack.free_fresh, Stmt.places, List.forall_mem_cons, Stmt.declared,
      and_iff_right (Γ.free_nil)]
    rfl
  | around, Γ, h, .branch condition thenBranch elseBranch => by
    rw [stmt, clear_append, clear_append, stmt_clear h, stmt?_clear (h.after thenBranch),
      Stmt.places, forall_sound_cons (.stmt (.branch condition thenBranch elseBranch)) trivial,
      List.forall_mem_append, List.forall_mem_append, Stmt.declared, free_after,
      show (contextOf around).enclosing = classContext around from rfl, expr_complete h.complete]
    grind only
  | around, Γ, h, .loop condition body => by
    rw [stmt, clear_append, stmt_clear h, Stmt.places,
      forall_sound_cons (.stmt (.loop condition body)) trivial, List.forall_mem_append,
      Stmt.declared,
      show (contextOf around).enclosing = classContext around from rfl, expr_complete h.complete]
    exact and_left_comm
  | around, Γ, h, .function decl => by
    rw [stmt, clear_append, declared_clear, Stmt.places,
      forall_sound_cons (.stmt (.function decl)) trivial, Stmt.declared]
    exact and_congr_right fun _ => function_clear .function around (Γ.introduce decl.name) decl
  | around, Γ, h, .ret keyword value => by
    rw [stmt, clear_append, Stmt.places, List.forall_mem_cons, Stmt.declared,
      and_iff_right (Γ.free_nil)]
    exact and_congr returned_clear (expr?_complete h.complete value)
  | around, Γ, h, .classDecl name none methods => by
    have sound : (⟨.stmt (.classDecl name none methods), around⟩ : Location).Sound :=
      fun _ none => nomatch none
    rw [stmt, clear_append, declared_clear, Stmt.places, forall_sound_cons _ sound, Stmt.declared]
    exact and_congr_right fun _ => functions_clear (.classBody none :: around) _ methods
  | around, Γ, h, .classDecl name (some e) methods => by
    rw [stmt, clear_append, clear_append, clear_append, declared_clear, inherited_clear,
      Stmt.places, List.forall_mem_cons, List.forall_mem_append, Stmt.declared]
    let inside := .classBody (some e) :: around
    have clause : Clear (expr (classContext inside) (Γ.introduce name) e) ↔ _ :=
      expr_complete (h.complete.introduce name) e
    have bodies : Clear (functions (classContext inside) _ methods) ↔ _ :=
      functions_clear inside ((Γ.introduce name).inheriting name methods) methods
    rw [show classContext inside = .derived from rfl] at clause bodies
    rw [clause, bodies, and_assoc, and_assoc, sound_derived]
    rfl

private theorem stmt?_clear : ∀ {around : List Enclosure} {Γ : StaticStack}, Agrees around Γ →
    ∀ s : Option Stmt, Clear (stmt? (contextOf around) Γ s) ↔
      Γ.Free (Stmt.declaredOption s) ∧ ∀ p ∈ Stmt.placesOption around s, p.Sound
  | _, Γ, _, none => by simp [stmt?, Stmt.declaredOption, Stmt.placesOption, Γ.free_nil]
  | _, _, h, some s => stmt_clear h s

private theorem stmts_clear : ∀ {around : List Enclosure} {Γ : StaticStack}, Agrees around Γ →
    ∀ ss : List Stmt, Clear (stmts (contextOf around) Γ ss) ↔
      Γ.Free (Stmt.declaredAll ss) ∧ ∀ p ∈ Stmt.placesAll around ss, p.Sound
  | _, Γ, _, [] => by simp [stmts, Stmt.declaredAll, Stmt.placesAll, Γ.free_nil]
  | around, Γ, h, s :: ss => by
    rw [stmts, clear_append, stmt_clear h s, stmts_clear (h.after s) ss, Stmt.placesAll,
      List.forall_mem_append, Stmt.declaredAll_cons, free_after]
    exact and_and_and_comm

private theorem function_clear (role : FunctionDecl → Enclosure) (around : List Enclosure)
    (Γ : StaticStack) : ∀ decl : FunctionDecl,
    Clear (function (contextOf (role decl :: around)).enclosing
        (contextOf (role decl :: around)).function Γ decl) ↔
      ∀ p ∈ decl.places role around, p.Sound
  | .mk site name params body => by
    have inside : (⟨.call (.mk site name params body), ∅⟩ :: Γ : StaticStack) ≠ [] := by simp
    have names := StaticStack.free_append (params.map Token.lexeme) (Stmt.declaredAll body)
      (fun none => absurd none inside) fun _ => StaticStack.has_introduceAll inside params
    rw [StaticStack.free_fresh] at names
    rw [function, clear_append, declaredAll_clear,
      stmts_clear (.calling (.mk site name params body) Γ (role (.mk site name params body)) around),
      ← and_assoc, FunctionDecl.places, List.forall_mem_cons]
    exact and_congr_left fun _ => names.symm

private theorem functions_clear (around : List Enclosure) (Γ : StaticStack) :
    ∀ decls : List FunctionDecl, Clear (functions (classContext around) Γ decls) ↔
      ∀ p ∈ FunctionDecl.placesAll around decls, p.Sound
  | [] => by simp [functions, FunctionDecl.placesAll]
  | .mk site name params body :: decls => by
    rw [functions]
    exact clear_both (function_clear .method around _ (.mk site name params body))
      (functions_clear around Γ decls)

end

end Walk

/-- Nothing is wrong with a program whose places are all sound. -/
theorem Walk.program_clear (program : List Stmt) :
    Walk.Clear (Walk.program program) ↔ ∀ p ∈ Stmt.placesAll [] program, p.Sound := by
  have outside : Walk.Agrees [] [] := ⟨fun _ => rfl, iff_of_true rfl rfl⟩
  have clear := Walk.stmts_clear outside program
  rw [and_iff_right (StaticStack.free_globals _)] at clear
  exact clear

/-- The resolver accepts exactly the programs that obey the rules of binding, whatever it has
resolved before. -/
theorem resolve_accepts_iff (i : Interpreter) (program : List Stmt) :
    (i.resolve program).1 = [] ↔ ObeysBindingRules program := by
  have outside : Walk.Agrees [] [] := ⟨fun _ => rfl, iff_of_true rfl rfl⟩
  have clear := Walk.stmts_clear outside program
  rw [and_iff_right (StaticStack.free_globals _)] at clear
  rw [Interpreter.resolve, resolve_eq, obeysBindingRules_iff, ← clear]
  rfl

end LoxLang
