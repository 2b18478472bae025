import LoxLang.Proofs.OperatorResults

/-!
Values in a world with one more frame.  The frame lies between the global one and all others, so
every address is one higher, and a function closes over one frame more.  Nothing that a program can
see of a value tells the difference.
-/

set_option autoImplicit false
set_option relaxedAutoImplicit false

namespace LoxLang

/-- The same scope with one more frame just inside the global one: the frame that was global is an
inner one now, and a new global one lies around it. -/
def Scope.enclosed (s : Scope) : Scope := ⟨s.frame + 1, s.outer.map (· + 1) ++ [0]⟩

theorem Scope.frames_enclosed (s : Scope) : s.enclosed.frames = s.frames.map (· + 1) ++ [0] := rfl

def Closure.enclosed (c : Closure) : Closure := { c with scope := c.scope.enclosed }

def ClassBody.enclosed (b : ClassBody) : ClassBody :=
  { b with methods := b.methods.map Closure.enclosed }

def Class.enclosed (k : Class) : Class := ⟨k.own.enclosed, k.ancestors.map ClassBody.enclosed⟩

def Callable.enclosed : Callable → Callable
  | .native f => .native f
  | .function c => .function c.enclosed
  | .ofClass k => .ofClass k.enclosed

def Object.enclosed (o : Object) : Object := { o with kind := o.kind.enclosed }

def Value.enclosed : Value → Value
  | .callable c => .callable c.enclosed
  | .object o => .object o.enclosed
  | v => v

/-! Classes and their methods. -/

private theorem Class.chain_enclosed (k : Class) :
    k.enclosed.chain = k.chain.map ClassBody.enclosed := rfl

private theorem ClassBody.method?_enclosed (b : ClassBody) (name : String) :
    b.enclosed.method? name = (b.method? name).map Closure.enclosed := by
  rw [ClassBody.method?, ClassBody.enclosed, ← List.map_reverse, List.find?_map]
  rfl

theorem Class.method?_enclosed (k : Class) (name : String) :
    k.enclosed.method? name = (k.method? name).map Closure.enclosed := by
  unfold Class.method?
  rw [k.chain_enclosed, List.findSome?_map]
  induction k.chain with
  | nil => rfl
  | cons b bs ih =>
    rw [List.findSome?_cons, List.findSome?_cons, Function.comp, b.method?_enclosed]
    cases b.method? name with
    | none => exact ih
    | some c => rfl

theorem Class.below_enclosed (own : ClassBody) (superclass : Option Class) :
    (Class.below own superclass).enclosed =
      .below own.enclosed (superclass.map Class.enclosed) := by
  cases superclass <;> rfl

private theorem Class.arity_enclosed (k : Class) : k.enclosed.arity = k.arity := by
  unfold Class.arity
  rw [k.method?_enclosed]
  cases k.method? initializerName <;> rfl

theorem Callable.arity_enclosed (c : Callable) : c.enclosed.arity = c.arity := by
  cases c with
  | native f => rfl
  | function c => rfl
  | ofClass k => exact k.arity_enclosed

/-! What a program sees of a value. -/

namespace Value

theorem alike_enclosed (v : Value) : v.Alike v.enclosed := by
  cases v with
  | callable c => exact .callable c _
  | object o => exact .object o _
  | _ => exact .refl _

theorem text_enclosed (v : Value) : v.enclosed.text = v.text := by
  cases v with
  | callable c => cases c <;> rfl
  | _ => rfl

/-- Two frames are the same exactly if they still are with one more frame around. -/
theorem same_enclosed (a b : Value) : a.enclosed.same b.enclosed = a.same b := by
  cases a with
  | callable f =>
    cases b with
    | callable g =>
      cases f <;> cases g <;> try rfl
      simp [enclosed, Callable.enclosed, same, Closure.same, Closure.enclosed, Scope.enclosed]
    | _ => cases f <;> rfl
  | _ =>
    cases b with
    | callable g => cases g <;> rfl
    | _ => rfl

end Value

end LoxLang
