import LoxLang.Operator

/-!
What operators give and what they see.  They give values that close over nothing, or fail in one of
a few ways.  Functions, classes and objects are all alike to them, except that two can be compared.
-/

set_option autoImplicit false
set_option relaxedAutoImplicit false

namespace LoxLang

/-! Results. -/

/-- A value that closes over nothing: neither a function nor a class nor an object. -/
def Value.IsConstant : Value → Prop
  | .callable _ | .object _ => False
  | _ => True

theorem Literal.value_constant (l : Literal) : l.value.IsConstant := by
  cases l <;> trivial

theorem applyUnary_constant {operator : Kind} {v u : Value} (h : applyUnary operator v = .ok u) :
    u.IsConstant := by
  unfold applyUnary at h
  split at h
  · split at h
    · exact Except.ok.inj h ▸ trivial
    · cases h
  · exact Except.ok.inj h ▸ trivial
  · cases h

private theorem onNumbers_constant {f : Float → Float → Value} {a b u : Value}
    (h : onNumbers f a b = .ok u) (hf : ∀ x y, (f x y).IsConstant) : u.IsConstant := by
  unfold onNumbers at h
  split at h
  · exact Except.ok.inj h ▸ hf _ _
  · cases h

private theorem addValues_constant {a b u : Value} (h : addValues a b = .ok u) : u.IsConstant := by
  unfold addValues at h
  split at h
  case h_5 => cases h
  all_goals
    split at h
    · exact Except.ok.inj h ▸ trivial
    · first
        | exact Except.ok.inj h ▸ trivial
        | cases h

theorem applyBinary_constant {operator : Kind} {a b u : Value}
    (h : applyBinary operator a b = .ok u) : u.IsConstant := by
  unfold applyBinary at h
  split at h
  · exact addValues_constant h
  case h_10 | h_9 => exact Except.ok.inj h ▸ trivial
  case h_11 => cases h
  all_goals exact onNumbers_constant h fun _ _ => trivial

/-! Faults. -/

theorem applyUnary_error {operator : Kind} {v : Value} {f : RuntimeFault}
    (failed : applyUnary operator v = .error f) : f = .operandNotNumber ∨ f = .invalidUnary := by
  unfold applyUnary at failed
  split at failed
  · split at failed <;> cases failed
    exact .inl rfl
  · cases failed
  · cases failed
    exact .inr rfl

theorem onNumbers_error {f : Float → Float → Value} {a b : Value} {fault : RuntimeFault}
    (failed : onNumbers f a b = .error fault) : fault = .operandsNotNumbers := by
  unfold onNumbers at failed
  split at failed <;> cases failed
  rfl

theorem addValues_error {a b : Value} {fault : RuntimeFault}
    (failed : addValues a b = .error fault) : fault = .operandsNotAddable := by
  unfold addValues at failed
  split at failed
  case h_4 => split at failed <;> cases failed
  case h_5 =>
    cases failed
    rfl
  all_goals
    split at failed <;> cases failed
    rfl

theorem applyBinary_error {operator : Kind} {a b : Value} {f : RuntimeFault}
    (failed : applyBinary operator a b = .error f) :
    f = .operandsNotNumbers ∨ f = .operandsNotAddable ∨ f = .invalidBinary := by
  unfold applyBinary at failed
  split at failed
  · exact .inr (.inl (addValues_error failed))
  case h_9 | h_10 => cases failed
  case h_11 =>
    cases failed
    exact .inr (.inr rfl)
  all_goals exact .inl (onNumbers_error failed)

/-! Operands. -/

/-- Two values between which operators cannot tell, unless they compare them with others. -/
inductive Value.Alike : Value → Value → Prop where
  | refl (v : Value) : Alike v v
  | callable (c c' : Callable) : Alike (.callable c) (.callable c')
  | object (o o' : Object) : Alike (.object o) (.object o')

section

variable {a a' b b' : Value}

theorem Value.Alike.truthy_eq (h : a.Alike a') : a'.truthy = a.truthy := by
  cases h <;> rfl

private theorem Value.Alike.number?_eq (h : a.Alike a') : a'.number? = a.number? := by
  cases h <;> rfl

theorem applyUnary_alike (operator : Kind) (h : a.Alike a') :
    applyUnary operator a' = applyUnary operator a := by
  unfold applyUnary
  rw [h.truthy_eq]
  cases h <;> rfl

private theorem onNumbers_alike (f : Float → Float → Value) (ha : a.Alike a') (hb : b.Alike b') :
    onNumbers f a' b' = onNumbers f a b := by
  rw [onNumbers, onNumbers, ha.number?_eq, hb.number?_eq]

private theorem addValues_alike (ha : a.Alike a') (hb : b.Alike b') :
    addValues a' b' = addValues a b := by
  unfold addValues
  cases ha with
  | refl a =>
    cases hb with
    | refl b => rfl
    | _ => cases a <;> rfl
  | _ => rfl

theorem applyBinary_alike (operator : Kind) (ha : a.Alike a') (hb : b.Alike b')
    (same : a'.same b' = a.same b) : applyBinary operator a' b' = applyBinary operator a b := by
  unfold applyBinary
  rw [addValues_alike ha hb, same]
  simp only [onNumbers_alike _ ha hb]

end

end LoxLang
