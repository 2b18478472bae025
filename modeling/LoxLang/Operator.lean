import LoxLang.Fault

/-!
What the operators compute.  Arithmetic and comparison take numerals in strings for numbers.
-/

set_option autoImplicit false
set_option relaxedAutoImplicit false

namespace LoxLang

/-- Applies a prefix operator. -/
def applyUnary (operator : Kind) (v : Value) : Except RuntimeFault Value :=
  match operator with
  | .minus =>
    match v with
    | .number x => .ok (.number (-x))
    | _ => .error .operandNotNumber
  | .bang => .ok (.bool !v.truthy)
  | _ => .error .invalidUnary

def onNumbers (f : Float → Float → Value) (a b : Value) : Except RuntimeFault Value :=
  match a.number?, b.number? with
  | some x, some y => .ok (f x y)
  | _, _ => .error .operandsNotNumbers

def addValues (a b : Value) : Except RuntimeFault Value :=
  match a, b with
  | .number _, .number _ | .number _, .string _ | .string _, .number _ =>
    match a.number?, b.number? with
    | some x, some y => .ok (.number (x + y))
    | _, _ => .error .operandsNotAddable
  | .string s, .string t =>
    match a.number?, b.number? with
    | some x, some y => .ok (.number (x + y))
    | _, _ => .ok (.string (s ++ t))
  | _, _ => .error .operandsNotAddable

def applyBinary (operator : Kind) (a b : Value) : Except RuntimeFault Value :=
  match operator with
  | .plus => addValues a b
  | .minus => onNumbers (fun x y => .number (x - y)) a b
  | .star => onNumbers (fun x y => .number (x * y)) a b
  | .slash => onNumbers (fun x y => .number (x / y)) a b
  | .greater => onNumbers (fun x y => .bool (x > y)) a b
  | .greaterEqual => onNumbers (fun x y => .bool (x ≥ y)) a b
  | .less => onNumbers (fun x y => .bool (x < y)) a b
  | .lessEqual => onNumbers (fun x y => .bool (x ≤ y)) a b
  | .equalEqual => .ok (.bool (a.same b))
  | .bangEqual => .ok (.bool !a.same b)
  | _ => .error .invalidBinary

end LoxLang
