import LoxLang.Proofs.OperatorResults
import LoxLang.Proofs.PlainValues
import LoxLang.Proofs.RelinedTrees

/-!
Values whose functions were declared on other lines.  A line shows in no value: such values print
the same text, are equal to one another when the values are, and the operators make of them what
they make of the values.
-/

set_option autoImplicit false
set_option relaxedAutoImplicit false

namespace LoxLang

/-! What can be seen of a declaration on other lines. -/

namespace FunctionDecl

private theorem reline_site (line : Nat → Nat) (decl : FunctionDecl) :
    (decl.reline line).site = decl.site := by
  cases decl
  rfl

theorem reline_name (line : Nat → Nat) (decl : FunctionDecl) :
    (decl.reline line).name = decl.name.reline line := by
  cases decl
  rfl

theorem reline_params (line : Nat → Nat) (decl : FunctionDecl) :
    (decl.reline line).params = decl.params.map (Token.reline line) := by
  cases decl
  rfl

theorem reline_body (line : Nat → Nat) (decl : FunctionDecl) :
    (decl.reline line).body = Stmt.relineAll line decl.body := by
  cases decl
  rfl

end FunctionDecl

section

variable (line : Nat → Nat)

abbrev Closure.reline : Closure → Closure := Closure.mapDecl (FunctionDecl.reline line)

abbrev ClassBody.reline : ClassBody → ClassBody := ClassBody.mapDecls (FunctionDecl.reline line)

abbrev Class.reline : Class → Class := Class.mapDecls (FunctionDecl.reline line)

abbrev Callable.reline : Callable → Callable := Callable.mapDecls (FunctionDecl.reline line)

def Object.reline (o : Object) : Object := { o with kind := o.kind.reline line }

abbrev Value.reline : Value → Value := Value.mapDecls (FunctionDecl.reline line)

end

variable {line : Nat → Nat}

theorem Literal.value_reline (l : Literal) : l.value.reline line = l.value := by
  cases l <;> rfl

private theorem Closure.name_reline (c : Closure) : (c.reline line).name = c.name := by
  have name : (c.reline line).decl.name = c.decl.name.reline line := c.decl.reline_name line
  rw [Closure.name, name, Token.reline_lexeme, Closure.name]

private theorem Closure.arity_reline (c : Closure) : (c.reline line).arity = c.arity := by
  have params : (c.reline line).decl.params = c.decl.params.map (Token.reline line) :=
    c.decl.reline_params line
  rw [Closure.arity, params, List.length_map, Closure.arity]

private theorem Closure.same_reline (a b : Closure) : (a.reline line).same
    (b.reline line) = a.same b := by
  simp only [Closure.same, Closure.mapDecl, FunctionDecl.reline_site]

private theorem ClassBody.method?_reline (b : ClassBody) (name : String) :
    (b.reline line).method? name = (b.method? name).map (Closure.reline line) := by
  have named : (fun c : Closure => c.name == name) ∘ Closure.reline line = (·.name == name) :=
    funext fun c => by rw [Function.comp, c.name_reline]
  have methods : (b.reline line).methods = b.methods.map (Closure.reline line) := rfl
  rw [ClassBody.method?, methods, ← List.map_reverse, List.find?_map, named, ClassBody.method?]

theorem Class.method?_reline (c : Class) (name : String) :
    (c.reline line).method? name = (c.method? name).map (Closure.reline line) := by
  have chain : (c.reline line).chain = c.chain.map (ClassBody.reline line) := rfl
  unfold Class.method?
  rw [chain, List.findSome?_map]
  induction c.chain with
  | nil => rfl
  | cons b bs ih =>
    rw [List.findSome?_cons, List.findSome?_cons, Function.comp, b.method?_reline]
    cases b.method? name with
    | none => exact ih
    | some m => rfl

theorem Class.below_reline (own : ClassBody) (superclass : Option Class) :
    (Class.below own superclass).reline line =
      .below (own.reline line) (superclass.map (Class.reline line)) := by
  cases superclass <;> rfl

private theorem Class.arity_reline (c : Class) : (c.reline line).arity = c.arity := by
  unfold Class.arity
  rw [c.method?_reline]
  cases c.method? initializerName with
  | none => rfl
  | some initializer => exact initializer.arity_reline

theorem Callable.arity_reline (c : Callable) : (c.reline line).arity = c.arity := by
  cases c with
  | native f => rfl
  | function c => exact c.arity_reline
  | ofClass k => exact k.arity_reline

namespace Value

theorem alike_reline (v : Value) : v.Alike (v.reline line) := by
  cases v with
  | callable c => exact .callable c _
  | object o => exact .object o _
  | _ => exact .refl _

theorem text_reline (v : Value) : (v.reline line).text = v.text := by
  cases v with
  | callable c =>
    cases c with
    | function c => exact congrArg ("<fn " ++ · ++ ">") c.name_reline
    | _ => rfl
  | _ => rfl

/-- Functions have their identity from the place of their declaration, which is a number and no
line. -/
theorem same_reline (a b : Value) : (a.reline line).same (b.reline line) = a.same b := by
  cases a with
  | callable f =>
    cases b with
    | callable g =>
      cases f <;> cases g <;> first
        | rfl
        | exact Closure.same_reline _ _
    | _ => cases f <;> rfl
  | _ =>
    cases b with
    | callable g => cases g <;> rfl
    | _ => rfl

end Value

theorem Value.IsConstant.reline {v : Value} (h : v.IsConstant) : v.reline line = v := by
  cases v with
  | callable c | object o => cases h
  | _ => rfl

end LoxLang
