import LoxLang.Parse

/-!
The optional parts of rules as rules of their own: the note that a list is full, the parameters of
a function, the initializer of a variable, the superclass of a class, what stands first in a `for`,
and the branch behind `else`.
-/

set_option autoImplicit false
set_option relaxedAutoImplicit false

namespace LoxLang

namespace Parse

def noteFull (count : Nat) (fault : SyntaxFault) : ParseM Unit := do
  if maxArity ≤ count then report ⟨← peek, fault⟩

/-- The parameters of a function behind the opening parenthesis. -/
def params (bound : Nat) : ParseM (List Token) := do
  if ← check .rightParen then pure [] else paramsFrom bound 0

/-- The initializer of a variable, if there is one. -/
def initializer (bound : Nat) : ParseM (Option Expr) := do
  match ← accept .equal with
  | some _ => some <$> expression bound
  | none => pure none

/-- The superclass of a class, if there is one. -/
def superclass : ParseM (Option Expr) := do
  match ← accept .less with
  | some _ =>
    let superName ← expect .identifier .superclassName
    pure (some (.variable (← freshExpr) superName))
  | none => pure none

/-- What stands first between the parentheses of a `for`. -/
def forInitializer (bound : Nat) : ParseM (Option Stmt) := do
  match ← acceptAny [.semicolon, .varWord] with
  | some t => if t.kind = .semicolon then pure none else some <$> varDeclaration bound
  | none => some <$> expressionStatement bound

def elseBranch (statement : ParseM Stmt) : ParseM (Option Stmt) := do
  match ← accept .elseWord with
  | some _ => some <$> statement
  | none => pure none

theorem argumentsFrom_succ (inner : ParseM Expr) (bound count : Nat) :
    argumentsFrom inner (bound + 1) count = (do
      noteFull count .tooManyArguments
      let argument ← inner
      match ← accept .comma with
      | some _ => return argument :: (← argumentsFrom inner bound (count + 1))
      | none => return [argument]) := by
  rw [argumentsFrom, noteFull]
  split <;> rfl

theorem paramsFrom_succ (bound count : Nat) :
    paramsFrom (bound + 1) count = (do
      noteFull count .tooManyParams
      let param ← expect .identifier .paramName
      match ← accept .comma with
      | some _ => return param :: (← paramsFrom bound (count + 1))
      | none => return [param]) := by
  rw [paramsFrom, noteFull]
  split <;> rfl

theorem function_eq (role : FunctionRole) (body : ParseM (List Stmt)) (bound : Nat) :
    function role body bound = (do
      let name ← expect .identifier (.functionName role)
      let _ ← expect .leftParen (.paramsOpening role)
      let params ← params bound
      let _ ← expect .rightParen .paramsClosing
      let _ ← expect .leftBrace (.bodyOpening role)
      let statements ← body
      pure (FunctionDecl.mk (← freshSite) name params statements)) := by
  unfold function params
  simp only [bind_assoc]
  congr
  funext name
  congr
  funext _
  congr
  funext empty
  split <;> rfl

theorem varDeclaration_eq (bound : Nat) :
    varDeclaration bound = (do
      let name ← expect .identifier .variableName
      let initializer ← initializer bound
      let _ ← expect .semicolon .variableEnd
      pure (Stmt.var name initializer)) := by
  unfold varDeclaration initializer
  simp only [bind_assoc]
  congr
  funext name
  congr
  funext r
  cases r <;> rfl

theorem classDeclaration_eq (body : ParseM (List Stmt)) (bound : Nat) :
    classDeclaration body bound = (do
      let name ← expect .identifier .className
      let superclass ← superclass
      let _ ← expect .leftBrace .classOpening
      let methods ← methodsFrom body bound
      let _ ← expect .rightBrace .classClosing
      pure (Stmt.classDecl name superclass methods)) := by
  unfold classDeclaration superclass
  simp only [bind_assoc]
  congr
  funext name
  congr
  funext r
  cases r with
  | none => rfl
  | some t => simp only [bind_assoc, pure_bind]

theorem forStatement_eq (statement : ParseM Stmt) (bound : Nat) :
    forStatement statement bound = (do
      let _ ← expect .leftParen .forOpening
      let initializer ← forInitializer bound
      let condition ← optionalExpression bound .semicolon
      let _ ← expect .semicolon .forConditionEnd
      let increment ← optionalExpression bound .rightParen
      let _ ← expect .rightParen .forClosing
      let body ← statement
      pure (forLoop initializer condition increment body)) := by
  unfold forStatement forInitializer
  simp only [bind_assoc]
  congr
  funext _
  congr
  funext r
  cases r with
  | none => rfl
  | some t =>
    dsimp only
    split <;> rfl

theorem ifStatement_eq (statement : ParseM Stmt) (bound : Nat) :
    ifStatement statement bound = (do
      let _ ← expect .leftParen .ifOpening
      let condition ← expression bound
      let _ ← expect .rightParen .ifClosing
      let thenBranch ← statement
      let elseBranch ← elseBranch statement
      pure (Stmt.branch condition thenBranch elseBranch)) := by
  unfold ifStatement elseBranch
  simp only [bind_assoc]
  congr
  funext _
  congr
  funext condition
  congr
  funext _
  congr
  funext thenBranch
  congr
  funext r
  cases r <;> rfl

end Parse

end LoxLang
