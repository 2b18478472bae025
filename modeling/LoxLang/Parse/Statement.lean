import LoxLang.Parse.Expression

/-!
The rules for statements and declarations.  A declaration that ends with an error notes it and
skips to the next place where a declaration may begin, so that one text yields all its errors.
-/

set_option autoImplicit false
set_option relaxedAutoImplicit false

namespace LoxLang

namespace Parse

def restarts : List Kind :=
  [.classWord, .funWord, .varWord, .forWord, .ifWord, .whileWord, .printWord, .returnWord]

/-- The tokens behind `last` from the next boundary on: behind a semicolon, or before a kind that
begins anew. -/
def skipFrom (last : Token) : List Token → List Token
  | [] => []
  | t :: ts =>
    if last.kind = .semicolon then t :: ts
    else if t.kind ∈ restarts then t :: ts
    else skipFrom t ts

def skipToBoundary : List Token → List Token
  | [] => []
  | t :: ts => skipFrom t ts

/-- Runs a rule; if it ends with an error, notes that and skips to the next boundary. -/
def recovering (rule : ParseM Stmt) : ParseM (Option Stmt) :=
  tryCatch (some <$> rule) fun e => do
    report e
    modify fun s => { s with ahead := skipToBoundary s.ahead }
    pure none

def optionalExpression (bound : Nat) (closing : Kind) : ParseM (Option Expr) := do
  if ← check closing then pure none else some <$> expression bound

def expressionStatement (bound : Nat) : ParseM Stmt := do
  let e ← expression bound
  let _ ← expect .semicolon .expressionEnd
  pure (.expression e)

def varDeclaration (bound : Nat) : ParseM Stmt := do
  let name ← expect .identifier .variableName
  let initializer ←
    match ← accept .equal with
    | some _ => some <$> expression bound
    | none => pure none
  let _ ← expect .semicolon .variableEnd
  pure (.var name initializer)

def declarationsFrom (declaration : ParseM (Option Stmt)) (inBlock : Bool) :
    Nat → ParseM (List Stmt)
  | 0 => pure []
  | bound + 1 => do
    if (← atEnd) || (inBlock && (← check .rightBrace)) then pure []
    else
      let first ← declaration
      let others ← declarationsFrom declaration inBlock bound
      pure (first.toList ++ others)

def block (declaration : ParseM (Option Stmt)) (bound : Nat) : ParseM (List Stmt) := do
  let body ← declarationsFrom declaration true bound
  let _ ← expect .rightBrace .blockClosing
  pure body

def paramsFrom : Nat → Nat → ParseM (List Token)
  | 0, _ => fail .paramName
  | bound + 1, count => do
    if maxArity ≤ count then report ⟨← peek, .tooManyParams⟩
    let param ← expect .identifier .paramName
    match ← accept .comma with
    | some _ => return param :: (← paramsFrom bound (count + 1))
    | none => return [param]

def function (role : FunctionRole) (body : ParseM (List Stmt)) (bound : Nat) :
    ParseM FunctionDecl := do
  let name ← expect .identifier (.functionName role)
  let _ ← expect .leftParen (.paramsOpening role)
  let params ← if ← check .rightParen then pure [] else paramsFrom bound 0
  let _ ← expect .rightParen .paramsClosing
  let _ ← expect .leftBrace (.bodyOpening role)
  let statements ← body
  pure (.mk (← freshSite) name params statements)

def methodsFrom (body : ParseM (List Stmt)) : Nat → ParseM (List FunctionDecl)
  | 0 => pure []
  | bound + 1 => do
    if (← atEnd) || (← check .rightBrace) then pure []
    else
      let first ← function .method body bound
      return first :: (← methodsFrom body bound)

def classDeclaration (body : ParseM (List Stmt)) (bound : Nat) : ParseM Stmt := do
  let name ← expect .identifier .className
  let superclass ←
    match ← accept .less with
    | some _ =>
      let superName ← expect .identifier .superclassName
      pure (some (.variable (← freshExpr) superName))
    | none => pure none
  let _ ← expect .leftBrace .classOpening
  let methods ← methodsFrom body bound
  let _ ← expect .rightBrace .classClosing
  pure (.classDecl name superclass methods)

/-- The loop that a `for` statement stands for: its clauses become a block around a loop whose body
is followed by the increment. -/
def forLoop (initializer : Option Stmt) (condition increment : Option Expr) (body : Stmt) : Stmt :=
  let body :=
    match increment with
    | some e => Stmt.block [body, .expression e]
    | none => body
  let loop := Stmt.loop (condition.getD (.literal (.bool true))) body
  match initializer with
  | some s => .block [s, loop]
  | none => loop

def forStatement (statement : ParseM Stmt) (bound : Nat) : ParseM Stmt := do
  let _ ← expect .leftParen .forOpening
  let initializer ←
    match ← acceptAny [.semicolon, .varWord] with
    | some t => if t.kind = .semicolon then pure none else some <$> varDeclaration bound
    | none => some <$> expressionStatement bound
  let condition ← optionalExpression bound .semicolon
  let _ ← expect .semicolon .forConditionEnd
  let increment ← optionalExpression bound .rightParen
  let _ ← expect .rightParen .forClosing
  let body ← statement
  pure (forLoop initializer condition increment body)

def ifStatement (statement : ParseM Stmt) (bound : Nat) : ParseM Stmt := do
  let _ ← expect .leftParen .ifOpening
  let condition ← expression bound
  let _ ← expect .rightParen .ifClosing
  let thenBranch ← statement
  let elseBranch ←
    match ← accept .elseWord with
    | some _ => some <$> statement
    | none => pure none
  pure (.branch condition thenBranch elseBranch)

def printStatement (bound : Nat) : ParseM Stmt := do
  let e ← expression bound
  let _ ← expect .semicolon .printEnd
  pure (.print e)

def returnStatement (keyword : Token) (bound : Nat) : ParseM Stmt := do
  let value ← optionalExpression bound .semicolon
  let _ ← expect .semicolon .returnEnd
  pure (.ret keyword value)

def whileStatement (statement : ParseM Stmt) (bound : Nat) : ParseM Stmt := do
  let _ ← expect .leftParen .whileOpening
  let condition ← expression bound
  let _ ← expect .rightParen .whileClosing
  let body ← statement
  pure (.loop condition body)

/-- A statement; `inner` reads a nested one and `body` a block behind its opening brace, each
where at most `bound` tokens are ahead. -/
def statementWith (inner : ParseM Stmt) (body : ParseM (List Stmt)) (bound : Nat) :
    ParseM Stmt := do
  match ← acceptAny [.forWord, .ifWord, .printWord, .returnWord, .whileWord, .leftBrace] with
  | none => expressionStatement (bound + 1)
  | some t =>
    match t.kind with
    | .forWord => forStatement inner bound
    | .ifWord => ifStatement inner bound
    | .printWord => printStatement bound
    | .returnWord => returnStatement t bound
    | .whileWord => whileStatement inner bound
    | _ => .block <$> body

def declarationWith (inner : ParseM Stmt) (body : ParseM (List Stmt)) (bound : Nat) :
    ParseM Stmt := do
  match ← acceptAny [.classWord, .funWord, .varWord] with
  | none => statementWith inner body bound
  | some t =>
    match t.kind with
    | .classWord => classDeclaration body bound
    | .funWord => .function <$> function .function body bound
    | _ => varDeclaration bound

mutual

def statement : Nat → ParseM Stmt
  | 0 => expressionStatement 0
  | bound + 1 => statementWith (statement bound) (block (declaration bound) bound) bound

def declaration : Nat → ParseM (Option Stmt)
  | 0 => recovering (expressionStatement 0)
  | bound + 1 =>
    recovering (declarationWith (statement bound) (block (declaration bound) bound) bound)

end

end Parse

end LoxLang
