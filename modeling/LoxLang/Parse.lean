import LoxLang.Parse.Statement

/-!
Parsing a list of tokens, as a program or as a single expression.
-/

set_option autoImplicit false
set_option relaxedAutoImplicit false

namespace LoxLang

/-- What parsing gives: the numbers left to hand out, and a result. -/
structure Parsed (ε α : Type) where
  labels : Labels
  result : Except ε α

namespace Parse

def runRule {α : Type} (rule : ParseM α) (labels : Labels) (tokens : List Token) (lastLine : Nat) :
    Except SyntaxError α × ParseState :=
  rule.run ⟨tokens, lastLine, labels, []⟩

def wholeExpression (bound : Nat) : ParseM Expr := do
  let e ← expression bound
  if ← atEnd then pure e else fail .endOfExpression

end Parse

/-- Parses tokens as a program.  All errors are collected; a program has none. -/
def parseProgram (labels : Labels) (tokens : List Token) (lastLine : Nat) :
    Parsed (List SyntaxError) (List Stmt) :=
  let (outcome, state) :=
    Parse.runRule (Parse.declarationsFrom (Parse.declaration tokens.length) false tokens.length)
      labels tokens lastLine
  { labels := state.labels
    result :=
      match outcome, state.errors with
      | .ok statements, [] => .ok statements
      | .ok _, errors => .error errors
      | .error e, errors => .error (errors ++ [e]) }

/-- Parses tokens as one expression.  An error that ends the parse goes before those noted on the
way, of which the first one is told. -/
def parseExpression (labels : Labels) (tokens : List Token) (lastLine : Nat) :
    Parsed SyntaxError Expr :=
  let (outcome, state) :=
    Parse.runRule (Parse.wholeExpression tokens.length) labels tokens lastLine
  { labels := state.labels
    result :=
      match outcome, state.errors with
      | .ok e, [] => .ok e
      | .ok _, noted :: _ => .error noted
      | .error e, _ => .error e }

end LoxLang
