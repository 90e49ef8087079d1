import Bundling.Syntax.Linkage

/-!
# Statements
-/

namespace Bundling.Syntax.Recognizer

/-- A statement that is the body of another one. -/
def innerStatement : Recognizer Unit := rule_ (.statement .single)

/-- `(expression)` after a keyword. -/
def headExpression : Recognizer Unit := do
  expectMark .leftParen
  rule_ .expression
  expectMark .rightParen

def ifStatement : Recognizer Unit := do
  headExpression
  innerStatement
  if ← atWord "else" then
    advanceKeyword
    innerStatement

def doStatement : Recognizer Unit := do
  innerStatement
  expectWord "while"
  headExpression
  discard (eatMark .semicolon)

/-! ## Loops with a head -/

/-- The rest of a head with three parts, from its first semicolon on. -/
def loopHead : Recognizer Unit := do
  expectMark .semicolon
  unless ← atMark .semicolon do rule_ .expression
  expectMark .semicolon
  unless ← atMark .rightParen do rule_ .expression

/-- What follows the first part of a head. `lacking` says whether that part misses a value it needs
in a head of three parts, `awaits` whether the loop awaits what it visits, and `target` makes the
first part what is assigned to. -/
def headRest (awaits lacking : Bool) (target : Recognizer Unit) (mayVisit : Bool) :
    Recognizer Unit := do
  if ← atWord "in" then
    blemishIf awaits
    target
    advanceKeyword
    rule_ .expression
  else if ← atWord "of" then
    unless mayVisit do stop
    target
    advance
    discard assignmentExpression
  else
    blemishIf (awaits || (lacking && !(← context).ambient))
    loopHead

/-- The kind of variables that the head of a loop declares, past their keyword. -/
def headVariables? : Recognizer (Option VariableKind) := do
  match ← word? with
  | some "var" =>
    advanceKeyword
    pure (some .var)
  | some "const" =>
    advanceKeyword
    pure (some .const)
  | some "let" =>
    if ← letDeclares then
      advance
      pure (some .let)
    else pure none
  | some "using" =>
    let declares ← usingDeclares
    if declares && !(← peekHolds (do advance; atWord "of")) then
      advance
      pure (some .using)
    else pure none
  | some "await" =>
    if ← awaitUsingDeclares then
      advance
      advance
      pure (some .using)
    else pure none
  | _ => pure none

def forStatement : Recognizer Unit := do
  let awaits ← atWord "await"
  if awaits then
    blemishIf (!(← context).await)
    advance
  expectMark .leftParen
  if ← atMark .semicolon then
    blemishIf awaits
    loopHead
  else match ← headVariables? with
    | some kind =>
      let lacking ← inContext (fun c => { c with inOperator := false }) (declarators kind)
      headRest awaits lacking (pure ()) true
    | none =>
      let startsWithLet ← atWord "let"
      let asyncOf := (← atWord "async") && (← peekHolds (do advance; atWord "of"))
      let s ← inContext (fun c => { c with inOperator := false }) (rule .expression)
      headRest awaits false (assignTo s) (!startsWithLet && (!asyncOf || awaits))
  expectMark .rightParen
  innerStatement

/-! ## Leaving and branching -/

/-- `break` or `continue` after the keyword. -/
def jumpStatement : Recognizer Unit := do
  unless ← mayEnd do labelName
  endStatement

def returnStatement : Recognizer Unit := do
  blemishIf (!(← context).returns)
  unless ← mayEnd do rule_ .expression
  endStatement

def throwStatement : Recognizer Unit := do
  if ← afterNewline then stop
  rule_ .expression
  endStatement

/-- The head of a case. -/
def caseHead : Recognizer Unit := do
  if ← atWord "default" then advanceKeyword
  else
    expectWord "case"
    rule_ .expression
  expectMark .colon

def switchStatement : Recognizer Unit := do
  headExpression
  expectMark .leftBrace
  repeatWhile do
    if ← atMark .rightBrace then pure false
    else
      caseHead
      repeatWhile do
        if (← atMark .rightBrace) || (← atWord "case") || (← atWord "default") then pure false
        else
          rule_ (.statement .list)
          pure true
      pure true
  expectMark .rightBrace

def tryStatement : Recognizer Unit := do
  rule_ .block
  let caught ← eatWord "catch"
  if caught then
    if ← eatMark .leftParen then
      rule_ .bindingTarget
      typeAnnotation?
      expectMark .rightParen
    rule_ .block
  let finished ← eatWord "finally"
  if finished then rule_ .block
  unless caught || finished do stop

/-! ## Expressions and labels -/

/-- An expression as a statement, or a label with its statement. -/
def expressionStatement : Recognizer Unit := do
  let s ← rule .expression
  let labels ← match s.form with
    | .identifier _ => if s.parenthesized then pure false else eatMark .colon
    | _ => pure false
  if labels then innerStatement else endStatement

/-! ## All statements -/

/-- A function as a statement; alone as a body it is neither asynchronous nor a generator. -/
def functionStatement (place : StatementPlace) : Recognizer Unit := do
  let async ← eatWord "async"
  if place = .single then blemishIf (async || (← peekHolds (do advance; atMark .star)))
  functionDeclaration .declaration async

/-- What follows decorators: a class, perhaps exported. -/
def decoratedStatement : Recognizer Unit := do
  rule_ .decorators
  match ← word? with
  | some "class" => classDeclaration
  | some "export" =>
    advanceKeyword
    match ← word? with
    | some "default" | some "class" | some "abstract" => exportRest
    | _ => stop
  | some "abstract" =>
    unless ← withTypes do stop
    declaration
  | _ => stop

/-- A statement that starts with a word. -/
def wordStatement (place : StatementPlace) (w : String) : Recognizer Unit := do
  let types ← withTypes
  let keyword (p : Recognizer Unit) : Recognizer Unit := do
    advanceKeyword
    p
  let lexical (kind : VariableKind) : Recognizer Unit := do
    blemishIf (place = .single)
    keyword (variableDeclaration kind)
  match w with
  | "if" => keyword ifStatement
  | "do" => keyword doStatement
  | "while" => keyword do
      headExpression
      innerStatement
  | "for" => keyword forStatement
  | "continue" | "break" => keyword jumpStatement
  | "with" => keyword do
      headExpression
      innerStatement
  | "switch" => keyword switchStatement
  | "throw" => keyword throwStatement
  | "try" => keyword tryStatement
  | "debugger" => keyword endStatement
  | "return" => keyword returnStatement
  | "class" =>
    blemishIf (place = .single)
    classDeclaration
  | "export" => keyword exportRest
  | "var" => keyword (variableDeclaration .var)
  | "function" => functionStatement place
  | "const" =>
    if types && (← peekHolds (do advance; atWord "enum")) then declaration else lexical .const
  | "let" => if ← letDeclares then lexical .let else expressionStatement
  | "using" => if ← usingDeclares then lexical .using else expressionStatement
  | "await" =>
    if ← awaitUsingDeclares then
      advance
      lexical .using
    else expressionStatement
  | "import" =>
    let calls ← peekHolds do
      advance
      pure ((← atMark .leftParen) || (← atMark .dot))
    if calls then expressionStatement else keyword importRest
  | _ =>
    if ← atAsyncFunction then functionStatement place
    else if types && (← declarationAhead) then declaration
    else expressionStatement

def statementRule (place : StatementPlace) : Recognizer Unit := do
  match ← lexeme with
  | .mark .leftBrace => rule_ .block
  | .mark .semicolon => advance
  | .mark .at => decoratedStatement
  | .word w _ => wordStatement place w
  | _ => expressionStatement

end Bundling.Syntax.Recognizer
