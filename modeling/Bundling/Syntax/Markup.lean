import Bundling.Syntax.Expression

/-!
# Markup expressions

Elements are read up to their last `>`, which is left: what follows it is text where the element
stands inside another one, and an ordinary token where it does not.
-/

namespace Bundling.Syntax.Recognizer

/-- Moves on to the next token of an element's content. -/
def advanceChild : Recognizer Unit := do setToken (Lexer.markupChild? (← token).rest)

/-- A name that may hold hyphens. -/
def markupName : Recognizer String := do
  match ← lexeme with
  | .word w _ =>
    let t ← token
    if t.rest.head? = some '-' then
      let (more, rest) := Lexer.markupNameRest t.rest
      setToken (some { t with rest := rest })
      advance
      pure (w ++ String.ofList more)
    else
      advance
      pure w
  | _ => stop

/-- The name of an element: plain, in a namespace, or a member, whose parts hold no hyphens. -/
def elementName : Recognizer String := do
  let first ← markupName
  if ← eatMark .colon then
    pure (first ++ ":" ++ (← markupName))
  else
    let rec members : Nat → String → Recognizer String
      | 0, _ => stop
      | n + 1, name => do
        if ← eatMark .dot then
          blemishIf (name.contains '-')
          let part ← markupName
          blemishIf (part.contains '-')
          members n (name ++ "." ++ part)
        else pure name
    members (← read).limit first

/-- An expression between braces; the closing brace is left. -/
def embeddedExpression : Recognizer Unit := do
  let s ← inContext plainContext (rule .expression)
  blemishIf (s.form = .sequence && !s.parenthesized)
  unless ← atMark .rightBrace do stop

/-- The value of an attribute after its `=`. -/
def attributeValue : Recognizer Unit := do
  let env ← read
  setToken (Lexer.attributeValue? (!env.dialect.isModule) env.limit (← token).rest)
  match ← lexeme with
  | .string _ => advance
  | .mark .leftBrace =>
    advance
    if ← atMark .rightBrace then stop
    embeddedExpression
    advance
  | .mark .less =>
    rule_ .markup
    expectMark .greater
  | _ => stop

/-- The attributes of an element. -/
def attributes : Recognizer Unit := repeatWhile do
  match ← lexeme with
  | .mark .leftBrace =>
    advance
    expectMark .ellipsis
    discard (inContext plainContext (rule .expression))
    expectMark .rightBrace
    pure true
  | .word .. =>
    discard markupName
    if ← eatMark .colon then discard markupName
    if ← atMark .assign then attributeValue
    pure true
  | _ => pure false

/-- The content of an element from the `>` of its opening tag to the `<` of its closing tag. -/
def elementContent : Recognizer Unit := do
  advanceChild
  repeatWhile do
    match ← lexeme with
    | .markupText =>
      advanceChild
      pure true
    | .mark .leftBrace =>
      advance
      if ← eatMark .ellipsis then embeddedExpression
      else unless ← atMark .rightBrace do embeddedExpression
      advanceChild
      pure true
    | .mark .less =>
      if ← peekHolds (do advance; atMark .slash) then
        advance
        pure false
      else
        rule_ .markup
        advanceChild
        pure true
    | _ => stop

/-- An element or a fragment; its last `>` is left. -/
def markupRule : Recognizer Unit := do
  expectMark .less
  if ← atMark .greater then
    elementContent
    expectMark .slash
  else
    let name ← elementName
    if ← withTypes then
      splitLess
      if ← atMark .less then rule_ .typeArguments
    attributes
    unless ← eatMark .slash do
      unless ← atMark .greater do stop
      elementContent
      expectMark .slash
      unless (← elementName) = name do stop
  unless ← atMark .greater do stop

end Bundling.Syntax.Recognizer
