import Bundling.Syntax.Annotation

/-!
# Binding patterns and parameters
-/

namespace Bundling.Syntax.Recognizer

def assignmentExpression : Recognizer Shape := rule (.assignment true)

/-- `= value`, if there. -/
def initializer? : Recognizer Unit := do
  if ← eatMark .assign then discard (withIn assignmentExpression)

/-- A name or pattern with the optional mark and type that may follow it. -/
def typedTarget : Recognizer Unit := do
  rule_ .bindingTarget
  if ← withTypes then
    discard (eatMark .question)
    typeAnnotation?

/-- A target with an initial value. -/
def targetWithDefault : Recognizer Unit := do
  typedTarget
  initializer?

/-- `...target`, which must be the last item before `close`. -/
def restTarget (close : Mark) (target : Recognizer Unit) : Recognizer Unit := do
  expectMark .ellipsis
  target
  if ← atMark .assign then
    blemish
    initializer?
  if ← atMark .comma then blemish
  else unless ← atMark close do stop

/-- A property of an object pattern. -/
def patternProperty : Recognizer Unit := do
  let bindable ← atBindable
  let name ← word?
  rule_ .propertyName
  if bindable && !(← atMark .colon) then
    match name with
    | some w =>
      checkName w (← context)
      bind w
    | none => stop
    initializer?
  else
    expectMark .colon
    targetWithDefault

/-- The target of a binding: a name, or a pattern of an object or array. -/
def bindingTargetRule : Recognizer Unit := do
  match ← lexeme with
  | .mark .leftBrace =>
    advance
    let _ ← commaList .rightBrace do
      if ← atMark .ellipsis then
        restTarget .rightBrace do
          blemishIf ((← atMark .leftBrace) || (← atMark .leftBracket))
          rule_ .bindingTarget
      else patternProperty
    expectMark .rightBrace
  | .mark .leftBracket =>
    advance
    repeatWhile do
      if ← eatMark .comma then pure true
      else if ← atMark .rightBracket then pure false
      else
        if ← atMark .ellipsis then restTarget .rightBracket typedTarget else targetWithDefault
        unless ← atMark .rightBracket do expectMark .comma
        pure true
    expectMark .rightBracket
  | _ => bind (← bindingName)

/-- The modifiers of a parameter that is also a property. -/
def parameterModifiers : Recognizer Unit := do
  if ← withTypes then
    repeatWhile do
      match ← word? with
      | some w =>
        if ["public", "private", "protected", "readonly", "override"].contains w &&
            (← peekHolds (do
              advance
              pure ((← atAnyWord) || (← atMark .leftBrace) || (← atMark .leftBracket)))) then
          advance
          pure true
        else pure false
      | none => pure false

/-- The parameters of a function, between brackets. -/
def parametersRule : Recognizer Unit := do
  expectMark .leftParen
  if (← withTypes) && (← atWord "this") then
    advance
    typeAnnotation?
    unless ← atMark .rightParen do expectMark .comma
  inContext (fun c => { c with inOperator := true, decorator := false }) do
    let _ ← commaList .rightParen do
      rule_ .decorators
      parameterModifiers
      if ← atMark .ellipsis then restTarget .rightParen typedTarget else targetWithDefault
  expectMark .rightParen

end Bundling.Syntax.Recognizer
