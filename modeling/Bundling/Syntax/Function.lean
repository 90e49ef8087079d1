import Bundling.Syntax.Expression

/-!
# Functions, classes and decorators
-/

namespace Bundling.Syntax.Recognizer

/-- Statements between braces. -/
def blockRule : Recognizer Unit := do
  expectMark .leftBrace
  repeatWhile do
    if ← atMark .rightBrace then pure false
    else
      rule_ (.statement .list)
      pure true
  expectMark .rightBrace

/-- The statements of a function. -/
def functionBodyRule : Recognizer Unit :=
  inContext (fun c => { c with inOperator := true, returns := true, decorator := false }) blockRule

/-- A body, or, where declarations have none, the end of the declaration. -/
def bodyOrEnd : Recognizer Unit := do
  let c ← context
  if ← atMark .leftBrace then
    blemishIf (c.ambient && (← withTypes))
    rule_ .functionBody
  else if ← withTypes then endStatement
  else stop

/-- A function from behind its keyword on; gives its name. -/
def functionRest (kind : FunctionKind) (async : Bool) : Recognizer (Option String) := do
  let generator ← eatMark .star
  let outer ← context
  let named ← match ← lexeme with
    | .word w _ =>
      if isBindable w then
        if kind = .expression then checkName w { outer with await := async, yield := generator }
        else checkName w outer
        advance
        pure (some w)
      else if kind = .declaration then stop
      else pure none
    | _ => if kind = .declaration then stop else pure none
  inContext (fun c => { c with
      inOperator := true, decorator := false, await := async, yield := generator }) do
    typeParameters?
    rule_ .parameters
    discard returnAnnotation?
    if kind = .expression then rule_ .functionBody else bodyOrEnd
  pure named

/-! ## Decorators -/

/-- Decorators in front of a declaration. -/
def decoratorsRule : Recognizer Unit := repeatWhile do
  if ← eatMark .at then
    discard (inContext (fun c => { c with decorator := true }) (rule .leftHandSide))
    pure true
  else pure false

/-! ## Classes -/

/-- The modifiers that only classes with types have. -/
def typedModifiers : List String :=
  ["public", "private", "protected", "readonly", "declare", "abstract", "override"]

/-- The modifiers in front of a class member. -/
def memberModifiers : Nat → List String → Recognizer (List String)
  | 0, _ => stop
  | n + 1, seen => do
    match ← lexeme with
    | .word w _ =>
      let modifies ←
        if w = "static" then
          if seen.contains w then pure false
          else if ← peekHolds (do advance; atMark .leftBrace) then pure false
          else propertyFollows false
        else if w = "async" || w = "accessor" then propertyFollows true
        else if typedModifiers.contains w then
          if ← withTypes then propertyFollows true else pure false
        else pure false
      if modifies then
        blemishIf (seen.contains w)
        advanceKeyword
        memberModifiers n (w :: seen)
      else pure seen
    | _ => pure seen

/-- A class member from its name on, which is not an accessor. -/
def fieldOrMethod (modifiers : List String) : Recognizer Unit := do
  let isStatic := modifiers.contains "static"
  let async := modifiers.contains "async"
  let generator ← eatMark .star
  let name ← lexeme
  let plain := match name with
    | .word w _ | .string w => some w
    | _ => none
  let isConstructor := plain = some "constructor" && !isStatic
  match name with
  | .privateName w =>
    blemishIf (w = "constructor")
    advance
  | _ => rule_ .propertyName
  blemishIf (isStatic && plain = some "prototype")
  let types ← withTypes
  let optional ← if types then eatMark .question else pure false
  if generator || (← atMark .leftParen) || (← atMark .less) then
    blemishIf (isConstructor && (async || generator))
    inContext (fun c => { c with
        inOperator := true, decorator := false, await := async, yield := generator
        ambient := c.ambient || modifiers.contains "declare" }) do
      typeParameters?
      rule_ .parameters
      discard returnAnnotation?
      bodyOrEnd
  else
    blemishIf (plain = some "constructor")
    if types && !optional && (← atMark .bang) then advance
    typeAnnotation?
    if ← eatMark .assign then
      discard (inContext (fun c => { c with
        inOperator := true, decorator := false, await := false, yield := false })
        assignmentExpression)
    blemishIf async
    endStatement

/-- A member that is read or written through a function. -/
def accessorMember (modifiers : List String) : Recognizer Unit := do
  let setter ← atWord "set"
  advanceKeyword
  let isStatic := modifiers.contains "static"
  match ← lexeme with
  | .privateName w =>
    blemishIf (w = "constructor")
    advance
  | name =>
    match name with
    | .word w _ | .string w =>
      blemishIf (w = "constructor" && !isStatic)
      blemishIf (w = "prototype" && isStatic)
    | _ => pure ()
    rule_ .propertyName
  accessorCheck setter
  blemishIf (modifiers.contains "async")
  inContext (fun c => { c with
      inOperator := true, decorator := false, await := false, yield := false }) do
    typeParameters?
    rule_ .parameters
    discard returnAnnotation?
    bodyOrEnd

/-- A member of a class. -/
def classMember : Recognizer Unit := do
  unless ← eatMark .semicolon do
    rule_ .decorators
    let modifiers ← memberModifiers (← read).limit []
    if (← atWord "static") && (← peekHolds (do advance; atMark .leftBrace)) then
      advanceKeyword
      inContext (fun c => { c with
        inOperator := true, decorator := false, await := true, yield := false, returns := false })
        (rule_ .block)
    else if ((← atWord "get") || (← atWord "set")) && (← propertyFollows false) then
      if ← peekHolds (do advance; atMark .star) then fieldOrMethod modifiers
      else accessorMember modifiers
    else if (← withTypes) && (← atIndexSignature) then
      indexSignature
      endMember
    else fieldOrMethod modifiers

/-- What a class extends and implements. -/
def heritage : Recognizer Unit := repeatWhile do
  if ← atWord "extends" then
    advanceKeyword
    discard (rule .leftHandSide)
    if ← withTypes then typeArguments?
    pure true
  else if (← withTypes) && (← atWord "implements") then
    advance
    entityName
    typeArguments?
    repeatWhile do
      if ← eatMark .comma then
        entityName
        typeArguments?
        pure true
      else pure false
    pure true
  else pure false

/-- A class from behind its keyword on; gives its name. -/
def classRest : Recognizer (Option String) := do
  let named ← match ← lexeme with
    | .word w _ =>
      if isBindable w && w != "implements" then some <$> bindingName else pure none
    | _ => pure none
  typeParameters?
  heritage
  expectMark .leftBrace
  inContext (fun c => { c with inOperator := true, decorator := false }) do
    repeatWhile do
      if ← atMark .rightBrace then pure false
      else
        classMember
        pure true
  expectMark .rightBrace
  pure named

end Bundling.Syntax.Recognizer
