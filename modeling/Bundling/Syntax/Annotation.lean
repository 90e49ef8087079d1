import Bundling.Syntax.Recognizer

/-!
# Types

The types of annotations. They request nothing, so all that matters is where they end and whether
they are well formed.
-/

namespace Bundling.Syntax.Recognizer

/-- Reads a token that starts with `>` as a closing bracket alone. -/
def splitGreater : Recognizer Unit := do
  let t ← token
  match t.lexeme, t.start with
  | .mark _, '>' :: rest => setToken (some { t with lexeme := .mark .greater, rest := rest })
  | _, _ => pure ()

/-- Reads `<<` as an opening bracket alone. -/
def splitLess : Recognizer Unit := do
  let t ← token
  if t.lexeme = .mark .shiftLeft then
    setToken (some { t with lexeme := .mark .less, rest := t.start.drop 1 })

def typ : Recognizer Unit := rule_ .typ

def inConditional (allowed : Bool) : Recognizer Unit → Recognizer Unit :=
  inContext fun c => { c with noConditionalType := !allowed }

/-- `: type`, if there. -/
def typeAnnotation? : Recognizer Unit := do
  if ← withTypes then
    if ← eatMark .colon then inConditional true typ

/-- `: type` of a result, which may be a predicate. -/
def returnAnnotation? : Recognizer Bool := do
  if ← withTypes then
    if ← eatMark .colon then
      inConditional true (rule_ .returnType)
      pure true
    else pure false
  else pure false

/-- Type arguments after a name on the same line. -/
def typeArguments? : Recognizer Unit := do
  unless ← afterNewline do
    splitLess
    if ← atMark .less then rule_ .typeArguments

def typeParameters? : Recognizer Unit := do
  if ← withTypes then
    if ← atMark .less then rule_ .typeParameters

/-- `<A, B>`. -/
def typeArguments : Recognizer Unit := do
  splitLess
  expectMark .less
  splitGreater
  blemishIf (← atMark .greater)
  let _ ← commaList .greater (do inConditional true typ; splitGreater)
  expectMark .greater

/-- `<const in out A extends B = C>`. -/
def typeParameters : Recognizer Unit := do
  expectMark .less
  splitGreater
  blemishIf (← atMark .greater)
  let _ ← commaList .greater do
    repeatWhile do
      let modifier := (← atWord "const") || (← atWord "in") || (← atWord "out")
      if modifier && (← peekHolds (do advance; atAnyWord)) then
        if (← atWord "out") && (← peekHolds (do advance; atWord "extends")) then pure false
        else
          advance
          pure true
      else pure false
    discard bindingName
    if ← eatWord "extends" then inConditional true typ
    if ← eatMark .assign then inConditional true typ
    splitGreater
  expectMark .greater

/-- A name with further names after dots. -/
def entityName : Recognizer Unit := do
  unless (← eatWord "this") do
    if (← atWord "const") || (← atBindable) then advance else stop
  repeatWhile do
    if ← eatMark .dot then
      match ← lexeme with
      | .privateName _ => advance
      | _ => discard anyWord
      pure true
    else pure false

/-- `import("...")`, with names and arguments after it. -/
def importType : Recognizer Unit := do
  expectWord "import"
  expectMark .leftParen
  typ
  if ← eatMark .comma then
    unless ← atMark .rightParen do
      rule_ (.assignment true)
      discard (eatMark .comma)
  expectMark .rightParen
  repeatWhile do
    if ← eatMark .dot then
      discard anyWord
      pure true
    else pure false
  typeArguments?

/-- Whether a bracket starts the parameters of a function type. -/
def startsFunctionType : Recognizer Bool := peekHolds do
  advance
  if (← atMark .rightParen) || (← atMark .ellipsis) then pure true
  else
    repeatWhile do
      match ← word? with
      | some w =>
        if isModifier w && (← peekHolds (do
            advance
            pure ((← atAnyWord) || (← atMark .leftBrace) || (← atMark .leftBracket)))) then
          advance
          pure true
        else pure false
      | none => pure false
    let skipped ← do
      if (← atWord "this") || (← atBindable) then
        advance
        pure true
      else if (← atMark .leftBracket) || (← atMark .leftBrace) then
        rule_ .bindingTarget
        pure true
      else pure false
    if !skipped then pure false
    else match ← lexeme with
      | .mark .colon | .mark .comma | .mark .question | .mark .assign => pure true
      | .mark .rightParen =>
        advance
        atMark .arrow
      | _ => pure false

/-- Type parameters, parameters and, after `mark`, a result. -/
def signature (mark : Mark) (needed : Bool) : Recognizer Unit := do
  typeParameters?
  rule_ .parameters
  if ← eatMark mark then rule_ .returnType
  else if needed then stop

/-- A member of an object type ends with a semicolon, a comma or a line. -/
def endMember : Recognizer Unit := do
  unless ← eatMark .comma do
    unless ← eatMark .semicolon do
      unless (← atMark .rightBrace) || (← afterNewline) do stop

/-- `[key: type]: type`. -/
def atIndexSignature : Recognizer Bool := do
  if ← atMark .leftBracket then
    peekHolds do
      advance
      if (← atMark .ellipsis) || (← atMark .rightBracket) then pure true
      else if ← atBindable then
        advance
        if (← atMark .colon) || (← atMark .comma) then pure true
        else if ← eatMark .question then
          pure ((← atMark .colon) || (← atMark .comma) || (← atMark .rightBracket))
        else pure false
      else pure false
  else pure false

def indexSignature : Recognizer Unit := do
  expectMark .leftBracket
  discard bindingName
  expectMark .colon
  typ
  expectMark .rightBracket
  expectMark .colon
  typ

/-- Whether a name follows on the same line, so that the current word is a modifier of it. -/
def modifiesNext : Recognizer Bool := peekHolds do
  advance
  if ← afterNewline then pure false
  else match ← lexeme with
    | .word .. | .privateName _ | .string _ | .number => pure true
    | .mark .leftBracket | .mark .leftBrace | .mark .star | .mark .ellipsis => pure true
    | _ => pure false

/-- A member of an object type or interface. -/
def typeMember : Recognizer Unit := do
  if (← atMark .leftParen) || (← atMark .less) then
    signature .colon false
    endMember
  else if (← atWord "new") && (← peekHolds (do
      advance
      pure ((← atMark .leftParen) || (← atMark .less)))) then
    advance
    signature .colon false
    endMember
  else
    repeatWhile do
      if (← atWord "readonly") && (← modifiesNext) then
        advance
        pure true
      else pure false
    if ← atIndexSignature then
      indexSignature
      endMember
    else
      if ((← atWord "get") || (← atWord "set")) && (← modifiesNext) then advance
      rule_ .propertyName
      discard (eatMark .question)
      if (← atMark .leftParen) || (← atMark .less) then signature .colon false
      else typeAnnotation?
      endMember

/-- The members of an object type between braces. -/
def typeMembers : Recognizer Unit := do
  expectMark .leftBrace
  repeatWhile do
    if (← atMark .rightBrace) || (← lexeme) = .eof then pure false
    else
      typeMember
      pure true
  expectMark .rightBrace

/-- Whether a brace starts a mapped type. -/
def startsMappedType : Recognizer Bool := peekHolds do
  advance
  if (← atMark .plus) || (← atMark .minus) then
    advance
    atWord "readonly"
  else
    if ← atWord "readonly" then advance
    if ← eatMark .leftBracket then
      if ← atBindable then
        advance
        atWord "in"
      else pure false
    else pure false

/-- A mark of adding or removing before a modifier. -/
def modifierSign : Recognizer Unit := do
  unless ← eatMark .plus do discard (eatMark .minus)

/-- `{ readonly [K in T as U]?: V }`. -/
def mappedType : Recognizer Unit := do
  expectMark .leftBrace
  unless ← atMark .leftBracket do
    modifierSign
    expectWord "readonly"
  expectMark .leftBracket
  discard bindingName
  expectWord "in"
  typ
  if ← eatWord "as" then typ
  expectMark .rightBracket
  unless (← atMark .colon) || (← atMark .semicolon) || (← atMark .rightBrace) do
    unless ← afterNewline do
      modifierSign
      expectMark .question
  if ← eatMark .colon then typ
  unless ← eatMark .semicolon do
    unless (← atMark .rightBrace) do discard (eatMark .comma)
  expectMark .rightBrace

/-- An element of a tuple: named or not, optional, or spread. -/
def tupleElement : Recognizer Unit := do
  let named ← peekHolds do
    discard (eatMark .ellipsis)
    if ← atAnyWord then
      advance
      if ← eatMark .question then atMark .colon else atMark .colon
    else pure false
  discard (eatMark .ellipsis)
  if named then
    discard anyWord
    discard (eatMark .question)
    expectMark .colon
    typ
  else typ
  discard (eatMark .question)

/-- A template type: types between the pieces. -/
def templateType : Recognizer Unit := do
  let rec pieces : Nat → Recognizer Unit
    | 0 => stop
    | n + 1 => do
      match ← lexeme with
      | .template _ _ true => advance
      | .template _ _ false =>
        advance
        typ
        let t ← token
        if t.lexeme = .mark .rightBrace then
          match Lexer.templateBody? [] true t.rest with
          | some (l, rest) =>
            setToken (some { t with lexeme := l, rest := rest })
            pieces n
          | none => stop
        else stop
      | _ => stop
  pieces (← read).limit

/-- A type without postfix brackets. -/
def primaryType : Recognizer Unit := do
  match ← lexeme with
  | .string _ | .number => advance
  | .template .. => templateType
  | .mark .minus =>
    advance
    if (← lexeme) = .number then advance else stop
  | .mark .leftBrace => if ← startsMappedType then mappedType else typeMembers
  | .mark .leftBracket =>
    advance
    let _ ← commaList .rightBracket tupleElement
    expectMark .rightBracket
  | .mark .leftParen =>
    advance
    typ
    expectMark .rightParen
  | .word "import" _ => importType
  | .word "typeof" _ =>
    advance
    if ← atWord "import" then importType
    else
      entityName
      typeArguments?
  | .word "this" _ =>
    advance
    if (← atWord "is") && !(← afterNewline) then
      advance
      typ
  | .word "asserts" _ =>
    let predicate ← peekHolds do
      advance
      pure (!(← afterNewline) && ((← atWord "this") || (← atBindable)))
    if predicate then
      advance
      advance
      if ← eatWord "is" then typ
    else
      entityName
      typeArguments?
  | .word "void" _ | .word "null" _ | .word "true" _ | .word "false" _ => advance
  | .word .. =>
    entityName
    typeArguments?
  | _ => stop

/-- A type with arrays and indexed accesses after it. -/
def postfixType : Recognizer Unit := do
  primaryType
  repeatWhile do
    if (← atMark .leftBracket) && !(← afterNewline) then
      advance
      unless ← atMark .rightBracket do typ
      expectMark .rightBracket
      pure true
    else pure false

/-- `infer T`, with a bound unless the bound would end a condition. -/
def inferType : Recognizer Unit := do
  advance
  discard bindingName
  let bounded ← peekHolds do
    if ← eatWord "extends" then
      inConditional false typ
      pure ((← context).noConditionalType || !(← atMark .question))
    else pure false
  if bounded then
    advance
    inConditional false typ

/-- A type under operators. -/
def operatorType : Recognizer Unit := do
  let operator := (← atWord "keyof") || (← atWord "unique") || (← atWord "readonly")
  let prefixed ← if operator then peekHolds (do
      advance
      match ← lexeme with
      | .word w _ => pure (w != "extends" && w != "is")
      | .mark .leftBrace | .mark .leftBracket | .mark .leftParen => pure true
      | .string _ | .number | .template .. => pure true
      | _ => pure false)
    else pure false
  if prefixed then
    repeatWhile do
      if (← atWord "keyof") || (← atWord "unique") || (← atWord "readonly") then
        advance
        pure true
      else pure false
    if ← atWord "infer" then inferType else inConditional true postfixType
  else if (← atWord "infer") && (← peekHolds (do advance; atBindable)) then inferType
  else inConditional true postfixType

/-- Whether a function or constructor type starts here. -/
def atFunctionType : Recognizer Bool := do
  if ← atMark .less then pure true
  else if ← atMark .leftParen then startsFunctionType
  else if ← atWord "new" then pure true
  else if ← atWord "abstract" then peekHolds (do advance; atWord "new")
  else pure false

def functionType : Recognizer Unit := do
  discard (eatWord "abstract")
  discard (eatWord "new")
  signature .arrow true

/-- Types joined by a mark, which may also stand before the first. -/
def joinedBy (mark : Mark) (operand : Recognizer Unit) : Recognizer Unit := do
  discard (eatMark mark)
  if ← atFunctionType then functionType else operand
  repeatWhile do
    if ← eatMark mark then
      if ← atFunctionType then functionType else operand
      pure true
    else pure false

/-- A type. -/
def typeRule : Recognizer Unit := do
  if ← atFunctionType then functionType
  else
    joinedBy .bitOr (joinedBy .bitAnd operatorType)
    unless (← context).noConditionalType do
      unless ← afterNewline do
        if ← eatWord "extends" then
          inConditional false typ
          expectMark .question
          inConditional true typ
          expectMark .colon
          inConditional true typ

/-- The type of a result: a type, or a predicate about a parameter. -/
def returnTypeRule : Recognizer Unit := do
  let predicate ← peekHolds do
    if ← atBindable then
      advance
      pure ((← atWord "is") && !(← afterNewline))
    else pure false
  if predicate then
    advance
    advance
  typ

end Bundling.Syntax.Recognizer
