import Bundling.Syntax.Declaration

/-!
# Imports and exports

Every specifier that an import or export names is requested, also where only types are meant.
-/

namespace Bundling.Syntax.Recognizer

/-- The specifier that an import or export names, with its attributes. -/
def requestedSource : Recognizer Unit := do
  match ← lexeme with
  | .string v =>
    request v
    advance
    attributesOfRequest
  | _ => stop
where
  /-- `with { key: "value" }`; a key may stand there once. -/
  attributesOfRequest : Recognizer Unit := do
    let marked := (← atWord "with") || ((← atWord "assert") && !(← afterNewline))
    if marked then
      advance
      expectMark .leftBrace
      let rec entries : Nat → List String → Recognizer Unit
        | 0, _ => stop
        | n + 1, seen => do
          if ← atMark .rightBrace then pure ()
          else
            let key ← match ← lexeme with
              | .word w _ => pure w
              | .string v => pure v
              | _ => stop
            blemishIf (seen.contains key)
            advance
            expectMark .colon
            match ← lexeme with
            | .string _ => advance
            | _ => stop
            unless ← atMark .rightBrace do expectMark .comma
            entries n (key :: seen)
      entries (← read).limit []
      expectMark .rightBrace

/-- A name between modules: a word or a string. -/
inductive LinkName where
  | word (text : String)
  | string (text : String)

namespace LinkName

def text : LinkName → String
  | word t => t
  | string t => t

/-- Whether the name can be one of a binding. -/
def isBinding : LinkName → Bool
  | word t => isBindable t
  | string _ => false

/-- Whether the name can refer to a binding of the module. -/
def isReference : LinkName → Bool
  | word t => !isReserved t && !strictWords.contains t
  | string _ => false

end LinkName

def atLinkName : Recognizer Bool := do
  match ← lexeme with
  | .word .. | .string _ => pure true
  | _ => pure false

def linkName : Recognizer LinkName := do
  match ← lexeme with
  | .word w _ =>
    advance
    pure (.word w)
  | .string v =>
    advance
    pure (.string v)
  | _ => stop

/-- One entry between braces: its first and its last name. In typed sources `type` may stand in front
of an entry, though it may also be a name itself. -/
def linkEntry : Recognizer (LinkName × LinkName) := do
  let first ← linkName
  let plain (name : LinkName) : Recognizer (LinkName × LinkName) := do
    if ← eatWord "as" then pure (name, ← linkName) else pure (name, name)
  let typed := match first with
    | .word "type" => true
    | _ => false
  if !((← withTypes) && typed) then plain first
  else if ← atWord "as" then
    advance
    if ← atWord "as" then
      advance
      if ← atLinkName then pure (.word "as", ← linkName) else pure (first, .word "as")
    else if ← atLinkName then pure (first, ← linkName)
    else pure (.word "as", .word "as")
  else if ← atLinkName then plain (← linkName)
  else pure (first, first)

/-! ## Imports -/

/-- The imported names between braces. -/
def importedNames : Recognizer Unit := do
  expectMark .leftBrace
  let _ ← commaList .rightBrace do
    let (_, localName) ← linkEntry
    unless localName.isBinding do stop
    checkName localName.text (← context)
  expectMark .rightBrace

def importedNamespace : Recognizer Unit := do
  expectMark .star
  expectWord "as"
  discard bindingName

/-- What an import binds, up to its `from`. -/
def importClause : Recognizer Unit := do
  match ← lexeme with
  | .mark .star => importedNamespace
  | .mark .leftBrace => importedNames
  | _ =>
    discard bindingName
    if ← eatMark .comma then
      if ← atMark .star then importedNamespace else importedNames
  expectWord "from"

/-- Whether the current word is a mark in front of the clause rather than its default name. -/
def marksClause : Recognizer Bool := peekHolds do
  advance
  match ← lexeme with
  | .mark .leftBrace | .mark .star => pure true
  | .word "from" _ =>
    advance
    match ← lexeme with
    | .word "from" _ => pure true
    | .mark .assign => pure true
    | _ => pure false
  | .word w _ => pure (isBindable w)
  | _ => pure false

/-- An import after its keyword. -/
def importRest : Recognizer Unit := do
  match ← lexeme with
  | .string _ =>
    requestedSource
    endStatement
  | _ =>
    let types ← withTypes
    if types && (← atWord "type") && (← marksClause) then advance
    else if (← atWord "defer") && (← peekHolds (do advance; atMark .star)) then advance
    else if (← atWord "source") && (← marksClause) &&
        !(← peekHolds (do advance; pure ((← atMark .star) || (← atMark .leftBrace)))) then
      advance
    if types && (← atBindable) && (← peekHolds (do advance; atMark .assign)) then
      advance
      advance
      aliasTarget
    else
      importClause
      requestedSource
      endStatement

/-! ## Exports -/

/-- Exports between braces, and the specifier they come from, if any. -/
def exportedNames : Recognizer Unit := do
  expectMark .leftBrace
  let rec entries : Nat → Bool → Recognizer Bool
    | 0, _ => stop
    | n + 1, referring => do
      if ← atMark .rightBrace then pure referring
      else
        let (localName, exported) ← linkEntry
        exportName exported.text
        unless ← atMark .rightBrace do expectMark .comma
        entries n (referring && localName.isReference)
  let referring ← entries (← read).limit true
  expectMark .rightBrace
  if ← eatWord "from" then requestedSource else blemishIf (!referring)
  endStatement

/-- `*`, with or without a name, from a specifier. -/
def exportedAll : Recognizer Unit := do
  expectMark .star
  if ← eatWord "as" then exportName (← linkName).text
  expectWord "from"
  requestedSource
  endStatement

/-- The default export after its keyword. -/
def exportedDefault : Recognizer Unit := do
  exportName "default"
  let types ← withTypes
  rule_ .decorators
  match ← word? with
  | some "class" => classDeclaration
  | some "function" => functionDeclaration .defaultExport false
  | w? =>
    if ← atAsyncFunction then
      advance
      functionDeclaration .defaultExport true
    else if types && w? = some "abstract" &&
        (← peekHolds (do advance; pure ((← atWord "class") && !(← afterNewline)))) then
      advance
      classDeclaration
    else if types && w? = some "interface" &&
        (← peekHolds (do advance; pure ((← atBindable) && !(← afterNewline)))) then
      interfaceDeclaration
    else
      discard assignmentExpression
      endStatement

/-- A declaration that is exported with all the names it declares. -/
def exportedDeclaration : Recognizer Unit := do
  rule_ .decorators
  let outer := (← get).bound
  modify fun s => { s with bound := [] }
  declaration
  let names := (← get).bound
  modify fun s => { s with bound := outer }
  names.reverse.forM exportName

/-- An export after its keyword. -/
def exportRest : Recognizer Unit := do
  let types ← withTypes
  match ← lexeme with
  | .mark .leftBrace => exportedNames
  | .mark .star => exportedAll
  | .mark .assign =>
    unless types do stop
    advance
    rule_ .expression
    endStatement
  | .word "default" _ =>
    advanceKeyword
    exportedDefault
  | .word "as" _ =>
    unless types do stop
    advance
    expectWord "namespace"
    discard bindingName
    endStatement
  | .word "type" _ =>
    let next ← peek (do advance; lexeme)
    match types, next with
    | true, some (.mark .leftBrace) =>
      advance
      exportedNames
    | true, some (.mark .star) =>
      advance
      exportedAll
    | _, _ => exportedDeclaration
  | .word "import" _ =>
    unless types do stop
    advance
    if (← atWord "type") && (← peekHolds (do advance; atBindable)) then advance
    discard bindingName
    expectMark .assign
    aliasTarget
  | _ => exportedDeclaration

end Bundling.Syntax.Recognizer
