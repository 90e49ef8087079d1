import Bundling.Syntax.Function

/-!
# Declarations

Variables, functions and classes, and what only typed sources declare: interfaces, names for types,
enumerations and namespaces. Declared names are recorded, for the case that they are exported.
-/

namespace Bundling.Syntax.Recognizer

/-- How variables are declared. -/
inductive VariableKind where
  | var
  | let
  | const
  | using
  deriving DecidableEq

/-- One variable; gives whether it lacks a value that it needs outside the head of a loop. -/
def declarator (kind : VariableKind) : Recognizer Bool := do
  let pattern := (← atMark .leftBrace) || (← atMark .leftBracket)
  blemishIf (kind = .using && pattern)
  rule_ .bindingTarget
  if ← withTypes then
    unless pattern do discard (eatMark .bang)
    typeAnnotation?
  if ← eatMark .assign then
    discard assignmentExpression
    pure false
  else pure (kind = .const || kind = .using || pattern)

/-- Variables with commas between them, after their keyword; gives whether one lacks its value. -/
def declarators (kind : VariableKind) : Recognizer Bool := do
  let rec more : Nat → Bool → Recognizer Bool
    | 0, _ => stop
    | n + 1, lacking => do
      if ← eatMark .comma then
        let l ← declarator kind
        more n (lacking || l)
      else pure lacking
  more (← read).limit (← declarator kind)

/-- A declaration of variables up to its end. -/
def variableDeclaration (kind : VariableKind) : Recognizer Unit := do
  let lacking ← declarators kind
  blemishIf (lacking && !(← context).ambient)
  endStatement

/-- Whether `let` declares something here: a word or a pattern follows. -/
def letDeclares : Recognizer Bool := do
  match ← lexeme with
  | .word "let" false => peekHolds do
      advance
      match ← lexeme with
      | .word w _ => pure (w != "in")
      | .mark .leftBrace | .mark .leftBracket => pure true
      | _ => pure false
  | _ => pure false

/-- Whether `using` declares something here: a name follows on the same line. -/
def usingDeclares : Recognizer Bool := do
  if ← atWord "using" then
    peekHolds do
      advance
      pure (!(← afterNewline) && (← atBindable))
  else pure false

/-- Whether `await using` declares something here. -/
def awaitUsingDeclares : Recognizer Bool := do
  if (← atWord "await") && (← context).await then
    peekHolds do
      advance
      if ← afterNewline then pure false else usingDeclares
  else pure false

/-! ## Functions and classes -/

/-- Records the name that a function or class has. -/
def bindName (s : Shape) : Recognizer Unit := do
  match s.form with
  | .identifier w => bind w
  | _ => pure ()

def functionDeclaration (kind : FunctionKind) (async : Bool) : Recognizer Unit := do
  advanceKeyword
  bindName (← rule (.functionRest kind async))

def classDeclaration : Recognizer Unit := do
  advanceKeyword
  bindName (← rule .classRest)

/-! ## Typed declarations -/

def interfaceDeclaration : Recognizer Unit := do
  advance
  discard bindingName
  typeParameters?
  repeatWhile do
    if ← eatWord "extends" then
      entityName
      typeArguments?
      repeatWhile do
        if ← eatMark .comma then
          entityName
          typeArguments?
          pure true
        else pure false
      pure true
    else pure false
  typeMembers

def typeDeclaration : Recognizer Unit := do
  advance
  discard bindingName
  typeParameters?
  expectMark .assign
  typ
  endStatement

/-- A member of an enumeration. -/
def enumMember : Recognizer Unit := do
  match ← lexeme with
  | .word .. | .string _ => advance
  | .mark .leftBracket =>
    advance
    match ← lexeme with
    | .string _ => advance
    | .template _ _ true => advance
    | _ => stop
    expectMark .rightBracket
  | _ => stop
  if ← eatMark .assign then discard (withIn assignmentExpression)

def enumDeclaration : Recognizer Unit := do
  advanceKeyword
  discard bindingName
  expectMark .leftBrace
  let _ ← commaList .rightBrace enumMember
  expectMark .rightBrace

/-- A namespace after its keyword. A module named by a string may lack its body. -/
def namespaceRest : Recognizer Unit := do
  match ← lexeme with
  | .string _ =>
    advance
    if ← atMark .leftBrace then rule_ .block else endStatement
  | _ =>
    discard bindingName
    repeatWhile do
      if ← eatMark .dot then
        discard anyWord
        pure true
      else pure false
    rule_ .block

/-- The target of an alias after its `=`. -/
def aliasTarget : Recognizer Unit := do
  if (← atWord "require") && (← peekHolds (do advance; atMark .leftParen)) then
    advance
    expectMark .leftParen
    match ← lexeme with
    | .string _ => advance
    | _ => stop
    expectMark .rightParen
  else entityName
  endStatement

/-- Words that modify a declaration as a whole. -/
def declarationModifiers : List String :=
  ["declare", "abstract", "async", "accessor", "private", "protected", "public", "readonly", "static"]

/-- Whether a declaration starts here once its modifiers are passed. -/
def declarationAhead : Recognizer Bool := do
  let rec go : Nat → Recognizer Bool
    | 0 => stop
    | n + 1 => do
      match ← word? with
      | some w =>
        match w with
        | "var" | "let" | "const" | "function" | "class" | "enum" => pure true
        | "interface" | "type" =>
          advance
          pure ((← atBindable) && !(← afterNewline))
        | "module" | "namespace" =>
          advance
          if ← afterNewline then pure false
          else match ← lexeme with
            | .string _ => pure true
            | _ => atBindable
        | "global" =>
          advance
          pure ((← atMark .leftBrace) || (← atAnyWord))
        | "import" =>
          advance
          match ← lexeme with
          | .string _ | .mark .star | .mark .leftBrace => pure true
          | _ => atBindable
        | _ =>
          if declarationModifiers.contains w then
            advance
            if ← afterNewline then pure false else go n
          else pure false
      | none => pure false
  peekHolds (do go (← read).limit)

/-- A declaration without modifiers; `modifiers` are those passed before. -/
def plainDeclaration (modifiers : List String) : Recognizer Unit := do
  let types ← withTypes
  match ← word? with
  | some w =>
    blemishIf (modifiers.contains "abstract" && w != "class")
    blemishIf (modifiers.contains "async" && w != "function")
    match w with
    | "var" =>
      advanceKeyword
      variableDeclaration .var
    | "let" =>
      advanceKeyword
      variableDeclaration .let
    | "const" =>
      advanceKeyword
      if types && (← atWord "enum") then enumDeclaration else variableDeclaration .const
    | "function" => functionDeclaration .declaration (modifiers.contains "async")
    | "class" => classDeclaration
    | _ =>
      if !types then stop
      match w with
      | "interface" => interfaceDeclaration
      | "type" => typeDeclaration
      | "enum" => enumDeclaration
      | "module" | "namespace" =>
        advance
        namespaceRest
      | "global" =>
        advance
        rule_ .block
      | "import" =>
        advance
        discard bindingName
        expectMark .assign
        aliasTarget
      | _ => stop
  | none => stop

/-- A declaration with its modifiers. -/
def declaration : Recognizer Unit := do
  let rec modifiers : Nat → List String → Recognizer (List String)
    | 0, _ => stop
    | n + 1, seen => do
      match ← word? with
      | some w =>
        let modifies ← if w = "async" then atAsyncFunction else
          pure ((← withTypes) && declarationModifiers.contains w)
        if modifies then
          blemishIf (seen.contains w || w ∉ ["declare", "abstract", "async"])
          advance
          modifiers n (w :: seen)
        else pure seen
      | none => pure seen
  let seen ← modifiers (← read).limit []
  inContext (fun c => { c with ambient := c.ambient || seen.contains "declare" })
    (plainDeclaration seen)

end Bundling.Syntax.Recognizer
