import Bundling.Syntax.Pattern

/-!
# Expressions

Operators are read by climbing levels of precedence. An expression leaves a `Shape` behind, from which
the rules around it decide whether it can be assigned to, mixed with other operators, or be what a
call of `require` names.
-/

namespace Bundling.Syntax.Recognizer

/-- How tightly a binary operator binds; `none` for what is no binary operator here. -/
def binaryLevel (types inOperator : Bool) : Lexeme → Option Nat
  | .mark .nullish => some 1
  | .mark .orOr => some 2
  | .mark .andAnd => some 3
  | .mark .bitOr => some 4
  | .mark .bitXor => some 5
  | .mark .bitAnd => some 6
  | .mark .equal | .mark .notEqual | .mark .same | .mark .notSame => some 7
  | .mark .less | .mark .greater | .mark .lessEqual | .mark .greaterEqual => some 8
  | .word "instanceof" _ => some 8
  | .word "in" _ => if inOperator then some 8 else none
  | .word "as" _ | .word "satisfies" _ => if types then some 8 else none
  | .mark .shiftLeft | .mark .shiftRight | .mark .shiftRightZero => some 9
  | .mark .plus | .mark .minus => some 10
  | .mark .star | .mark .slash | .mark .percent => some 11
  | .mark .power => some 12
  | _ => none

/-- The form of the result of a binary operator. -/
def binaryForm : Lexeme → Form
  | .mark .nullish => .coalesce
  | .mark .orOr | .mark .andAnd => .disjunction
  | _ => .other

/-- What remains assignable behind a type assertion. -/
def behindAssertion (s : Shape) : Shape :=
  { form := .other, target := if s.target = .simple then .simple else .never }

/-- The operators after an operand that bind tighter than `level`. -/
def binaryRest : Nat → Nat → Shape → Recognizer Shape
  | 0, _, _ => stop
  | n + 1, level, left => do
    joinGreater
    let c ← context
    let types ← withTypes
    let operator ← lexeme
    match binaryLevel types c.inOperator operator with
    | none => pure left
    | some tight =>
      let ends := if operator = .mark .power then tight < level else tight ≤ level
      if ends then pure left
      else
        let assertion := match operator with
          | .word w _ => w == "as" || w == "satisfies"
          | _ => false
        if assertion then
          if ← afterNewline then pure left
          else
            advance
            typ
            binaryRest n level (behindAssertion left)
        else
          advanceKeyword
          let right ← rule (.binary tight)
          let mixes (s : Shape) (f : Form) : Bool := !s.parenthesized && s.form = f
          match operator with
          | .mark .nullish => blemishIf (mixes left .disjunction || mixes right .disjunction)
          | .mark .orOr | .mark .andAnd =>
            blemishIf (mixes left .coalesce || mixes right .coalesce)
          | .mark .power => blemishIf (mixes left .unary)
          | _ => pure ()
          binaryRest n level { form := binaryForm operator }

/-- Operators above `level` and their operands. -/
def binaryRule (level : Nat) : Recognizer Shape := do
  let c ← context
  let left ← match ← lexeme with
    | .privateName _ =>
      if c.inOperator then
        advance
        expectWord "in"
        discard (rule (.binary 8))
        pure {}
      else stop
    | _ => rule .unary
  binaryRest (← read).limit level left

/-! ## Unary operators -/

/-- Whether a word or literal follows on the same line. -/
def wordOrLiteralFollows : Recognizer Bool := peekHolds do
  advance
  if ← afterNewline then pure false
  else match ← lexeme with
    | .word .. | .number | .string _ => pure true
    | _ => pure false

/-- Whether `await` is an operator here. Before a word or literal it is taken for one even where the
surroundings do not admit it. -/
def atAwait : Recognizer Bool := do
  if ← atWord "await" then
    if (← context).await then pure true
    else if ← wordOrLiteralFollows then stop
    else pure false
  else pure false

def atUnaryOperator : Recognizer Bool := do
  match ← lexeme with
  | .mark .plus | .mark .minus | .mark .tilde | .mark .bang => pure true
  | .word w _ => pure (w == "delete" || w == "void" || w == "typeof")
  | _ => pure false

def atUpdate : Recognizer Bool := return (← atMark .increment) || (← atMark .decrement)

/-- A unary expression, or an operand with `++` or `--`. -/
def unaryRule : Recognizer Shape := do
  if ← atUpdate then
    advance
    assignSimple (← rule .unary)
    pure {}
  else if ← atUnaryOperator then
    advanceKeyword
    discard (rule .unary)
    pure { form := .unary }
  else if ← atMark .less then
    if (← dialect).markup then
      rule_ .markup
      expectMark .greater
      pure {}
    else if ← withTypes then
      advance
      if ← eatWord "const" then pure () else typ
      splitGreater
      expectMark .greater
      pure (behindAssertion (← rule .unary))
    else stop
  else if ← atAwait then
    advanceKeyword
    discard (inContext (fun c => { c with await := true }) (rule .unary))
    pure { form := .unary }
  else
    let operand ← rule .leftHandSide
    if (← atUpdate) && !(← afterNewline) then
      assignSimple operand
      advance
      pure {}
    else pure operand

/-! ## Calls and members -/

/-- Whether an expression may start with the current token. -/
def startsExpression : Recognizer Bool := do
  match ← lexeme with
  | .word w _ =>
    pure (!isReserved w || ["await", "class", "delete", "false", "function", "import", "new", "null",
      "super", "this", "true", "typeof", "void", "yield"].contains w)
  | .number | .string _ | .template .. | .regex | .privateName _ => pure true
  | .mark m =>
    pure ([Mark.leftParen, .leftBracket, .leftBrace, .plus, .minus, .tilde, .bang, .increment,
      .decrement, .less, .slash, .slashAssign, .at].contains m)
  | _ => pure false

/-- Whether what stands after type arguments lets them be type arguments. -/
def followsTypeArguments : Recognizer Bool := do
  match ← lexeme with
  | .mark .leftParen | .template .. => pure true
  | .mark .less | .mark .greater | .mark .plus | .mark .minus => pure false
  | l =>
    if ← afterNewline then pure true
    else if (binaryLevel (← withTypes) (← context).inOperator l).isSome then pure true
    else pure !(← startsExpression)

/-- Type arguments inside an expression, if they can be read as such. -/
def expressionTypeArguments? : Recognizer Bool := do
  if (← withTypes) && ((← atMark .less) || (← atMark .shiftLeft)) then
    let read ← attempt do
      splitLess
      expectMark .less
      let _ ← commaList .greater (do inConditional true typ; splitGreater)
      let t ← token
      if (Lexer.greaterMark t.start).1 = .greaterEqual then stop
      expectMark .greater
      unless ← followsTypeArguments do stop
    pure read.isSome
  else pure false

/-- A name after a dot. -/
def memberName : Recognizer Unit := do
  match ← lexeme with
  | .privateName _ | .word .. => advance
  | _ => stop

def isChain (s : Shape) : Bool := s.form = .chain && !s.parenthesized

/-- A member of `s`, which belongs to the chain if `s` does. -/
def memberOf (s : Shape) : Shape :=
  if isChain s then { form := .chain } else { form := .member, target := .simple }

/-- `[expression]` after its opening bracket. -/
def computedMember : Recognizer Unit := do
  expectMark .leftBracket
  withIn (rule_ .expression)
  expectMark .rightBracket

/-- Members, templates and type arguments after an operand. -/
def memberRest : Nat → Shape → Recognizer Shape
  | 0, _ => stop
  | n + 1, s => do
    let c ← context
    match ← lexeme with
    | .mark .dot =>
      advance
      memberName
      memberRest n (memberOf s)
    | .mark .leftBracket =>
      if c.decorator then pure s
      else
        computedMember
        memberRest n (memberOf s)
    | .mark .optionalDot =>
      let follows ← peek (do advance; lexeme)
      match follows with
      | some (.mark .leftBracket) =>
        if c.decorator then pure s
        else
          advance
          computedMember
          memberRest n { form := .chain }
      | some (.privateName _) | some (.word ..) =>
        advance
        memberName
        memberRest n { form := .chain }
      | _ => pure s
    | .mark .bang =>
      if (← withTypes) && !(← afterNewline) then
        advance
        memberRest n { s with
          form := if isChain s then .chain else .other
          target := if s.target = .simple then .simple else .never
          parenthesized := false }
      else pure s
    | .template .. =>
      if isChain s then stop
      else
        rule_ (.template true)
        memberRest n {}
    | .mark .less | .mark .shiftLeft =>
      if ← expressionTypeArguments? then
        match ← lexeme with
        | .mark .leftParen | .template .. => memberRest n s
        | _ => memberRest n { form := .instantiation }
      else pure s
    | _ => pure s

/-- Records what a call asks for: the one string given to a plain `require`. -/
def requestOfCall (callee argument : Shape) : Recognizer Unit := do
  if callee.form = .identifier "require" && !callee.parenthesized && !argument.parenthesized then
    match argument.form with
    | .string v => request v
    | .plainTemplate raw => if (← read).templates then request raw
    | _ => pure ()

/-- Calls and members after an operand. -/
def callRest : Nat → Shape → Recognizer Shape
  | 0, _ => stop
  | n + 1, s => do
    let s ← memberRest n s
    let optional ← eatMark .optionalDot
    if optional then
      let _ ← expressionTypeArguments?
    if ← atMark .leftParen then
      let argument ← rule .arguments
      requestOfCall s argument
      callRest n { form := if optional || isChain s then .chain else .call }
    else if optional then
      match ← lexeme with
      | .template .. => stop
      | _ => stop
    else pure s

/-- Arguments between brackets; gives the shape of the only one. -/
def argumentsRule : Recognizer Shape := do
  expectMark .leftParen
  let first ← inContext (fun c => { c with inOperator := true, decorator := false }) do
    let rec items : Nat → Nat → Shape → Recognizer (Nat × Shape)
      | 0, _, _ => stop
      | n + 1, count, only => do
        if ← atMark .rightParen then pure (count, only)
        else
          let s ← if ← eatMark .ellipsis then do
              discard assignmentExpression
              pure {}
            else assignmentExpression
          unless ← atMark .rightParen do expectMark .comma
          items n (count + 1) s
    items (← read).limit 0 {}
  expectMark .rightParen
  pure (if first.1 = 1 then first.2 else {})

/-- `import(...)`, `import.meta` and the phased imports, after the keyword. -/
def importExpression : Recognizer Shape := do
  if ← eatMark .dot then
    if ← atWord "meta" then
      advance
      pure { form := .other }
    else if (← atWord "source") || (← atWord "defer") then
      advance
      unless ← atMark .leftParen do stop
      dynamicImport
    else stop
  else dynamicImport
where
  dynamicImport : Recognizer Shape := do
    expectMark .leftParen
    inContext (fun c => { c with inOperator := true, decorator := false }) do
      let source ← assignmentExpression
      match source.form with
      | .string v => unless source.parenthesized do request v
      | _ => pure ()
      if ← eatMark .comma then
        unless ← atMark .rightParen do
          discard assignmentExpression
          discard (eatMark .comma)
    expectMark .rightParen
    pure { form := .dynamicImport }

/-- `super`, which needs a member or a call after it. -/
def superExpression : Recognizer Shape := do
  advanceKeyword
  match ← lexeme with
  | .mark .dot | .mark .leftBracket | .mark .leftParen => pure {}
  | _ => stop

/-- An operand with its members and calls. -/
def leftHandSideRule : Recognizer Shape := do
  let start ← rule .primary
  callRest (← read).limit start

/-- `new`, with or without arguments, or `new.target`. -/
def newExpression : Recognizer Shape := do
  advanceKeyword
  if ← eatMark .dot then
    if ← atWord "target" then
      advance
      pure {}
    else stop
  else
    let callee ← memberRest (← read).limit (← rule .primary)
    blemishIf (isChain callee || (callee.form = .dynamicImport && !callee.parenthesized))
    if ← atMark .optionalDot then blemish
    if ← atMark .leftParen then discard (rule .arguments)
    pure { form := .other }

/-! ## Primary expressions -/

/-- Reads the current division mark as a regular expression. -/
def regularExpression : Recognizer Shape := do
  let t ← token
  match Lexer.regex? (t.start.drop 1) with
  | some rest =>
    setToken (some { t with lexeme := .regex, rest := rest })
    advance
    pure {}
  | none => stop

/-- A template: its pieces, with expressions between them. -/
def templateRule (tagged : Bool) : Recognizer Shape := do
  let check (valid : Bool) : Recognizer Unit := blemishIf (!tagged && !valid)
  let rec pieces : Nat → Recognizer Unit
    | 0 => stop
    | n + 1 => do
      match ← lexeme with
      | .template _ valid true =>
        check valid
        advance
      | .template _ valid false =>
        check valid
        advance
        inContext (fun c => { c with inOperator := true, decorator := false }) (rule_ .expression)
        let t ← token
        if t.lexeme = .mark .rightBrace then
          match Lexer.templateBody? [] true t.rest with
          | some (l, rest) =>
            setToken (some { t with lexeme := l, rest := rest })
            pieces n
          | none => stop
        else stop
      | _ => stop
  match ← lexeme with
  | .template raw _ true =>
    pieces (← read).limit
    pure { form := .plainTemplate raw }
  | _ =>
    pieces (← read).limit
    pure {}

/-- How an element of an array or the value of a property can be assigned to: as a target, or as a
target with an initial value. -/
def elementTarget (s : Shape) : Target :=
  if s.form = .assignment && !s.parenthesized then .simple else s.target

/-- The initial values that a target settles; `none` when it cannot be one. -/
def initialsOf : Target → Option (List Nat)
  | .never => none
  | .simple => some []
  | .pattern is => some is

/-- Joins the targets of two items. -/
def joinTargets (a b : Option (List Nat)) : Option (List Nat) := do
  let xs ← a
  let ys ← b
  some (xs ++ ys)

/-- A spread item: as a target it must be the last, with no comma after it. -/
def spreadTarget (close : Mark) (s : Shape) : Recognizer (Option (List Nat)) := do
  if ← atMark close then pure (initialsOf s.target) else pure none

/-- The rest of an array after its opening bracket; `targets` says what assigning to it settles. -/
def arrayItems : Nat → Option (List Nat) → Recognizer (Option (List Nat))
  | 0, _ => stop
  | n + 1, targets => do
    if ← eatMark .comma then arrayItems n targets
    else if ← eatMark .rightBracket then pure targets
    else
      let item ← if ← eatMark .ellipsis then do
          let s ← assignmentExpression
          spreadTarget .rightBracket s
        else do
          let s ← assignmentExpression
          pure (initialsOf (elementTarget s))
      unless ← atMark .rightBracket do expectMark .comma
      arrayItems n (joinTargets targets item)

def patternShape : Option (List Nat) → Shape
  | some is => { target := .pattern is }
  | none => {}

def plainContext (c : Context) : Context := { c with inOperator := true, decorator := false }

def arrayLiteral : Recognizer Shape := do
  expectMark .leftBracket
  patternShape <$> inContext plainContext do arrayItems (← read).limit (some [])

/-- The name of a property: a word, a literal, or an expression in brackets. -/
def propertyNameRule : Recognizer Unit := do
  match ← lexeme with
  | .word .. | .string _ | .number => advance
  | .mark .leftBracket =>
    advance
    discard (inContext plainContext assignmentExpression)
    expectMark .rightBracket
  | _ => stop

/-- A method from its parameters on. -/
def methodRest (async generator : Bool) : Recognizer Unit := do
  inContext (fun c => { c with
      inOperator := true, decorator := false, await := async, yield := generator }) do
    typeParameters?
    rule_ .parameters
    discard returnAnnotation?
    rule_ .functionBody

/-- The number of parameters ahead and whether one of them gathers the rest. -/
def accessorCheck (setter : Bool) : Recognizer Unit := do
  let counted ← peek do
    expectMark .leftParen
    if (← withTypes) && (← atWord "this") then
      advance
      typeAnnotation?
      discard (eatMark .comma)
    if ← atMark .rightParen then pure (0, false)
    else
      rule_ .decorators
      parameterModifiers
      if ← atMark .ellipsis then pure (1, true)
      else
        targetWithDefault
        discard (eatMark .comma)
        if ← atMark .rightParen then pure (1, false) else pure (2, false)
  match counted with
  | some (n, gathers) => blemishIf (if setter then n ≠ 1 || gathers else n ≠ 0)
  | none => stop

/-- Whether the name of a property follows, so that the current word modifies it. -/
def propertyFollows (sameLine : Bool) : Recognizer Bool := peekHolds do
  advance
  if sameLine && (← afterNewline) then pure false
  else match ← lexeme with
    | .word .. | .privateName _ | .string _ | .number => pure true
    | .mark .leftBracket | .mark .leftBrace | .mark .ellipsis | .mark .star => pure true
    | _ => pure false

/-- A property of an object; gives what assigning to it settles. -/
def objectProperty : Recognizer (Option (List Nat)) := do
  if ← eatMark .ellipsis then
    let s ← assignmentExpression
    spreadTarget .rightBrace s
  else if ((← atWord "get") || (← atWord "set")) && (← propertyFollows false) then
    let setter ← atWord "set"
    advance
    rule_ .propertyName
    accessorCheck setter
    methodRest false false
    pure none
  else
    let async ← do
      if (← atWord "async") && (← propertyFollows true) then
        advance
        pure true
      else pure false
    let generator ← eatMark .star
    let first ← lexeme
    if let .privateName _ := first then stop
    rule_ .propertyName
    if async || generator || (← atMark .leftParen) || (← atMark .less) then
      methodRest async generator
      pure none
    else if ← eatMark .colon then
      let s ← assignmentExpression
      pure (initialsOf (elementTarget s))
    else
      let c ← context
      match first with
      | .word w _ =>
        if isReserved w && !(w == "yield" && !c.yield) && !(w == "await" && !c.await) then stop
        else if ← eatMark .assign then
          discard assignmentExpression
          let i := (← get).nextInitial
          modify fun s => { s with initials := i :: s.initials, nextInitial := i + 1 }
          pure (some [i])
        else pure (some [])
      | _ => stop

/-- The properties of an object after its opening brace. -/
def objectItems : Nat → Option (List Nat) → Recognizer (Option (List Nat))
  | 0, _ => stop
  | n + 1, targets => do
    if ← eatMark .rightBrace then pure targets
    else
      let item ← objectProperty
      unless ← atMark .rightBrace do expectMark .comma
      objectItems n (joinTargets targets item)

def objectLiteral : Recognizer Shape := do
  expectMark .leftBrace
  patternShape <$> inContext plainContext do objectItems (← read).limit (some [])

/-- An expression in brackets. -/
def parenthesizedExpression : Recognizer Shape := do
  expectMark .leftParen
  let s ← inContext plainContext do
    let first ← assignmentExpression
    let rec more : Nat → Shape → Recognizer Shape
      | 0, _ => stop
      | n + 1, s => do
        if ← eatMark .comma then
          discard assignmentExpression
          more n { form := .sequence }
        else pure s
    more (← read).limit first
  expectMark .rightParen
  let target := match s.target with
    | .simple => .simple
    | _ => .never
  pure { s with target := target, parenthesized := true }

/-- A function expression from its keywords on. -/
def functionExpression (async : Bool) : Recognizer Shape := do
  expectWord "function"
  rule_ (.functionRest .expression async)
  pure {}

/-- `async` in front of `function` on the same line. -/
def atAsyncFunction : Recognizer Bool := do
  if ← atWord "async" then
    peekHolds do
      advance
      pure ((← atWord "function") && !(← afterNewline))
  else pure false

/-- An operand without members and calls. -/
def primaryRule : Recognizer Shape := do
  match ← lexeme with
  | .number =>
    advance
    pure {}
  | .string v =>
    advance
    pure { form := .string v }
  | .template .. => rule (.template false)
  | .mark .leftBracket => arrayLiteral
  | .mark .leftBrace => objectLiteral
  | .mark .leftParen => parenthesizedExpression
  | .mark .slash | .mark .slashAssign => regularExpression
  | .mark .at =>
    rule_ .decorators
    expectWord "class"
    rule_ .classRest
    pure {}
  | .word w _ =>
    match w with
    | "this" | "null" | "true" | "false" =>
      advanceKeyword
      pure {}
    | "class" =>
      advanceKeyword
      rule_ .classRest
      pure {}
    | "function" => functionExpression false
    | "new" => newExpression
    | "super" => superExpression
    | "import" =>
      advanceKeyword
      importExpression
    | _ =>
      if ← atAsyncFunction then
        advance
        functionExpression true
      else
        let name ← referenceName
        pure { form := .identifier name, target := .simple }
  | _ => stop

/-! ## Assignments and conditions -/

def atYield : Recognizer Bool := do
  if ← atWord "yield" then
    if (← context).yield then pure true
    else if ← wordOrLiteralFollows then stop
    else pure false
  else pure false

def yieldExpression : Recognizer Shape := do
  advanceKeyword
  unless ← afterNewline do
    let delegates ← eatMark .star
    let ends ← match ← lexeme with
      | .eof => pure true
      | .mark m =>
        pure ([Mark.semicolon, .rightBrace, .rightParen, .rightBracket, .colon, .comma].contains m)
      | .word w _ => pure (w == "in")
      | _ => pure false
    if delegates || !ends then discard assignmentExpression
  pure {}

/-- `? a : b` after a condition. -/
def conditionalRest (returnTypes : Bool) (condition : Shape) : Recognizer Shape := do
  if ← eatMark .question then
    discard (withIn (rule (.assignment false)))
    expectMark .colon
    discard (rule (.assignment returnTypes))
    pure {}
  else pure condition

def isAssignmentMark : Lexeme → Bool
  | .mark .assign | .mark .slashAssign | .mark .compoundAssign => true
  | _ => false

/-- The body of an arrow function: a block, or an expression. -/
def arrowBody (async returnTypes : Bool) : Recognizer Shape := do
  inContext (fun c => { c with await := async, yield := false }) do
    if ← atMark .leftBrace then rule_ .functionBody
    else discard (rule (.assignment returnTypes))
  pure {}

/-- The arrow of a function whose parameters have been passed. -/
def arrowMark : Recognizer Unit := do
  if ← afterNewline then
    if ← atMark .arrow then blemish
  expectMark .arrow

/-- Whether a bracket starts the parameters of an arrow function: surely, surely not, or perhaps. -/
inductive Certainty where
  | yes
  | no
  | perhaps
  deriving DecidableEq, Inhabited

/-- What the tokens after an opening bracket say. -/
def arrowAfterParen : Recognizer Certainty := do
  let types ← withTypes
  advance
  match ← lexeme with
  | .mark .rightParen =>
    advance
    match ← lexeme with
    | .mark .colon => pure (if types then .perhaps else .no)
    | .mark .arrow | .mark .leftBrace => pure .yes
    | _ => pure .no
  | .mark .leftBracket | .mark .leftBrace => pure .perhaps
  | .mark .ellipsis => pure .yes
  | .mark .at => pure .perhaps
  | .word second _ =>
    advance
    let third ← lexeme
    let thirdBindable ← atBindable
    if isModifier second && second != "async" && thirdBindable then
      pure (if third matches .word "as" _ then .no else .yes)
    else if !isBindable second && second != "this" then pure .no
    else match third with
      | .mark .colon => pure .yes
      | .mark .question =>
        advance
        match ← lexeme with
        | .mark .colon | .mark .comma | .mark .assign | .mark .rightParen => pure .yes
        | _ => pure .no
      | .mark .comma | .mark .assign | .mark .rightParen => pure .perhaps
      | _ => pure .no
  | _ => pure .no

/-- What the tokens after an opening angle say. -/
def arrowAfterLess : Recognizer Certainty := do
  if !(← withTypes) then pure .no
  else
    advance
    if !(← atBindable) && !(← atWord "const") then pure .no
    else if (← dialect).markup then
      discard (eatWord "const")
      advance
      if ← atWord "extends" then
        advance
        match ← lexeme with
        | .mark .assign | .mark .greater | .mark .slash => pure .no
        | _ => pure .yes
      else if (← atMark .comma) || (← atMark .assign) then pure .yes
      else pure .no
    else pure .perhaps

/-- Whether an arrow function with bracketed parameters starts here. -/
def arrowAhead : Recognizer Certainty := do
  let ahead ← peek do
    if ← atWord "async" then
      advance
      if ← afterNewline then pure .no
      else if ← atMark .leftParen then arrowAfterParen
      else if ← atMark .less then arrowAfterLess
      else pure .no
    else if ← atMark .leftParen then arrowAfterParen
    else if ← atMark .less then arrowAfterLess
    else pure .no
  pure (ahead.getD .no)

/-- The part of an arrow function up to its arrow; gives whether it is asynchronous and whether it
names the type of its result. -/
def arrowHead : Recognizer (Bool × Bool) := do
  let async ← eatWord "async"
  let typed ← inContext (fun c => { c with await := c.await || async }) do
    typeParameters?
    rule_ .parameters
    returnAnnotation?
  arrowMark
  pure (async, typed)

/-- An arrow function with bracketed parameters, if one starts here. -/
def bracketedArrow? (returnTypes : Bool) : Recognizer (Option Shape) := do
  match ← arrowAhead with
  | .no => pure none
  | .yes =>
    let (async, _) ← arrowHead
    return some (← arrowBody async true)
  | .perhaps =>
    let position := (← token).start.length
    if (← get).noArrow.contains position then pure none
    else
      let giveUp : Recognizer (Option Shape) := do
        modify fun s => { s with noArrow := position :: s.noArrow }
        pure none
      let before ← get
      match ← attempt arrowHead with
      | none => giveUp
      | some (async, typed) =>
        let body ← arrowBody async returnTypes
        if !returnTypes && typed && !(← atMark .colon) then
          set before
          giveUp
        else pure (some body)

/-- `async x =>`. -/
def atPlainAsyncArrow : Recognizer Bool := do
  if ← atWord "async" then
    peekHolds do
      advance
      if (← afterNewline) || !(← atBindable) then pure false
      else
        advance
        pure (!(← afterNewline) && (← atMark .arrow))
  else pure false

/-- An assignment, a condition, a function with an arrow, or what binds tighter. What it binds inside
is no concern of the declaration around it. -/
def assignmentRule (returnTypes : Bool) : Recognizer Shape := keepingBound do
  if ← atYield then yieldExpression
  else match ← bracketedArrow? returnTypes with
    | some s => pure s
    | none =>
      if ← atPlainAsyncArrow then
        advance
        inContext (fun c => { c with await := true }) (discard bindingName)
        arrowMark
        arrowBody true returnTypes
      else
        let left ← rule (.binary 0)
        if (← atMark .arrow) && !left.parenthesized then
          match left.form with
          | .identifier _ =>
            arrowMark
            arrowBody false returnTypes
          | _ => conditionalRest returnTypes left
        else
          let operator ← lexeme
          if isAssignmentMark operator then
            if operator = .mark .assign then assignTo left else assignSimple left
            advance
            discard (rule (.assignment returnTypes))
            pure { form := if operator = .mark .assign then .assignment else .other }
          else conditionalRest returnTypes left

/-- Assignments with commas between them. -/
def expressionRule : Recognizer Shape := do
  inContext (fun c => { c with decorator := false }) do
    let first ← assignmentExpression
    let rec more : Nat → Shape → Recognizer Shape
      | 0, _ => stop
      | n + 1, s => do
        if ← eatMark .comma then
          discard assignmentExpression
          more n { form := .sequence }
        else pure s
    more (← read).limit first

end Bundling.Syntax.Recognizer
