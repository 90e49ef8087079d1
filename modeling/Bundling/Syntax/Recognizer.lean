import Bundling.Syntax.Dialect
import Bundling.Syntax.Lexer

/-!
# Recognisers

A recogniser walks over tokens and answers what the grammar needs to know about what it passed. It
stops (`none`) where no rule applies, and goes on with `blemished` set where a rule is broken that
does not hinder reading: a text is accepted when neither happens. As all of this is state, a reading
that did not work out is undone by taking the old state back.

The recursion of the grammar runs through `Env.descend`: a rule names the rule it needs as a `Goal`,
and only the place where the knot is tied knows about fuel.
-/

namespace Bundling.Syntax

/-- What the surroundings of a place admit. -/
structure Context where
  /-- `in` is an operator here. -/
  inOperator : Bool := true
  /-- `yield` is an operator here. -/
  yield : Bool := false
  /-- `await` is an operator here. -/
  await : Bool := false
  /-- `return` is a statement here. -/
  returns : Bool := false
  /-- Declarations need no bodies and no initial values here. -/
  ambient : Bool := false
  /-- Inside a decorator, where a bracket does not go on with the expression. -/
  decorator : Bool := false
  /-- A conditional type may not start here. -/
  noConditionalType : Bool := false
  deriving DecidableEq

/-- What an expression can stand for on the left of an assignment. -/
inductive Target where
  | never
  | simple
  /-- A pattern, with the shorthand initial values in it that are right only in a pattern. -/
  | pattern (initials : List Nat)
  deriving DecidableEq

/-- What the grammar asks about an expression it has passed. -/
inductive Form where
  | identifier (name : String)
  | string (value : String)
  /-- A template without substitutions. -/
  | plainTemplate (raw : String)
  | member
  /-- Part of a chain with `?.`. -/
  | chain
  | call
  | dynamicImport
  | unary
  | disjunction
  | coalesce
  /-- An assignment with `=`, unlike one that computes. -/
  | assignment
  | instantiation
  | sequence
  | other
  deriving DecidableEq

/-- An expression as the grammar sees it afterwards. -/
structure Shape where
  form : Form := .other
  target : Target := .never
  parenthesized : Bool := false

/-- Where a statement stands: in a list, or alone as the body of another. -/
inductive StatementPlace where
  | list
  | single
  deriving DecidableEq

/-- How a function comes about. -/
inductive FunctionKind where
  | declaration
  | expression
  | defaultExport
  deriving DecidableEq

/-- The rules that others refer to. -/
inductive Goal where
  | statement (place : StatementPlace)
  | block
  | functionBody
  | functionRest (kind : FunctionKind) (async : Bool)
  | classRest
  | expression
  | assignment (returnTypes : Bool)
  | binary (level : Nat)
  | unary
  | leftHandSide
  | primary
  | bindingTarget
  | parameters
  | propertyName
  | decorators
  | arguments
  | typeArguments
  | typeParameters
  | typ
  | returnType
  | markup
  | template (tagged : Bool)

structure State where
  token : Token
  /-- A rule was broken that does not hinder reading. -/
  blemished : Bool := false
  /-- The requested specifiers, last first, each once. -/
  requests : List String := []
  /-- Shorthand initial values that have to turn out to be in patterns. -/
  initials : List Nat := []
  nextInitial : Nat := 0
  /-- The names exported so far. -/
  exports : List String := []
  /-- The names that the patterns of a declaration have bound. -/
  bound : List String := []
  /-- Text positions, from the end, where a bracket is known to start no arrow function. -/
  noArrow : List Nat := []

structure Env (m : Type → Type) where
  dialect : Dialect
  /-- Whether a template without substitutions counts as a specifier of `require`. -/
  templates : Bool
  /-- More steps than any loop over the source takes. -/
  limit : Nat
  context : Context
  descend : Goal → Context → m Shape

/-- The effects under a recogniser: state, and failure that gives up the state. -/
abbrev Reading := StateT State Option

abbrev Recognizer := ReaderT (Env Reading) Reading

namespace Recognizer

variable {α : Type}

/-- Goes on with a rule. -/
def rule (g : Goal) : Recognizer Shape := fun env => env.descend g env.context

def rule_ (g : Goal) : Recognizer Unit := discard (rule g)

/-- No rule applies. -/
def stop : Recognizer α := fun _ _ => none

/-- A rule is broken, but reading goes on. -/
def blemish : Recognizer Unit := modify fun s => { s with blemished := true }

def blemishIf (b : Bool) : Recognizer Unit := if b then blemish else pure ()

def dialect : Recognizer Dialect := return (← read).dialect

def context : Recognizer Context := return (← read).context

def withTypes : Recognizer Bool := return (← read).dialect.types

/-- Runs with other surroundings. -/
def inContext (f : Context → Context) (p : Recognizer α) : Recognizer α :=
  withReader (fun env => { env with context := f env.context }) p

def withIn : Recognizer α → Recognizer α := inContext fun c => { c with inOperator := true }

/-! ## Tokens -/

def token : Recognizer Token := return (← get).token

def lexeme : Recognizer Lexeme := return (← get).token.lexeme

/-- Whether a line ends before the current token. -/
def afterNewline : Recognizer Bool := return (← get).token.afterNewline

def setToken (t : Option Token) : Recognizer Unit := do
  match t with
  | some t => modify fun s => { s with token := t }
  | none => stop

/-- Moves on to the next token. -/
def advance : Recognizer Unit := do
  let env ← read
  let s ← get
  setToken (Lexer.token? (!env.dialect.isModule) env.limit false s.token.rest)

/-- Reads the current token again as an operator that starts with `>`. -/
def joinGreater : Recognizer Unit := do
  let t ← token
  if t.lexeme = .mark .greater then
    let (m, rest) := Lexer.greaterMark t.start
    setToken (some { t with lexeme := .mark m, rest := rest })

def atMark (m : Mark) : Recognizer Bool := return (← lexeme) = .mark m

/-- The current word, whatever its role. -/
def word? : Recognizer (Option String) := do
  match ← lexeme with
  | .word w _ => pure (some w)
  | _ => pure none

def atWord (w : String) : Recognizer Bool := return (← word?) == some w

def eatMark (m : Mark) : Recognizer Bool := do
  if ← atMark m then
    advance
    pure true
  else pure false

def expectMark (m : Mark) : Recognizer Unit := do
  unless ← eatMark m do stop

/-- A keyword may not be written with escapes. -/
def advanceKeyword : Recognizer Unit := do
  match ← lexeme with
  | .word _ true => blemish
  | _ => pure ()
  advance

def eatWord (w : String) : Recognizer Bool := do
  if ← atWord w then
    advanceKeyword
    pure true
  else pure false

def expectWord (w : String) : Recognizer Unit := do
  unless ← eatWord w do stop

/-! ## Looking ahead -/

/-- Runs and takes the state back, whatever happens. -/
def peek (p : Recognizer α) : Recognizer (Option α) := fun env s =>
  some ((p env s).map (·.1), s)

/-- Whether a test holds further on; a test that stops does not hold. -/
def peekHolds (p : Recognizer Bool) : Recognizer Bool := return (← peek p).getD false

/-- Runs, and takes the state back if it stops. -/
def attempt (p : Recognizer α) : Recognizer (Option α) := fun env s =>
  match p env s with
  | some (a, s') => some (some a, s')
  | none => some (none, s)

/-! ## Loops -/

/-- Repeats while the step says so, at most `n` times. -/
def repeatUpTo : Nat → Recognizer Bool → Recognizer Unit
  | 0, _ => stop
  | n + 1, step => do if ← step then repeatUpTo n step

def repeatWhile (step : Recognizer Bool) : Recognizer Unit := do repeatUpTo (← read).limit step

/-- Items with commas between them up to a closing mark, which is left; a comma may follow the last
one. Gives whether one does. -/
def commaList (close : Mark) (item : Recognizer Unit) : Recognizer Bool := do
  let rec go : Nat → Bool → Recognizer Bool
    | 0, _ => stop
    | n + 1, trailing => do
      if ← atMark close then pure trailing
      else
        item
        if ← atMark close then pure false
        else
          expectMark .comma
          go n true
  go (← read).limit false

/-! ## Ends of statements -/

/-- Whether a statement may end here without a semicolon. -/
def mayEnd : Recognizer Bool := do
  if ← afterNewline then pure true
  else match ← lexeme with
    | .mark .rightBrace | .mark .semicolon | .eof => pure true
    | _ => pure false

/-- The end of a statement: a semicolon, or a place where one may be left out. -/
def endStatement : Recognizer Unit := do
  unless ← eatMark .semicolon do
    unless ← mayEnd do stop

/-! ## Names -/

/-- `yield` and `await` are no names where they are operators. -/
def checkName (w : String) (c : Context) : Recognizer Unit :=
  blemishIf ((w == "await" && c.await) || (w == "yield" && c.yield))

/-- The name that a declaration binds. -/
def bindingName : Recognizer String := do
  match ← lexeme with
  | .word w _ =>
    if isBindable w then
      checkName w (← context)
      advance
      pure w
    else stop
  | _ => stop

/-- A name that refers to a binding. -/
def referenceName : Recognizer String := bindingName

/-- The name of a label. -/
def labelName : Recognizer Unit := do
  let c ← context
  match ← lexeme with
  | .word w _ =>
    if isReserved w && !(w == "yield" && !c.yield) && !(w == "await" && !c.await) then stop
    else advance
  | _ => stop

def atBindable : Recognizer Bool := do
  match ← lexeme with
  | .word w _ => pure (isBindable w)
  | _ => pure false

/-- Any word, also a reserved one. -/
def anyWord : Recognizer String := do
  match ← lexeme with
  | .word w _ =>
    advance
    pure w
  | _ => stop

def atAnyWord : Recognizer Bool := return (← word?).isSome

/-! ## What is found -/

/-- Records a requested specifier. -/
def request (specifier : String) : Recognizer Unit :=
  modify fun s =>
    if s.requests.contains specifier then s else { s with requests := specifier :: s.requests }

/-- Records an exported name; a second export of one name is a blemish where there are no types. -/
def exportName (name : String) : Recognizer Unit := do
  unless ← withTypes do
    blemishIf ((← get).exports.contains name)
    modify fun s => { s with exports := name :: s.exports }

/-- Records a name that a pattern binds. -/
def bind (name : String) : Recognizer Unit := modify fun s => { s with bound := name :: s.bound }

/-- Runs, and forgets the names bound meanwhile. -/
def keepingBound (p : Recognizer α) : Recognizer α := do
  let before := (← get).bound
  let a ← p
  modify fun s => { s with bound := before }
  pure a

/-- Turns an expression into what is assigned to: its shorthand initial values are settled. -/
def assignTo (s : Shape) : Recognizer Unit := do
  match s.target with
  | .never => stop
  | .simple => pure ()
  | .pattern is =>
    modify fun st => { st with initials := st.initials.filter fun i => !is.contains i }

/-- Like `assignTo`, where a pattern is not admitted. -/
def assignSimple (s : Shape) : Recognizer Unit := do
  unless s.target = .simple do stop

end Recognizer

end Bundling.Syntax
