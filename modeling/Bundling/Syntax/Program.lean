import Bundling.Syntax.Markup
import Bundling.Syntax.Statement

/-!
# Programs

A program is accepted when it is read to its end, no rule was broken on the way, and every shorthand
initial value turned out to stand in a pattern. What it requests is a by-product of reading it.
-/

namespace Bundling.Syntax

open Recognizer

/-- A name as what the grammar asks about the thing it belongs to. -/
private def nameShape : Option String → Shape
  | some w => { form := .identifier w }
  | none => {}

/-- The rule that a goal names. -/
def Goal.recognizer : Goal → Recognizer Shape
  | .statement place => plainly (statementRule place)
  | .block => plainly blockRule
  | .functionBody => plainly functionBodyRule
  | .functionRest kind async => keepingBound (nameShape <$> Recognizer.functionRest kind async)
  | .classRest => keepingBound (nameShape <$> Recognizer.classRest)
  | .expression => expressionRule
  | .assignment returnTypes => assignmentRule returnTypes
  | .binary level => binaryRule level
  | .unary => unaryRule
  | .leftHandSide => leftHandSideRule
  | .primary => primaryRule
  | .bindingTarget => plainly bindingTargetRule
  | .parameters => plainly parametersRule
  | .propertyName => plainly propertyNameRule
  | .decorators => plainly decoratorsRule
  | .arguments => argumentsRule
  | .typeArguments => plainly Recognizer.typeArguments
  | .typeParameters => plainly Recognizer.typeParameters
  | .typ => plainly typeRule
  | .returnType => plainly returnTypeRule
  | .markup => plainly markupRule
  | .template tagged => templateRule tagged
where
  plainly (p : Recognizer Unit) : Recognizer Shape := do
    p
    pure {}

/-- Runs the rule of a goal; at most `fuel` rules stand on one another. -/
def Goal.run (dialect : Dialect) (templates : Bool) (limit : Nat) :
    (fuel : Nat) → Goal → Context → Reading Shape
  | 0, _, _ => fun _ => none
  | fuel + 1, goal, context =>
    goal.recognizer
      { dialect, templates, limit, context, descend := Goal.run dialect templates limit fuel }

/-- Whether the program has been read to its end without fault. -/
private def State.isAccepted (s : State) : Bool :=
  s.token.lexeme = .eof && !s.blemished && s.initials.isEmpty

/-- The statements of a whole program. -/
private def programRule : Recognizer Unit := repeatWhile do
  if (← lexeme) = .eof then pure false
  else
    rule_ (.statement .list)
    pure true

/-- Skips a mark of byte order, and a first line that names an interpreter. -/
def skipHeader : List Char → List Char
  | '\uFEFF' :: cs => skipInterpreter cs
  | cs => skipInterpreter cs
where
  skipInterpreter : List Char → List Char
    | '#' :: '!' :: cs => cs.dropWhile fun c => !Lexer.isLineEnd c
    | cs => cs

/-- The specifiers that a source text requests, in the order of their first request; none when the
text is not well formed. `templates` says whether `require` may be given a template without
substitutions. -/
def requests? (dialect : Dialect) (templates : Bool) (source : List Char) :
    Option (List String) := do
  let text := skipHeader source
  let limit := text.length + 2
  let token ← Lexer.token? (!dialect.isModule) limit true text
  let context : Context := { await := dialect.isModule, ambient := dialect.declarations }
  let env : Env Reading :=
    { dialect, templates, limit, context
      descend := Goal.run dialect templates limit (100 * (limit + 10)) }
  let ((), s) ← programRule env { token }
  if s.isAccepted then some s.requests.reverse else none

end Bundling.Syntax
