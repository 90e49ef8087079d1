import Bundling.Bundle.Error
import Bundling.Json.Writer
import Bundling.Store.Basic
import Bundling.Text.Search

/-!
# Reports of errors

Errors as JSON objects, for tools: the kind, the message and what else is known. What the parser of
another format says is left out, for its wording is not ours to promise.
-/

namespace Bundling

namespace Report

/-- A text that may be missing. -/
def optionalText : Option String → Json
  | some s => .string s
  | none => .null

/-- An error of a kind. -/
def error (kind : String) (more : List (String × Json)) : Json :=
  .object (("error", .string kind) :: more)

/-- An error that is told by its kind and its message. -/
def plain (kind message : String) : Json := error kind [("message", .string message)]

/-- An outcome: a value, or the report of an error. -/
def outcome {ε α : Type} (onError : ε → Json) (onOk : α → Json) : Except ε α → Json
  | .ok a => onOk a
  | .error e => onError e

/-- What is reported of success without a value. -/
def done {ε : Type} (onError : ε → Json) : Except ε Unit → Json := outcome onError fun _ => .string "ok"

end Report

open Report

def ModuleIdError.report (e : ModuleIdError) : Json :=
  match e with
  | .emptyPath => plain "EmptyPath" e.message
  | .notAbsolute _ => plain "NotAbsolute" e.message

def StoreError.report (e : StoreError) : Json :=
  let kind := match e with
    | .notFound _ => "FileNotFound"
    | .io _ => "Io"
    | .other _ => "Other"
  error kind [("message", .string e.message), ("not_found", .bool e.isNotFound)]

def ResolveError.report (e : ResolveError) : Json :=
  match e with
  | .notFound .. => plain "NotFound" e.message
  | .install .. => plain "Install" e.message
  | .store _ => plain "Store" e.message
  | .plugin .. => plain "Plugin" e.message

def CompileError.report (e : CompileError) : Json :=
  match e with
  | .read .. => plain "Read" e.message
  | .resolve e => e.report
  | .transform p name text =>
    let known := [("path", Json.string p.text), ("plugin", .string name)]
    let told := [("message", Json.string e.message), ("inner", .string text)]
    error "Transform" (if Text.occursIn "scan".toList name.toList then known else known ++ told)
  | .notRegistered _ => plain "ModuleNotFound" e.message
  | .sourceMap p _ => error "InvalidSourceMap" [("path", .string p.text)]
  | .path _ => plain "InvalidPath" e.message

/-- The fields whose values other parsers read. -/
def ConfigError.parsedFields : List String := ["toml", "package.json", "configuration"]

/-- Whether the hint of an error is a parser's. -/
def ConfigError.isParsed : ConfigError → Bool
  | .invalidValue field _ => parsedFields.contains field
  | _ => false

def ConfigError.report (e : ConfigError) : Json :=
  let known (kind : String) : Json :=
    error kind [("message", .string e.message), ("hint", optionalText e.hint)]
  match e with
  | .entryNotFound _ => known "EntryNotFound"
  | .rootNotFound _ => known "RootNotFound"
  | .notFound => known "NotFound"
  | .invalidValue field _ =>
    if e.isParsed then error "InvalidValue" [("field", .string field)] else known "InvalidValue"
  | .noEntries => known "NoEntries"
  | .schema .. => known "SchemaValidation"
  | .io _ => known "Io"

namespace BundleError

/-- The report without code and help. -/
def ownReport (e : BundleError) : Json :=
  match e with
  | .compile e => e.report
  | .config e => e.report
  | .unresolved _ => plain "Consistency" e.message
  | .generate _ => plain "Generate" e.message
  | .watch _ => plain "Watch" e.message
  | .invalidConfig _ => plain "InvalidConfig" e.message
  | .outputPath _ => plain "InvalidOutputPath" e.message
  | .write _ => plain "WriteFailure" e.message
  | .outputExists _ => plain "OutputExists" e.message
  | .io _ => plain "Io" e.message

/-- Whether the help repeats what a parser says. -/
def isParsed : BundleError → Bool
  | .config e => e.isParsed
  | .invalidConfig text => "invalid watch ignore pattern".toList.isPrefixOf text.toList
  | _ => false

def report (e : BundleError) : Json :=
  let help := if e.isParsed then [] else [("help", optionalText e.help)]
  .object ((e.ownReport.object?).getD [] ++ [("code", .string e.code)] ++ help)

end BundleError

end Bundling
