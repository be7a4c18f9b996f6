import Mathlib

/-!
# Errors

The error type shared by the stages, and the texts errors are built from.
-/

namespace Batchalign

inductive BAError where
  | parse (message : String)
  | validation (message : String)
  | serialize (message : String)
  | json (message : String)
  | worker (message : String)
  | audio (message : String)
  | capability (lang engine : String)
  | cancelled
  | internal (message : String)
  | io (message : String)
deriving DecidableEq, Repr

abbrev BAResult (α : Type) := Except BAError α

/-- The `Display` form. -/
def BAError.display : BAError → String
  | .parse message => s!"CHAT parse error: {message}"
  | .validation message => s!"CHAT validation failed: {message}"
  | .serialize message => s!"CHAT serialize error: {message}"
  | .json message => s!"json error: {message}"
  | .worker message => s!"worker dispatch failed: {message}"
  | .audio message => s!"audio: {message}"
  | .capability lang engine => s!"unsupported language/engine combo: {lang} on {engine}"
  | .cancelled => "operation cancelled"
  | .internal message => s!"internal: {message}"
  | .io message => s!"io: {message}"

def debugChar (c : Char) : String :=
  match c with
  | '"' => "\\\""
  | '\\' => "\\\\"
  | '\n' => "\\n"
  | '\r' => "\\r"
  | '\t' => "\\t"
  | c => String.singleton c

/-- The `Debug` form of a text. Escapes of unprintable characters are left out. -/
def debugText (text : String) : String :=
  "\"" ++ String.join (text.toList.map debugChar) ++ "\""

end Batchalign
