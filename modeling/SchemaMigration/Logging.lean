import SchemaMigration.Text.Scan

/-! # Logging

How much is logged and in which form, as the environment says. Values are read in letters of either
case. A level that is not known stands for the level that would hold without it.
-/

namespace SchemaMigration.Logging

/-- A text with its ASCII letters in lower case. -/
def lowerCase (s : String) : String :=
  String.ofList (s.toList.map Text.lowerAscii)

/-- The levels, from the most to the least that is logged. -/
def levels : List String :=
  ["trace", "debug", "info", "warn", "error"]

/-- The forms in which events are logged. -/
inductive Format
  | json
  | pretty
  | compact
  deriving DecidableEq, Repr

namespace Format

def name : Format → String
  | .json => "json"
  | .pretty => "pretty"
  | .compact => "compact"

/-- The form of a name. Every name that is not known stands for JSON. -/
def ofName (s : String) : Format :=
  let s := lowerCase s
  if s = "pretty" then .pretty else if s = "compact" then .compact else .json

end Format

/-- Whether a value says yes. -/
def isTruthy (s : String) : Bool :=
  ["true", "1", "yes"].contains (lowerCase s)

/-- The level that the values for debugging and for the level ask for, if they ask for any. -/
def level? (debug level : Option String) : Option String :=
  let isDebug := debug.any isTruthy
  match level with
  | some level =>
    let level := lowerCase level
    some (if levels.contains level then level else if isDebug then "debug" else "warn")
  | none => if isDebug then some "debug" else none

def debugVariable : String :=
  "KEEL_DEBUG"

def levelVariable : String :=
  "KEEL_LOG_LEVEL"

def formatVariable : String :=
  "KEEL_LOG_FORMAT"

def isDebugEnabled (environment : String → Option String) : Bool :=
  (environment debugVariable).any isTruthy

/-- The level that an environment asks for, if it asks for any. -/
def environmentLevel? (environment : String → Option String) : Option String :=
  level? (environment debugVariable) (environment levelVariable)

/-- The form that an environment asks for, or else JSON. -/
def environmentFormat (environment : String → Option String) : Format :=
  ((environment formatVariable).map Format.ofName).getD .json

end SchemaMigration.Logging
