/-! # Variables in settings

In the text of the settings, a dollar sign and a name in braces stand for the value of a variable of
the environment. A variable that is not set is left as written. Values are put in as they are: they
are not searched for variables again, and they are not quoted.
-/

namespace SchemaMigration.Settings

/-- The name in braces at the front of a text, after a dollar sign, and what follows it. -/
def reference? : List Char → Option (List Char × List Char)
  | '$' :: '\x7b' :: cs =>
    match cs.takeWhile (· != '\x7d'), cs.dropWhile (· != '\x7d') with
    | c :: name, _ :: rest => some (c :: name, rest)
    | _, _ => none
  | _ => none

/-- A text with its variables replaced. The number counts the characters at its front that belong to
a reference already replaced. -/
def expandFrom (environment : String → Option String) : Nat → List Char → List Char
  | _, [] => []
  | skip + 1, _ :: cs => expandFrom environment skip cs
  | 0, c :: cs =>
    match reference? (c :: cs) with
    | some (name, rest) =>
      match environment (String.ofList name) with
      | some value => value.toList ++ expandFrom environment (cs.length - rest.length) cs
      | none =>
        (c :: cs).take (cs.length + 1 - rest.length)
          ++ expandFrom environment (cs.length - rest.length) cs
    | none => c :: expandFrom environment 0 cs

/-- A text with its variables replaced by their values. -/
def expand (environment : String → Option String) (text : String) : String :=
  String.ofList (expandFrom environment 0 text.toList)

end SchemaMigration.Settings
