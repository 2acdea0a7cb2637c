import HyperLogLog.Text.Quoted

/-!
# Outlines

An outline is a tree of named fields, shown on one line (`Outline.inline`) or with one field to a
line, four spaces deeper at each level (`Outline.indented`). Texts are shown as quoted literals.
-/

namespace HyperLogLog.Text

/-- A tree of named fields. -/
inductive Outline where
  /-- A word that stands as it is. -/
  | atom (word : String)
  /-- A text, shown quoted. -/
  | text (s : String)
  /-- A note on what stands beside it, shown quoted. -/
  | note (s : String)
  /-- Named fields; without fields, the name alone. -/
  | record (name : String) (fields : List (String × Outline))
  /-- Positions in round brackets after an optional name. -/
  | tuple (name : String) (parts : List Outline)
  /-- Elements in square brackets. -/
  | list (elements : List Outline)

namespace Outline

mutual

/-- The outline on one line. -/
def inline : Outline → String
  | atom w => w
  | text s => Quoted.encode .value s
  | note s => Quoted.encode .note s
  | record name fields =>
    if fields.isEmpty then name
    else name ++ " \x7b " ++ ", ".intercalate (inlineFields fields) ++ " \x7d"
  | tuple name parts => name ++ "(" ++ ", ".intercalate (inlineAll parts) ++ ")"
  | list elements => "[" ++ ", ".intercalate (inlineAll elements) ++ "]"

/-- Each field after its name. -/
def inlineFields : List (String × Outline) → List String
  | [] => []
  | (key, o) :: rest => (key ++ ": " ++ inline o) :: inlineFields rest

/-- Each outline on one line. -/
def inlineAll : List Outline → List String
  | [] => []
  | o :: rest => inline o :: inlineAll rest

end

/-- Four spaces for each level. -/
def margin (depth : Nat) : String := String.ofList (List.replicate (4 * depth) ' ')

mutual

/-- The outline with one field to a line, at the given depth. -/
def indented (depth : Nat) : Outline → String
  | atom w => w
  | text s => Quoted.encode .value s
  | note s => Quoted.encode .note s
  | record name fields =>
    if fields.isEmpty then name
    else name ++ " \x7b\n" ++ indentedFields (depth + 1) fields ++ margin depth ++ "\x7d"
  | tuple name parts =>
    if parts.isEmpty then name ++ "()"
    else name ++ "(\n" ++ indentedAll (depth + 1) parts ++ margin depth ++ ")"
  | list elements =>
    if elements.isEmpty then "[]"
    else "[\n" ++ indentedAll (depth + 1) elements ++ margin depth ++ "]"

/-- Each field on a line of its own, closed by a comma. -/
def indentedFields (depth : Nat) : List (String × Outline) → String
  | [] => ""
  | (key, o) :: rest =>
    margin depth ++ key ++ ": " ++ indented depth o ++ ",\n" ++ indentedFields depth rest

/-- Each outline on a line of its own, closed by a comma. -/
def indentedAll (depth : Nat) : List Outline → String
  | [] => ""
  | o :: rest => margin depth ++ indented depth o ++ ",\n" ++ indentedAll depth rest

end

end Outline

end HyperLogLog.Text
