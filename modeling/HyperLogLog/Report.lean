import HyperLogLog.Text.Outline

/-!
# Reports

A report is an error as its reader sees it: a kind, a message, labelled values and the chain of
causes behind it.

* `Report.line`: one line, with the outermost cause only;
* `Report.block`: several lines, with every cause;
* `Report.outline`: the report as nested fields.
-/

namespace HyperLogLog

/-- What a caller can tell apart without reading the message. -/
inductive Report.Kind where
  | configInvalid
  | malformed
  | noWriteAccess
  | insufficientCapacity
  | invariantViolation
deriving DecidableEq

namespace Report.Kind

/-- The name shown to a user. -/
def name : Kind → String
  | configInvalid => "ConfigInvalid"
  | malformed => "MalformedDeserializeData"
  | noWriteAccess => "NoWriteAccess"
  | insufficientCapacity => "InsufficientCapacity"
  | invariantViolation => "InvariantViolation"

/-- Every kind, in the order of declaration. -/
def all : List Kind :=
  [configInvalid, malformed, noWriteAccess, insufficientCapacity, invariantViolation]

/-- The kind with a given name. -/
def ofName? (s : String) : Option Kind := all.find? (·.name = s)

end Report.Kind

/-- What lies behind an error: a root, explained by texts that each wrap what is below. -/
inductive Report.Cause where
  | root (text : String)
  | wrapped (text : String) (inner : Report.Cause)

namespace Report.Cause

/-- The texts from the outermost in. -/
def texts : Cause → List String
  | root t => [t]
  | wrapped t inner => t :: inner.texts

/-- The outermost text. -/
def outermost : Cause → String
  | root t => t
  | wrapped t _ => t

/-- A root alone is its text; a wrapping shows its own text and what it wraps. -/
def outline : Cause → Text.Outline
  | root t => .text t
  | wrapped t inner => .record "Error" [("context", .note t), ("source", inner.outline)]

end Report.Cause

/-- An error as its reader sees it. -/
structure Report where
  kind : Report.Kind
  message : String
  context : List (String × String) := []
  cause : Option Report.Cause := none

namespace Report

/-- Adds a labelled value after those already there. -/
def withContext (r : Report) (key value : String) : Report :=
  { r with context := r.context ++ [(key, value)] }

/-- A report has one cause: nothing if it has one already. -/
def withCause? (r : Report) (c : Cause) : Option Report :=
  match r.cause with
  | none => some { r with cause := some c }
  | some _ => none

/-- What is said of a report that is given a second cause. -/
def causeTwice : String := "the source error has been set"

private def pairText (p : String × String) : String := p.1 ++ ": " ++ p.2

/-- Kind, context, message and outermost cause on one line; what is empty is left out. -/
def line (r : Report) : String :=
  r.kind.name
    ++ (if r.context.isEmpty then ""
        else ", context: \x7b " ++ ", ".intercalate (r.context.map pairText) ++ " \x7d")
    ++ (if r.message.isEmpty then "" else " => " ++ r.message)
    ++ (match r.cause with
        | none => ""
        | some c => ", source: " ++ c.outermost)

/-- Kind and message, then the context and the causes as paragraphs of their own. -/
def block (r : Report) : String :=
  r.kind.name
    ++ (if r.message.isEmpty then "" else " => " ++ r.message)
    ++ "\n"
    ++ (if r.context.isEmpty then ""
        else "\nContext:\n" ++ String.join (r.context.map fun p => "   " ++ pairText p ++ "\n"))
    ++ (match r.cause with
        | none => ""
        | some c => "\nSource:\n   " ++ ": ".intercalate c.texts ++ "\n")

/-- The report as nested fields. -/
def outline (r : Report) : Text.Outline :=
  .record "Error"
    [("kind", .atom r.kind.name),
     ("message", .text r.message),
     ("context", .list (r.context.map fun p => .tuple "" [.text p.1, .text p.2])),
     ("source", match r.cause with
        | none => .atom "None"
        | some c => .tuple "Some" [c.outline])]

end Report

end HyperLogLog
