import Groundplan.Json
import Groundplan.Source

/-!
# Diagnostics

A diagnostic is a message with its code, severity and position.  A collector gathers the
diagnostics of a pass and counts errors.

## Main definitions

- `Diagnostic`: one message
- `Diagnostic.format`, `Diagnostic.toJson`: its text, and its document for tools
- `Collector`: gathered diagnostics
-/

namespace Groundplan

/-! ## Diagnostics -/

/-- How serious a diagnostic is. -/
inductive Severity where
  | error
  | warning
  | info
  | hint
deriving DecidableEq, Repr, Inhabited

/-- Name of a severity in messages. -/
def Severity.label : Severity → String
  | .error => "error"
  | .warning => "warning"
  | .info => "info"
  | .hint => "hint"

/-- A message about the configuration. -/
structure Diagnostic where
  code : String
  message : String
  severity : Severity
  span : Option Span
  /-- The graph node that the message is about. -/
  subject : Option String
  hints : List String
  related : List Diagnostic
deriving Repr, Inhabited

namespace Diagnostic

/-- Subject and position in front of a message. -/
private def whereabouts (d : Diagnostic) : String :=
  let subject := match d.subject with
    | none | some "" => []
    | some s => [s]
  let position := match d.span with
    | none => []
    | some span => [span.start.toText]
  match subject ++ position with
  | [] => ""
  | parts => " @ ".intercalate parts ++ ": "

/-- The line about a related diagnostic. -/
private def relatedLine (d : Diagnostic) : String :=
  let position := match d.span with
    | none => ""
    | some span => span.start.toText ++ ": "
  "    --> " ++ position ++ d.message

/-- Text of a diagnostic: its message, then a line for every hint and related diagnostic. -/
def format (d : Diagnostic) : String :=
  let head := d.whereabouts ++ d.severity.label ++ "[" ++ d.code ++ "]: " ++ d.message
  "\n".intercalate
    (head :: d.hints.map ("    = hint: " ++ ·) ++ d.related.map relatedLine)

/-- The diagnostic about `subject`, unless it already has a subject. -/
def about (d : Diagnostic) (subject : Option String) : Diagnostic :=
  { d with subject := d.subject.or subject }

/-! ### Documents -/

/-- A position as a document. -/
def locationJson (l : Location) : Json :=
  .object [("line", .ofInt l.line), ("column", .ofInt l.column), ("offset", .ofInt l.offset)]

/-- The range of a diagnostic, if it has one. -/
def rangeMembers : Option Span → List (String × Json)
  | none => []
  | some span =>
    [("range", .object [("start", locationJson span.start), ("end", locationJson span.stop)])]

mutual

/-- A diagnostic as a document. -/
def toJson : Diagnostic → Json
  | ⟨code, message, severity, span, subject, hints, related⟩ =>
    .object ([("code", .string code), ("message", .string message),
      ("severity", .string severity.label), ("subject", .ofText? subject),
      ("hints", .ofTexts hints), ("related", .array (toJsonAll related))] ++ rangeMembers span)

/-- Diagnostics as documents. -/
def toJsonAll : List Diagnostic → List Json
  | [] => []
  | d :: ds => toJson d :: toJsonAll ds

end

end Diagnostic

/-! ## Collectors -/

/-- Diagnostics of a pass, in the order in which they were added. -/
structure Collector where
  diagnostics : List Diagnostic
  /-- The number of errors after which a pass stops; zero means that it never does. -/
  maxErrors : Int
deriving Repr, Inhabited

namespace Collector

/-- A collector without diagnostics. -/
def empty (maxErrors : Int) : Collector :=
  ⟨[], maxErrors⟩

/-- Add a diagnostic. -/
def add (c : Collector) (d : Diagnostic) : Collector :=
  { c with diagnostics := c.diagnostics ++ [d] }

/-- How many diagnostics of a severity there are. -/
def count (c : Collector) (severity : Severity) : Nat :=
  c.diagnostics.countP (·.severity = severity)

/-- Number of errors. -/
def errorCount (c : Collector) : Nat :=
  c.count .error

/-- Number of warnings. -/
def warningCount (c : Collector) : Nat :=
  c.count .warning

/-- Whether the limit on errors has been reached. -/
def shouldStop (c : Collector) : Bool :=
  0 < c.maxErrors && c.maxErrors ≤ c.errorCount

/-- All diagnostics and a closing line with the counts. -/
def format (c : Collector) : String :=
  let closing :=
    if 0 < c.errorCount then
      [toString c.errorCount ++ " error(s), " ++ toString c.warningCount ++ " warning(s)"]
    else if 0 < c.warningCount then [toString c.warningCount ++ " warning(s)"]
    else []
  "\n\n".intercalate (c.diagnostics.map Diagnostic.format ++ closing)

/-- All diagnostics and the counts as members of a document. -/
def jsonMembers (c : Collector) : List (String × Json) :=
  [("diagnostics", .array (Diagnostic.toJsonAll c.diagnostics)),
    ("error_count", .ofInt c.errorCount), ("warning_count", .ofInt c.warningCount)]

end Collector

end Groundplan
