import QueryOutline.Outline

/-!
# Reports of files

A file's report is written as a JSON object with the file's name, its step reports and, when there are any, its
unhandled kinds.
-/

namespace QueryOutline

/-- How outlines are written. -/
inductive OutputFormat where
  | text
  | json
  deriving DecidableEq, Repr

namespace OutputFormat

def name : OutputFormat → String
  | text => "text"
  | json => "json"

def ofName? (name : String) : Option OutputFormat := [text, json].find? fun format => format.name = name

end OutputFormat

/-- The outline of one file. -/
structure FileReport where
  file : String
  steps : List StepReport
  unhandledKinds : List String
  deriving DecidableEq, Repr

namespace StepReport

def toJson (report : StepReport) : Json.Value :=
  .object [("name", (report.name.map Json.Value.string).getD .null),
    ("references", .array (report.references.map Json.Value.string)), ("rendered", .string report.rendered)]

end StepReport

namespace FileReport

def ofOutline (file : String) (outline : Outline) : FileReport :=
  ⟨file, outline.stepReports, outline.unhandledKinds⟩

def toJson (report : FileReport) : Json.Value :=
  .object ([("file", .string report.file), ("steps", .array (report.steps.map StepReport.toJson))] ++
    if report.unhandledKinds.isEmpty then []
    else [("unhandled_kinds", .array (report.unhandledKinds.map Json.Value.string))])

end FileReport

end QueryOutline
