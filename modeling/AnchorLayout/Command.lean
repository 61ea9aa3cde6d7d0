import AnchorLayout.Clause.Reader
import AnchorLayout.Session.Run
/-!
# Commands

  Two commands: one checks clause texts, one for each line, and prints them as JSON; the other
  builds a small docked layout, runs a click in two steps, and prints every patch.

  Program        `lint`, `demo`.
  Specification  `Report`: exit code, output and diagnostics.
  Crux           both stop at the first error and keep what was printed before it.
-/

namespace AnchorLayout

/-- What a command leaves behind. -/
structure Report where
  code : Nat
  output : String
  diagnostics : String
deriving DecidableEq

namespace Report

/-- Nothing said, and all well. -/
def empty : Report := ⟨0, "", ""⟩

/-- One more line of output. -/
def print (r : Report) (line : String) : Report := { r with output := r.output ++ line ++ "\n" }

/-- One more line of diagnostics. -/
def remark (r : Report) (line : String) : Report :=
  { r with diagnostics := r.diagnostics ++ line ++ "\n" }

/-- The end of a command that has failed. -/
def failed (r : Report) (message : String) : Report :=
  { r.remark ("Error: " ++ message) with code := 1 }

/-- A message about a place, with its cause. -/
def caused (place cause : String) : String := place ++ "\n\nCaused by:\n    " ++ cause

end Report

/-! ## Checking clause texts -/

/-- The lines of a text. -/
def splitLines : List Char → List (List Char)
  | [] => [[]]
  | '\n' :: rest => [] :: splitLines rest
  | c :: rest =>
    match splitLines rest with
    | [] => [[c]]
    | line :: lines => (c :: line) :: lines

/-- A clause as the command prints it. -/
def Constraint.summary (c : Constraint) : Json :=
  .object [("target", .string c.target.wireName), ("comparison", .string c.comparison.symbol),
    ("value", .string (Expr.text c.value)),
    ("condition", (c.guardText.map Json.string).getD .null),
    ("animation", (c.animation.map fun a => Json.string a.text).getD .null),
    ("text", .string c.text)]

/-- The report after some more lines, the first of which has the given number. -/
def lintLines (path : String) : Nat → List String → Report → Report
  | _, [], report => report
  | number, line :: rest, report =>
    if trimBlank line = "" then lintLines path (number + 1) rest report
    else
      match clauses? (trimBlank line) with
      | .ok rules =>
        let summary := Json.object [("line", .integer number),
          ("clauses", .array (rules.map Constraint.summary))]
        lintLines path (number + 1) rest (report.print summary.canonical.compact)
      | .error (position, fault) =>
        report.failed (Report.caused (path ++ ":" ++ toString number)
          (Error.malformed position fault).message)

/-- **Checking** a file of clause texts, one for each line that is not blank. -/
def lint (path text : String) : Report :=
  lintLines path 1 ((splitLines text.toList).map String.ofList) .empty

/-! ## The demonstration -/

namespace Demo

/-- A whole number as a value. -/
def number (n : Nat) : Expr := .num (.ofNat n)

/-- The first stage of a click: the button works, and fades. -/
def work (context : Context) : Script :=
  .request (.setProperty context.view "text" (.string "Working")) fun _ =>
    .animate { (∅ : Animation) with duration := some (.ofNat 1) }
      (.request (.setStyle context.view .alpha (.number (.ofRatio false 1 2))) fun _ =>
        .done context.value)
      .ofEnding

/-- The second stage of a click: the button is done. -/
def finish (context : Context) : Script :=
  .request (.setProperty context.view "text" (.string "Done")) fun _ =>
    .request (.setStyle context.view .alpha (.number (.ofNat 1))) fun _ => .done context.value

/-- A header at the top of the page, and a button below it. -/
def build : Operation ViewId := do
  let root := (← get).root
  let header ← Session.create "div"
  Session.dock header ⟨root, .top, some (.add, number 16)⟩
  Session.set header .height (.value (number 48))
  Session.setStyle header .backgroundColor (.color (.gray (.ofRatio false 9 10)))
  let button ← Session.create "button"
  Session.dock button ⟨header, .below, some (.add, number 8)⟩
  Session.setProperty button "text" (.string "Start")
  Session.on button .click (.ofStages [work, finish]) .immediate
  return button

/-- The report with a patch under a label. -/
def withPatch (report : Report) (label : String) (patch : Patch) : Report :=
  (report.remark ("== " ++ label)).print patch.json.pretty

/-- The click after the first patch, and its follow-up request. -/
def click (button : ViewId) (report : Report) : Operation Report := do
  let run := fun script : Script => script.run (Session.perform Session.nestingLimit)
  let clicked ← Session.dispatch run button .click .null
  let report := withPatch report "click" clicked
  match clicked.continuation with
  | none => return report.failed "click handler did not suspend"
  | some id =>
    match (← (Session.resume run id).attempt) with
    | .ok resumed => return withPatch report "resume" resumed
    | .error error => return report.failed error.message

/-- The report of a session that has just begun. -/
def play (s : Session) : Report :=
  match build s with
  | .error error _ => Report.empty.failed error.message
  | .ok button s =>
    match Session.renderUpdates s with
    | .error error _ => Report.empty.failed error.message
    | .ok patch s =>
      let report := withPatch .empty "initial" patch
      match click button report s with
      | .error error _ => report.failed error.message
      | .ok report _ => report

end Demo

/-- **The demonstration** under the options of a file, if there is one. -/
def demo (config : Option String) (issuer : Issuer) : Report :=
  match (config.map Options.parse?).getD (.ok .default) with
  | .error error => Report.empty.failed error.message
  | .ok options => Demo.play (.new options issuer)

end AnchorLayout
