import AnchorLayout.Command
/-!
# The command line

  `lint --in FILE` and `demo [--config FILE]`.  Only files and streams are handled here.
-/

namespace AnchorLayout.CommandLine

/-- Print a report and hand on its code. -/
def finish (report : Report) : IO UInt32 := do
  IO.print report.output
  IO.eprint report.diagnostics
  return UInt32.ofNat report.code

/-- The contents of a file, or why there are none. -/
def contents (path : String) : IO (Except String String) := do
  try
    return .ok (← IO.FS.readFile path)
  catch error => return .error (toString error)

/-- A beginning for continuation identifiers that no earlier run has used. -/
def freshIssuer : IO String := do
  let bytes ← IO.getRandomBytes 8
  return String.join <| bytes.toList.map fun byte =>
    String.ofList (Nat.toDigits 16 (byte.toNat + 256))

end AnchorLayout.CommandLine

open AnchorLayout AnchorLayout.CommandLine

/-- Run the command that the arguments name; anything else is answered with the usage. -/
def main (arguments : List String) : IO UInt32 := do
  match arguments with
  | ["lint", "--in", path] =>
    match (← contents path) with
    | .ok text => finish (lint path text)
    | .error cause =>
      finish (Report.empty.failed (Report.caused ("read '" ++ path ++ "'") cause))
  | ["demo"] => finish (demo none (← freshIssuer))
  | ["demo", "--config", path] =>
    match (← contents path) with
    | .ok text => finish (demo (some text) (← freshIssuer))
    | .error _ => finish (Report.empty.failed (Error.refused .missingOptions).message)
  | _ =>
    IO.eprintln "usage: lint --in FILE | demo [--config FILE]"
    return 2
