import Sigil.CommandLine.Report

/-!
# The program

Runs the command line on the files of the system. A file is read when the answer turns out to
depend on it, and the answer is then worked out again.
-/

namespace Sigil.CommandLine

/-- The fault that a failure of the system stands for. -/
def faultOf : IO.Error → FileFault
  | .noFileOrDirectory .. => .missing
  | .inappropriateType _ code details | .invalidArgument _ code details
  | .permissionDenied _ code details | .resourceExhausted _ code details
  | .noSuchThing _ code details | .otherError code details | .illegalOperation code details =>
    if code = 20 then .notDirectory
    else if code = 21 then .isDirectory
    else if code = 36 then .nameTooLong
    else .other s!"{details} (os error {code})"
  | e => .other (toString e)

/-- Reads a file of the system. -/
def readSystemFile (path : Text) : IO (Except FileFault (List UInt8)) := do
  if path.contains '\x00' then
    return .error .nulInName
  try
    return .ok (← IO.FS.readBinFile (String.ofList path)).toList
  catch e =>
    return .error (faultOf e)

/-- Works out the answer, reading files as they are needed. -/
partial def answer (args : List Text) (known : List (Text × Except FileFault (List UInt8))) :
    IO Report := do
  let report := report (Files.ofList known) args
  match report.missing with
  | some path =>
    if (known.lookup path).isSome then
      return report
    else
      answer args ((path, ← readSystemFile path) :: known)
  | none => return report

end Sigil.CommandLine

open Sigil.CommandLine in
/-- Answers the arguments of the program. -/
def main (args : List String) : IO UInt32 := do
  let report ← answer (args.map String.toList) []
  IO.print report.output
  if let some error := report.error then
    IO.eprintln error
  return report.code.toUInt32
