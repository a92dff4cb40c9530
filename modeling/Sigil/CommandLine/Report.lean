import Sigil.CommandLine.Options
import Sigil.Host.Files
import Sigil.Machine.Run

/-!
# The command line

What the program answers to its arguments, given the files it can see: an exit code, the text it
prints and, if it fails, an error text.
-/

namespace Sigil.CommandLine

/-- The answer of the program. -/
structure Report where
  code : Nat
  output : String := ""
  error : Option String := none
  /-- The path of a source that was looked for and is missing. -/
  missing : Option Text := none
deriving DecidableEq, Repr

/-- The extension that scripts have. -/
def scriptExtension : Text := "vscc".toList

/-- Lines with their ends. -/
def unlines (lines : List Text) : String :=
  String.ofList (lines.flatMap (· ++ ['\n']))

/-- A text whose every line is indented. -/
def indent (text : String) : String :=
  let lines := (Text.split '\n' text.toList).map ("    ".toList ++ ·)
  String.ofList (List.intercalate ['\n'] lines)

/-- A failure, with its cause if there is one. -/
def fail (what : String) (cause : Option String) : String :=
  match cause with
  | some cause => s!"Error: {what}\n\nCaused by:\n{indent cause}"
  | none => s!"Error: {what}"

/-- One line of the token table. -/
def tokenLine (node : Node) (index : Nat) : Text :=
  let parent := node.parent.elim ['-'] (Nat.toDigits 10)
  Text.padLeft 5 (Nat.toDigits 10 index) ++ [' ', ' ']
    ++ Text.padRight 8 node.kind.name.toList ++ [' ']
    ++ Text.padLeft 6 parent ++ [' ', ' '] ++ Text.quote node.value

/-- The token table of a source. -/
def tokenTable (source : Text) : List Text :=
  (Nodes.ofSource source).zipIdx.map fun (node, index) => tokenLine node index

/-- Prints the token table of a file. -/
def reportTokens (files : Files) (file : Text) : Report :=
  match files.readText file with
  | .ok source => { code := 0, output := unlines (tokenTable source) }
  | .error fault =>
    { code := 1, error := some (fail s!"failed to read {String.ofList file}" (some fault.reason)) }

/-- The directory below which sources are looked for. -/
def rootOf (file : Text) (options : Options) : Text :=
  options.root.getD (Path.parent file)

/-- The host of a run from the command line. -/
def hostOf (files : Files) (file : Text) (options : Options) : Host :=
  { loader := files.loader (rootOf file options)
    depthLimit := options.depthLimit.getD defaultDepthLimit }

/-- Runs the script of a name. -/
def reportRun (files : Files) (file name : Text) (options : Options) : Report :=
  let (result, m) := Machine.runFile (hostOf files file options) {} name
  let output := unlines m.output
  match result with
  | .ok _ => { code := 0, output }
  | .error e =>
    { code := 1
      output
      error := some (fail s!"failed to run {String.ofList file}" (some e.message))
      missing := match e with
        | .load name .notFound => some (Path.join (rootOf file options) name)
        | _ => none }

/-- Runs a script or prints its token table. -/
def reportFile (files : Files) (file : Text) (options : Options) : Report :=
  if Path.extension? file ≠ some scriptExtension then
    { code := 1
      error :=
        let extension := String.ofList scriptExtension
        some (fail s!"{String.ofList file} is not a .{extension} file" none) }
  else if files.isFile file = false then
    { code := 1
      error := some (fail s!"{String.ofList file} does not exist" none)
      missing := some file }
  else if options.tokens then
    reportTokens files file
  else
    reportRun files file ((Path.fileName? file).getD []) options

/-- The answer of the program to its arguments. -/
def report (files : Files) (args : List Text) : Report :=
  match Request.ofArgs args with
  | .run file options => reportFile files file options
  | .version => { code := 0, output := "vsyc 0.0.1\n" }
  | .help => { code := 0 }
  | .invalid => { code := 2 }

end Sigil.CommandLine
