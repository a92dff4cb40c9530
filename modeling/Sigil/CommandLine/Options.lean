import Sigil.Double.Decimal

/-!
# Command-line options

Arguments are taken in order. The first one that cannot be understood makes the whole command line
invalid, unless the version or the help was asked for before it.
-/

namespace Sigil.CommandLine

/-- What is known of the options while arguments are being read. -/
structure Options where
  file : Option Text := none
  root : Option Text := none
  depthLimit : Option Nat := none
  tokens : Bool := false
deriving DecidableEq, Repr

/-- What a command line asks for. -/
inductive Request where
  | run (file : Text) (options : Options)
  | version
  | help
  | invalid
deriving DecidableEq, Repr

namespace Options

/-- Takes up a file name; there is only one, and it is not empty. -/
def setFile? (o : Options) (file : Text) : Option Options :=
  if o.file.isSome || file.isEmpty then none else some { o with file := some file }

/-- Takes up a root directory; there is only one, and it is not empty. -/
def setRoot? (o : Options) (root : Text) : Option Options :=
  if o.root.isSome || root.isEmpty then none else some { o with root := some root }

/-- Takes up a limit; there is only one, and it is a number. -/
def setDepthLimit? (o : Options) (limit : Text) : Option Options :=
  if o.depthLimit.isSome then
    none
  else
    (Numeral.index? limit).map fun n => { o with depthLimit := some n }

/-- Takes up the wish for a token table, which may be uttered once. -/
def setTokens? (o : Options) : Option Options :=
  if o.tokens then none else some { o with tokens := true }

/-- The request of the options once all arguments are read. -/
def toRequest (o : Options) : Request :=
  match o.file with
  | some file => .run file o
  | none => .invalid

end Options

/-- The options that take a value. -/
def setter? (name : Text) : Option (Options → Text → Option Options) :=
  if name = "root".toList then
    some Options.setRoot?
  else if name = "max-call-depth".toList then
    some Options.setDepthLimit?
  else
    none

/-- The effect of an argument: options to go on with, or a request that settles everything. -/
abbrev Effect := Except Request Options

/-- Options that could not take an argument up make the command line invalid. -/
def Effect.ofOption : Option Options → Effect
  | some o => .ok o
  | none => .error .invalid

/-- A long option that takes no value. -/
def longFlag (o : Options) (name : Text) : Effect :=
  if name = "tokens".toList then
    .ofOption o.setTokens?
  else if name = "verbose".toList then
    .ok o
  else if name = "version".toList then
    .error .version
  else if name = "help".toList then
    .error .help
  else
    .error .invalid

/-- A letter of a group of short options. -/
def shortFlag (o : Options) (letter : Char) : Effect :=
  if letter = 'v' then
    .ok o
  else if letter = 'V' then
    .error .version
  else if letter = 'h' then
    .error .help
  else
    .error .invalid

/-- Whether an argument can be the value of the option before it. -/
def isValue (arg : Text) : Bool :=
  arg.head? != some '-' || arg == ['-']

/-- Reads the arguments behind a `--`, all of which are files. -/
def readFiles (o : Options) : List Text → Request
  | [] => o.toRequest
  | arg :: rest =>
    match o.setFile? arg with
    | some o => readFiles o rest
    | none => .invalid

/-- Reads an argument that needs none of those behind it. -/
def readSingle (o : Options) (arg : Text) : Effect :=
  match arg with
  | '-' :: '-' :: long =>
    match Text.cut ['='] long with
    | some (name, value) =>
      match setter? name with
      | some set => .ofOption (set o value)
      | none => .error .invalid
    | none => longFlag o long
  | '-' :: letter :: letters => (letter :: letters).foldlM shortFlag o
  | _ => .ofOption (o.setFile? arg)

/-- The setter of an option whose value is the next argument. -/
def awaitsValue? (arg : Text) : Option (Options → Text → Option Options) :=
  match arg with
  | '-' :: '-' :: long => setter? long
  | _ => none

/-- Reads arguments in order. -/
def read (o : Options) : List Text → Request
  | [] => o.toRequest
  | arg :: rest =>
    if arg = ['-', '-'] then
      readFiles o rest
    else
      match awaitsValue? arg with
      | some set =>
        match rest with
        | [] => .invalid
        | value :: rest =>
          if isValue value then
            match set o value with
            | some o => read o rest
            | none => .invalid
          else
            .invalid
      | none =>
        match readSingle o arg with
        | .ok o => read o rest
        | .error request => request

/-- What the arguments of a command line ask for. -/
def Request.ofArgs (args : List Text) : Request :=
  read {} args

end Sigil.CommandLine
