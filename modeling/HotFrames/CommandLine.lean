import HotFrames.Analyze

/-!
# The command line

Arguments are taken from left to right, and the first one that is wrong, or that asks for the help
or the version, decides. After `--` every argument is a path. An option is given at most once; the
value of an option is the text after its equals sign, or the next argument unless that looks like
an option.
-/

namespace HotFrames.CommandLine

/-- What the arguments ask for. -/
inductive Request
  /-- to run the command; `verbose` asks for log lines, of which it writes none -/
  | analyze (options : Options) (verbose : Bool)
  | help
  | version
  | usageError
  deriving DecidableEq, Repr

/-- The options met so far. -/
structure Draft where
  input : Option String := none
  top : Option Nat := none
  json : Option String := none
  verbose : Bool := false
  deriving DecidableEq, Repr

/-! ### Arguments -/

/-- The kinds of arguments before `--`. -/
inductive Argument
  /-- `--` -/
  | endOfOptions
  /-- `--name` or `--name=value` -/
  | long (name : String) (value : Option String)
  /-- `-abc` -/
  | short (letters : List Char)
  | plain (text : String)
  deriving DecidableEq, Repr

namespace Argument

/-- The kind of an argument. A lone dash is plain. -/
def ofString (a : String) : Argument :=
  match a.toList with
  | ['-'] => plain a
  | ['-', '-'] => endOfOptions
  | '-' :: '-' :: body =>
    let name := String.ofList (body.takeWhile (· ≠ '='))
    match body.dropWhile (· ≠ '=') with
    | [] => long name none
    | _ :: value => long name (some (String.ofList value))
  | '-' :: letters => short letters
  | _ => plain a

end Argument

namespace Draft

/-- The bound of numbers of entries, `2 ^ 64`. -/
def topBound : Nat := 0x10000000000000000

/-- Takes a path for the profile; there is one, and it is not empty. -/
def setInput (d : Draft) (text : String) : Option Draft :=
  if d.input.isSome ∨ text.isEmpty then none else some { d with input := some text }

/-- Takes the number of entries, which may have a plus sign. -/
def setTop (d : Draft) (text : String) : Option Draft :=
  match Numeral.readSigned? topBound text.toList with
  | some n => if d.top.isSome then none else some { d with top := some n }
  | none => none

/-- Takes a path for the JSON report, which is not empty. -/
def setJson (d : Draft) (text : String) : Option Draft :=
  if d.json.isSome ∨ text.isEmpty then none else some { d with json := some text }

/-- Takes the wish for log lines. -/
def setVerbose (d : Draft) : Option Draft :=
  if d.verbose then none else some { d with verbose := true }

/-- What the arguments ask for at their end. -/
def finish (d : Draft) : Request :=
  match d.input with
  | none => .usageError
  | some input =>
    let defaults : Options := {}
    let options : Options :=
      { input := ⟨input⟩, top := d.top.getD defaults.top, json := d.json.map Path.mk }
    .analyze options d.verbose

end Draft

/-- Takes the letters of a short argument; an answer that decides ends it. -/
def takeLetters (d : Draft) : List Char → Except Request Draft
  | [] => .ok d
  | 'h' :: _ => .error .help
  | 'V' :: _ => .error .version
  | 'v' :: letters =>
    match d.setVerbose with
    | some d => takeLetters d letters
    | none => .error .usageError
  | _ :: _ => .error .usageError

/-- Takes the arguments after `--`. -/
def takePaths (d : Draft) : List String → Request
  | [] => d.finish
  | a :: rest =>
    match d.setInput a with
    | some d => takePaths d rest
    | none => .usageError

/-- Whether an argument cannot be the value of the option before it. -/
def looksLikeOption (a : String) : Bool := a.toList.head? = some '-' && a ≠ "-"

/-- The setter of an option that has a value. -/
def valueOption? (name : String) : Option (Draft → String → Option Draft) :=
  if name = "top" then some Draft.setTop
  else if name = "json" then some Draft.setJson
  else none

/-- What a long argument without a value asks for. -/
def takeFlag (d : Draft) (name : String) : Except Request Draft :=
  if name = "help" then .error .help
  else if name = "version" then .error .version
  else if name = "verbose" then
    match d.setVerbose with
    | some d => .ok d
    | none => .error .usageError
  else .error .usageError

/-- Takes arguments in order. -/
def takeArguments (d : Draft) : List String → Request
  | [] => d.finish
  | a :: rest =>
    match Argument.ofString a with
    | .endOfOptions => takePaths d rest
    | .plain text =>
      match d.setInput text with
      | some d => takeArguments d rest
      | none => .usageError
    | .short letters =>
      match takeLetters d letters with
      | .ok d => takeArguments d rest
      | .error request => request
    | .long name value =>
      match valueOption? name, value with
      | some set, some value =>
        match set d value with
        | some d => takeArguments d rest
        | none => .usageError
      | some set, none =>
        match rest with
        | [] => .usageError
        | value :: rest =>
          if looksLikeOption value then .usageError
          else
            match set d value with
            | some d => takeArguments d rest
            | none => .usageError
      | none, some _ => .usageError
      | none, none =>
        match takeFlag d name with
        | .ok d => takeArguments d rest
        | .error request => request

/-- What some arguments ask for. -/
def parse (args : List String) : Request := takeArguments {} args

/-! ### Running -/

/-- The text of the version. -/
def versionText : String := "analyze 0.1.0\n"

/-- The text of the help. -/
def helpText : String := String.join [
  "Summarize collapsed-stack profiles by leaf frame and namespace hot spots\n",
  "\n",
  "Usage: analyze [OPTIONS] <COLLAPSED_FILE>\n",
  "\n",
  "Arguments:\n",
  "  <COLLAPSED_FILE>  Collapsed-stack file (\"frame;frame;frame count\" per line)\n",
  "\n",
  "Options:\n",
  "      --top <TOP>    Number of entries per section [default: 12]\n",
  "      --json <JSON>  Also write the report as JSON to this path\n",
  "  -v, --verbose      Enable verbose logging\n",
  "  -h, --help         Print help\n",
  "  -V, --version      Print version\n"]

/-- What is shown when the arguments make no request. -/
def usageText : String := String.join [
  "error: invalid arguments\n",
  "\n",
  "Usage: analyze [OPTIONS] <COLLAPSED_FILE>\n",
  "\n",
  "For more information, try '--help'.\n"]

/-- A text whose lines after the first are indented. -/
def indented (spaces : Nat) (text : String) : String :=
  String.ofList (text.toList.flatMap fun c =>
    if c = '\n' then c :: List.replicate spaces ' ' else [c])

/-- The causes beneath an error: one stands alone, several are numbered from zero. -/
def causesText : List String → String
  | [] => ""
  | [cause] => "\nCaused by:\n    " ++ indented 4 cause ++ "\n"
  | causes =>
    "\nCaused by:\n" ++ String.join (causes.zipIdx.map fun (cause, i) =>
      Padded.right 5 (Nat.repr i) ++ ": " ++ indented 7 cause ++ "\n")

/-- The text of an error with its causes, outermost first. -/
def errorText : List String → String
  | [] => ""
  | outer :: causes => "Error: " ++ outer ++ "\n" ++ causesText causes

/-- How the process ends: its exit code, and what it shows to the user besides its output. -/
structure Exit where
  code : Nat
  errors : String := ""
  deriving DecidableEq, Repr

variable {m : Type → Type} [Monad m]

/-- Writes a text to the output. -/
def display (host : Host m) (text : String) : m Exit := do
  match ← host.writeOut (Utf8.encode text.toList) with
  | .ok () => pure { code := 0 }
  | .error fault => pure { code := 1, errors := errorText [fault.message] }

/-- Runs the command with some arguments. -/
def run (host : Host m) (args : List String) : m Exit := do
  match parse args with
  | .help => display host helpText
  | .version => display host versionText
  | .usageError => pure { code := 2, errors := usageText }
  | .analyze options _ =>
    match options.check with
    | .error invalid => pure { code := 1, errors := errorText [invalid.message] }
    | .ok () =>
      match ← Analyze.run host options with
      | .ok outcome => pure { code := outcome.exitCode }
      | .error failure => pure { code := 1, errors := errorText failure.chain }

end HotFrames.CommandLine
