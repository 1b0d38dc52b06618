import ThriftIdl.Canonical
import ThriftIdl.Data.Document
import ThriftIdl.Data.Json
import ThriftIdl.Folder
import ThriftIdl.Manner
import ThriftIdl.Options

/-!
# Checking files

The command that checks files reads each one strictly, directly or over tokens, and prints one
line for a file that is missing, is not UTF-8 or is not accepted. The document of an accepted file
may be printed as JSON and as canonical text. Each file is checked on its own (`checkFile`); the
command fails if one of them fails, and says how many did if there is more than one. A document
without canonical text ends the command when its text is asked for, and so does the first
container if the nesting limit is left blank.
-/
namespace ThriftIdl

/-- What the command is asked to do. -/
structure CheckSettings where
  /-- Print documents as JSON. -/
  json : Bool
  /-- Print documents as canonical text. -/
  format : Bool
  /-- Read over tokens. -/
  tokens : Bool
  /-- The nesting limit, unless it is left blank. -/
  limit : Option Int
  /-- Say where direct reading stopped. -/
  verbose : Bool
deriving DecidableEq, Repr

/-- The command with its options. -/
def checkForm : CommandForm CheckSettings where
  program := "thrift_check.py"
  usage :=
    "usage: thrift_check.py [-h] [--json] [--format] [--peg]\n" ++
    "                       [--max-depth MAX_DEPTH] [-v]\n" ++
    "                       [files ...]\n"
  details :=
    "\nCheck Thrift IDL files for syntax errors.\n" ++
    "\npositional arguments:\n" ++
    "  files                 Files to check\n" ++
    "\noptions:\n" ++
    "  -h, --help            show this help message and exit\n" ++
    "  --json                Print each parsed document as JSON\n" ++
    "  --format              Print each parsed document as canonical IDL\n" ++
    "  --peg                 Use the Lark grammar parser instead of the recursive\n" ++
    "                        descent parser\n" ++
    "  --max-depth MAX_DEPTH\n" ++
    "                        Maximum nesting of container types and constants\n" ++
    "                        (default: 64)\n" ++
    "  -v, --verbose         Log parser progress to stderr\n"
  options := [
    ⟨["-h", "--help"], .help⟩,
    ⟨["--json"], .switch fun settings => { settings with json := true }⟩,
    ⟨["--format"], .switch fun settings => { settings with format := true }⟩,
    ⟨["--peg"], .switch fun settings => { settings with tokens := true }⟩,
    ⟨["--max-depth"], .integer fun limit settings => { settings with limit := limit }⟩,
    ⟨["-v", "--verbose"], .switch fun settings => { settings with verbose := true }⟩]
  takesFiles := true
  standard := ⟨false, false, false, some standardLimit, false⟩

/-- What ends the command before all files are checked. -/
inductive Interruption where
  /-- A document has no canonical text. -/
  | unprintable (reason : Unprintable)
  /-- A path does not lead to a file. -/
  | unreadable (reason : Unreadable)
  /-- There is no nesting limit that a container could be held against. -/
  | limitBlank (manner : Manner)
deriving DecidableEq

/-- The reason in words. -/
def Interruption.message : Interruption → String
  | .unprintable reason => reason.message
  | .unreadable reason => reason.message
  | .limitBlank .tokens => "'>' not supported between instances of 'int' and 'list'"
  | .limitBlank _ => "'>=' not supported between instances of 'int' and 'list'"

/-- What checking a file gives. -/
structure FileReport where
  /-- Whether the file failed. -/
  failed : Bool
  /-- What is printed. -/
  output : List Char
  /-- What is said on the side. -/
  aside : List Char
deriving DecidableEq, Repr

/-- The line about a file that failed. -/
def failureLine (path : Path) (position : Option Position) (message : String) : List Char :=
  path.text ++ (position.elim [] fun position =>
    ':' :: Text.integer position.line ++ ':' :: Text.integer position.column) ++
    ": error: ".toList ++ message.toList ++ ['\n']

/-- The line about a text that is not accepted. -/
def Rejected.line (path : Path) : Rejected → List Char
  | .raised found => failureLine path found.report.1 found.report.2
  | .refusal (.at position _ message) => failureLine path (some position) message
  | .refusal found => failureLine path none found.message

/-- What is said about direct reading that stopped before the end of the text. -/
def stopNote (limit : Int) (source : List Char) : List Char :=
  match readDefinitions limit source with
  | .error _ => []
  | .ok stop =>
    if stop.rest.isEmpty then []
    else
      let position := positionIn source 0 stop.rest.length
      "thrift_parser: Stopped after ".toList ++ Text.digits stop.document.definitions.length ++
        " definitions at line ".toList ++ Text.integer position.line ++ ", column ".toList ++
        Text.integer position.column ++ ['\n']

namespace CheckSettings

/-- What is printed of a document that was accepted. -/
def printed (settings : CheckSettings) (document : Document Position) :
    Except Unprintable (List Char) := do
  let json := if settings.json then document.data.json 0 ++ ['\n'] else []
  let text ← if settings.format then document.idl else .ok []
  return json ++ text

/-- How texts are read. -/
def manner (settings : CheckSettings) : Manner := if settings.tokens then .tokens else .strict

/-- Check a text. A blank limit matters as soon as a limit of nought would. -/
def checkSource (settings : CheckSettings) (path : Path) (source : List Char) :
    Except Interruption FileReport :=
  let limit := settings.limit.getD 0
  let aside := if settings.verbose && !settings.tokens then stopNote limit source else []
  match settings.manner.read limit source with
  | .error rejected =>
    if settings.limit.isNone && rejected.isNesting then .error (.limitBlank settings.manner)
    else .ok ⟨true, rejected.line path, aside⟩
  | .ok document => do
    let text ← (settings.printed document).mapError .unprintable
    return ⟨false, text, aside⟩

/-- Check a file. -/
def checkFile (settings : CheckSettings) (path : Path) (entry : Entry) :
    Except Interruption FileReport :=
  match entry.source path with
  | .ok source => settings.checkSource path source
  | .error .missing => .ok ⟨true, failureLine path none Unreadable.missing.message, []⟩
  | .error (.notUtf8 fault) =>
    .ok ⟨true, failureLine path none ("not UTF-8 text (" ++ fault.message ++ ")"), []⟩
  | .error reason => .error (.unreadable reason)

end CheckSettings

/-- What is said at the end about files that failed among several. -/
def failureCount (failed all : Nat) : List Char :=
  if 0 < failed && 1 < all then
    '\n' :: Text.digits failed ++ " of ".toList ++ Text.digits all ++ " file(s) failed\n".toList
  else []

/-- All reports together. -/
def summary (reports : List FileReport) : CommandResult :=
  let failed := reports.countP (·.failed)
  { status := if 0 < failed then 1 else 0
    output := reports.flatMap (·.output) ++ failureCount failed reports.length
    aside := reports.flatMap (·.aside) }

/-- The paths that the command looks at when it is called with arguments. -/
def pathsToCheck (arguments : List String) : List Path :=
  match checkForm.start arguments with
  | .ok (_, names) => names.map Path.ofText
  | .error _ => []

/-- The command, called with arguments; `look` says what a path leads to. -/
def check (look : Path → Entry) (arguments : List String) : Except Interruption CommandResult :=
  match checkForm.start arguments with
  | .error result => .ok result
  | .ok (_, []) => .ok ⟨1, checkForm.help.toList, []⟩
  | .ok (settings, names) => do
    let reports ← names.mapM fun name =>
      let path := Path.ofText name
      settings.checkFile path (look path)
    return summary reports

end ThriftIdl
