import ThriftIdl.Failure
import ThriftIdl.Text.Digit
import ThriftIdl.WrittenNumber

/-!
# Options of a command

A command is given arguments: options, which begin with a dash, and names of files. A long option
may be cut short as long as no other begins so, and its value may follow in the same argument
after an equals sign; short switches may be written together after one dash, or with an equals sign
after the first. A value of two dashes leaves the option blank. After an argument of two dashes all
are names. First every argument is sorted by what it looks like
(`CommandForm.sort`), and then the options act one after the other on the settings of the command
(`CommandForm.act`). The names before, between or after the options belong to the command only
if they stand together; all others, and all options that are not known, are left over, and
leaving any over is a fault.
-/
namespace ThriftIdl

/-- What an option does to the settings of a command. -/
inductive OptionEffect (σ : Type) where
  /-- Ask for help. -/
  | help
  /-- Change the settings. -/
  | switch (change : σ → σ)
  /-- Take an integer, which may be left blank. -/
  | integer (change : Option Int → σ → σ)
  /-- Take a double, which may be left blank. -/
  | double (change : Option Double → σ → σ)

/-- Whether an option takes a value. -/
def OptionEffect.takesValue {σ : Type} : OptionEffect σ → Bool
  | .help | .switch _ => false
  | .integer _ | .double _ => true

/-- What a command leaves behind. -/
structure CommandResult where
  /-- The exit status. -/
  status : Nat
  /-- What is printed. -/
  output : List Char
  /-- What is said on the side. -/
  aside : List Char
deriving DecidableEq, Repr

/-- An option of a command. -/
structure OptionForm (σ : Type) where
  /-- The spellings, with their dashes. -/
  names : List String
  /-- What it does. -/
  effect : OptionEffect σ

/-- All spellings of an option. -/
def OptionForm.title {σ : Type} (option : OptionForm σ) : String := "/".intercalate option.names

/-- A command with its options. -/
structure CommandForm (σ : Type) where
  /-- The name of the command. -/
  program : String
  /-- How it is called, in one or more lines. -/
  usage : String
  /-- What help says beyond that. -/
  details : String
  /-- The options. -/
  options : List (OptionForm σ)
  /-- Whether names of files may be given. -/
  takesFiles : Bool
  /-- The settings without any option. -/
  standard : σ

/-- Why arguments are refused. -/
inductive UsageFault where
  /-- A shortened option fits several. -/
  | ambiguous (argument : List Char) (names : List String)
  /-- A value is missing. -/
  | valueExpected (option : String)
  /-- A value is no integer. -/
  | notInteger (option : String) (text : List Char)
  /-- A value is no double. -/
  | notDouble (option : String) (text : List Char)
  /-- A switch is given a value. -/
  | valueIgnored (option : String) (text : List Char)
  /-- Arguments are left over. -/
  | unrecognized (arguments : List (List Char))
deriving DecidableEq

/-- The reason in words. -/
def UsageFault.message : UsageFault → String
  | .ambiguous argument names =>
    "ambiguous option: " ++ String.ofList argument ++ " could match " ++ ", ".intercalate names
  | .valueExpected option => "argument " ++ option ++ ": expected one argument"
  | .notInteger option text => "argument " ++ option ++ ": invalid int value: " ++ shown text
  | .notDouble option text => "argument " ++ option ++ ": invalid float value: " ++ shown text
  | .valueIgnored option text =>
    "argument " ++ option ++ ": ignored explicit argument " ++ shown text
  | .unrecognized arguments =>
    "unrecognized arguments: " ++ String.ofList ([' '].intercalate arguments)

/-- An argument, sorted by what it looks like. -/
inductive Argument (σ : Type) where
  /-- A name. -/
  | name (text : List Char)
  /-- The two dashes after which all arguments are names. -/
  | divider
  /-- An option with the value in the same argument, if there is one. -/
  | option (option : OptionForm σ) (value : Option (List Char))
  /-- A switch with a value. -/
  | excess (option : OptionForm σ) (value : List Char)
  /-- An option that is not known. -/
  | unknown (text : List Char)

/-- Whether a text is a number with a minus sign; a line feed may end it. -/
def isNegativeNumber : List Char → Bool
  | '-' :: text =>
    let text := if text.getLast? = some '\n' then text.dropLast else text
    let digit (c : Char) : Bool := (Text.digitValue? c).isSome
    let whole := text.takeWhile digit
    match text.dropWhile digit with
    | [] => !whole.isEmpty
    | '.' :: fraction => !fraction.isEmpty && fraction.all digit
    | _ => false
  | _ => false

namespace CommandForm

variable {σ : Type} (form : CommandForm σ)

/-- Every spelling of every option. -/
def spellings : List (String × OptionForm σ) :=
  form.options.flatMap fun option => option.names.map fun name => (name, option)

/-- The option of a spelling. -/
def named? (name : List Char) : Option (OptionForm σ) :=
  (form.spellings.find? fun spelling => spelling.1.toList = name).map (·.2)

/-- An option after one dash with text behind it in the same argument. A switch is followed by
other options, each of one character; an option that takes a value takes all that is left. A switch
that no option follows is given a value, which spoils the whole argument. -/
def group (option : OptionForm σ) :
    List Char → Except (OptionForm σ × List Char) (List (Argument σ))
  | [] =>
    if option.effect.takesValue then .ok [.option option (some [])] else .error (option, [])
  | c :: text =>
    if option.effect.takesValue then .ok [.option option (some (c :: text))]
    else
      match form.named? ['-', c], text with
      | none, _ => .error (option, c :: text)
      | some next, [] => .ok [.option option none, .option next none]
      | some next, _ :: _ => (group next text).map (.option option none :: ·)

/-- The arguments of a group; a switch that is given a value is all that is left of a spoilt one. -/
def grouped (option : OptionForm σ) (text : List Char) : List (Argument σ) :=
  match form.group option text with
  | .ok arguments => arguments
  | .error (switch, value) => [.excess switch value]

/-- A long option with a value after an equals sign. -/
def valued (option : OptionForm σ) (value : List Char) : List (Argument σ) :=
  if option.effect.takesValue then [.option option (some value)] else [.excess option value]

/-- A long option that may be cut short. -/
def long (argument : List Char) : Except UsageFault (Option (List (Argument σ))) :=
  let beginning := argument.takeWhile (· ≠ '=')
  match form.spellings.filter fun spelling => beginning.isPrefixOf spelling.1.toList with
  | [] => .ok none
  | [(_, option)] =>
    match argument.drop beginning.length with
    | [] => .ok (some [.option option none])
    | _ :: value => .ok (some (valued option value))
  | several => .error (.ambiguous argument (several.map (·.1)))

/-- What an argument looks like that is no option: a number or anything with a blank in it is a
name. -/
def sortUnknown (argument : List Char) : List (Argument σ) :=
  if isNegativeNumber argument || argument.contains ' ' then [.name argument]
  else [.unknown argument]

/-- Sort an argument by what it looks like. -/
def sortOne (argument : List Char) : Except UsageFault (List (Argument σ)) :=
  match argument with
  | '-' :: c :: text =>
    match form.named? argument with
    | some option => .ok [.option option none]
    | none =>
      let beginning := argument.takeWhile (· ≠ '=')
      match form.named? beginning, argument.drop beginning.length with
      | some option, _ :: value =>
        .ok (if c = '-' then valued option value else form.grouped option value)
      | _, _ =>
        if c = '-' then (form.long argument).map fun found => found.getD (sortUnknown argument)
        else
          match form.named? ['-', c] with
          | some option => .ok (form.grouped option text)
          | none => .ok (sortUnknown argument)
  | _ => .ok [.name argument]

/-- Sort all arguments by what they look like. -/
def sort : List (List Char) → Except UsageFault (List (Argument σ))
  | [] => .ok []
  | ['-', '-'] :: arguments => .ok (.divider :: arguments.map .name)
  | argument :: arguments => do
    let sorted ← form.sortOne argument
    return sorted ++ (← sort arguments)

end CommandForm

/-- Where names of files belong to the command. -/
inductive Names where
  /-- None has been given so far. -/
  | none
  /-- The names given right before. -/
  | current
  /-- Names given before an option. -/
  | closed
deriving DecidableEq, Repr

/-- What the arguments so far say. -/
structure Intake (σ : Type) where
  /-- The settings. -/
  settings : σ
  /-- The names of the files. -/
  files : List (List Char)
  /-- Whether more names may follow. -/
  names : Names
  /-- The arguments left over. -/
  extras : List (List Char)

/-- Why no command is carried out. -/
inductive Stop where
  /-- Help is asked for. -/
  | help
  /-- The arguments are refused. -/
  | usage (fault : UsageFault)
deriving DecidableEq

namespace Intake

variable {σ : Type}

/-- Take an argument that can only be left over. -/
def leave (intake : Intake σ) (text : List Char) : Intake σ :=
  { intake with extras := intake.extras ++ [text] }

/-- End the current names of files. -/
def close (intake : Intake σ) : Intake σ :=
  { intake with names := if intake.names = .current then .closed else intake.names }

/-- Take names of files. -/
def take (intake : Intake σ) (names : List (List Char)) : Intake σ :=
  { intake with files := intake.files ++ names, names := .current }

/-- Change the settings. -/
def change (intake : Intake σ) (change : σ → σ) : Intake σ :=
  { intake with settings := change intake.settings }

end Intake

/-- The value that leaves an option blank. -/
def blankValue : List Char := ['-', '-']

/-- The number that a value stands for, or nothing if the value leaves the option blank. -/
def orBlank {α : Type} (number? : List Char → Option α) (value : List Char) : Option (Option α) :=
  if value = blankValue then some none else some <$> number? value

/-- Let an option act that is given a value. -/
def OptionForm.act {σ : Type} (option : OptionForm σ) (value : List Char) (intake : Intake σ) :
    Except Stop (Intake σ) :=
  match option.effect with
  | .help => .error .help
  | .switch change => .ok (intake.change change)
  | .integer change =>
    match orBlank writtenInteger? value with
    | some number => .ok (intake.change (change number))
    | none => .error (.usage (.notInteger option.title value))
  | .double change =>
    match orBlank writtenDouble? value with
    | some number => .ok (intake.change (change number))
    | none => .error (.usage (.notDouble option.title value))

namespace CommandForm

variable {σ : Type} (form : CommandForm σ)

/-- Let sorted arguments act one after the other. -/
def act : List (Argument σ) → Intake σ → Except Stop (Intake σ)
  | [], intake => .ok intake
  | .name text :: arguments, intake =>
    act arguments <|
      if form.takesFiles && intake.names ≠ .closed then intake.take [text] else intake.leave text
  | .divider :: arguments, intake =>
    act arguments <|
      if form.takesFiles && intake.names ≠ .closed then intake.take []
      else intake.leave ['-', '-']
  | .unknown text :: arguments, intake => act arguments (intake.close.leave text)
  | .excess option value :: _, _ => .error (.usage (.valueIgnored option.title value))
  | .option option (some value) :: arguments, intake => do
    act arguments (← option.act value intake.close)
  | .option option none :: arguments, intake =>
    if option.effect.takesValue then
      match arguments with
      | .name value :: arguments => do act arguments (← option.act value intake.close)
      | _ => .error (.usage (.valueExpected option.title))
    else do act arguments (← option.act [] intake.close)

/-- The settings and the names of files that arguments stand for. -/
def read (arguments : List String) : Except Stop (σ × List (List Char)) := do
  let sorted ← (form.sort (arguments.map String.toList)).mapError .usage
  let intake ← form.act sorted ⟨form.standard, [], .none, []⟩
  if intake.extras.isEmpty then return (intake.settings, intake.files)
  else throw (.usage (.unrecognized intake.extras))

/-- What help says. -/
def help : String := form.usage ++ form.details

/-- What is said about arguments that are refused. -/
def complaint (fault : UsageFault) : String :=
  form.usage ++ form.program ++ ": error: " ++ fault.message ++ "\n"

/-- The settings and the names that arguments stand for, or what the command leaves behind when
help is asked for or the arguments are refused. -/
def start (arguments : List String) : Except CommandResult (σ × List (List Char)) :=
  match form.read arguments with
  | .ok intake => .ok intake
  | .error .help => .error ⟨0, form.help.toList, []⟩
  | .error (.usage fault) => .error ⟨2, [], (form.complaint fault).toList⟩

end CommandForm
end ThriftIdl
