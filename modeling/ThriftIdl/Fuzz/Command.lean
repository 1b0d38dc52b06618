import ThriftIdl.Fuzz.Campaign
import ThriftIdl.Check

/-!
# The fuzzing command

The command runs a campaign with the limits that its options ask for. A seed that is not given is
the time of the start in whole seconds.
-/
namespace ThriftIdl.Fuzz

/-- What the command is asked to do. -/
structure FuzzSettings where
  /-- The minutes that the campaign lasts. -/
  minutes : Option Double
  /-- The number of inputs. -/
  iterations : GivenInteger
  /-- The seed of chance. -/
  seed : GivenInteger
deriving DecidableEq

/-- The command with its options. -/
def fuzzForm : CommandForm FuzzSettings where
  program := "fuzz_parser.py"
  usage :=
    "usage: fuzz_parser.py [-h] [--duration DURATION] [--iterations ITERATIONS]\n" ++
    "                      [--seed SEED]\n"
  details :=
    "\nFuzz the Thrift IDL parsers\n" ++
    "\noptions:\n" ++
    "  -h, --help            show this help message and exit\n" ++
    "  --duration DURATION   Duration in minutes (default: run forever)\n" ++
    "  --iterations ITERATIONS\n" ++
    "                        Stop after this many inputs\n" ++
    "  --seed SEED           Random seed for reproducibility\n"
  options := [
    ⟨["-h", "--help"], .help⟩,
    ⟨["--duration"], .double fun number settings => { settings with minutes := number }⟩,
    ⟨["--iterations"], .integer fun number settings =>
      { settings with iterations := .ofOption number }⟩,
    ⟨["--seed"], .integer fun number settings => { settings with seed := .ofOption number }⟩]
  takesFiles := false
  standard := ⟨none, .nothing, .nothing⟩

/-- The limits that are asked for. -/
def FuzzSettings.limits (settings : FuzzSettings) : Limits :=
  ⟨settings.minutes.map .double, settings.iterations⟩

/-- The seed that is asked for, which may be left blank, or else the time. -/
def FuzzSettings.seeded (settings : FuzzSettings) (clock : Clock) : Option Int × Clock :=
  match settings.seed with
  | .number seed => (some seed, clock)
  | .blank => (none, clock)
  | .nothing =>
    let (now, clock) := clock.look
    (some (now / 2 : Nat), clock)

/-- The line that tells the seed. -/
def seedLine (seed : Option Int) : List Char :=
  "Random seed: ".toList ++ seed.elim ['[', ']'] Text.integer

/-- What the command comes to. -/
inductive FuzzResult where
  /-- The arguments ended it. -/
  | stopped (result : CommandResult)
  /-- A campaign was run. -/
  | finished (campaign : Campaign)
  /-- A campaign could not go on. -/
  | failed (fault : CampaignFault)
  /-- A campaign was started that no limit ends. -/
  | endless

/-- The command, called with arguments. -/
def fuzz (times : Nat → String) (draws : Option Int → Draws) (clock : Clock) (arguments : List String) :
    FuzzResult :=
  match fuzzForm.start arguments with
  | .error result => .stopped result
  | .ok (settings, _) =>
    let (seed, clock) := settings.seeded clock
    let journal := (Journal.empty times).print (seedLine seed)
    match campaign settings.limits journal (draws seed) clock with
    | .ok (some ended) => .finished ended
    | .ok none => .endless
    | .error fault => .failed fault

end ThriftIdl.Fuzz
