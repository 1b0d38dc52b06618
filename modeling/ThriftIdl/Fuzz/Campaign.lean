import ThriftIdl.Fuzz.Finding
import ThriftIdl.Fuzz.Mutation
import ThriftIdl.WrittenNumber

/-!
# Campaigns

A campaign tests one input after the other. Each is a random document, a member of the corpus that
was mutated, or a member as it is. The corpus begins with the seeds; interesting inputs join it,
and once it is full each newcomer drives out a member other than the seeds. A campaign ends after
a number of inputs or when its time is over, and reports its counts at the end and after every
thousand inputs. Time is told by a clock of half seconds. Limits that cannot be compared with the
time or the count stop a campaign (`CampaignFault`), and one without limits has no end.
-/
namespace ThriftIdl.Fuzz

open Draw

/-- The inputs that every corpus begins with. -/
def seeds : List String := [
  "include \"shared.thrift\"",
  "cpp_include \"<vector>\"",
  "namespace * shared",
  "namespace py.twisted tutorial.twisted",
  "typedef i32 MyInteger",
  "typedef map<string,list<set<i32>>> Nested",
  "typedef list<i32> cpp_type \"std::vector<int>\" IntVector",
  "const i32 INT32CONSTANT = 9853",
  "const double PI = 3.14159",
  "const map<string,string> MAPCONSTANT = \x7b\"hello\":\"world\", \"goodnight\":\"moon\"\x7d",
  "const list<i32> PRIMES = [2, 3; 5 7,]",
  "const string QUOTE = 'say \"hi\"'",
  "enum Operation \x7b ADD = 1, SUBTRACT = 2, MULTIPLY, DIVIDE \x7d",
  "enum Empty \x7b\x7d",
  "struct Work \x7b 1: i32 num1 = 0, 2: i32 num2, 3: Operation op, 4: optional string comment \x7d",
  "struct user\x7b1:optional string name; 2:i32 age=18\x7d",
  "union Value \x7b 1: i64 int_value 2: string string_value \x7d",
  "exception InvalidOperation \x7b 1: i32 whatOp, 2: string why \x7d",
  "service Calculator extends shared.SharedService \x7b void ping(), " ++
    "i32 add(1:i32 num1, 2:i32 num2), " ++
    "i32 calculate(1:i32 logid, 2:Work w) throws (1:InvalidOperation ouch), " ++
    "oneway void zip() \x7d",
  "/* block */ struct A \x7b // trailing\n 1: required bool flag # hash\n \x7d"]

/-- The greatest number of members of a corpus. -/
def corpusBound : Nat := 1000

/-- The corpus of a campaign: at least the seeds, and no more than the bound. -/
structure Corpus where
  /-- The members. -/
  members : List (List Char)
  /-- There is something to choose from. -/
  nonempty : 0 < members.length

/-- The corpus before the first input. -/
def Corpus.initial : Corpus := ⟨seeds.map String.toList, by rw [List.length_map]; decide⟩

/-- A corpus with a new member; a full one loses another that is no seed. -/
def Corpus.join (corpus : Corpus) (input : List Char) : Draw Corpus :=
  let members := corpus.members ++ [input]
  if full : corpusBound < members.length then do
    have room : seeds.length ≤ members.length - 1 := by
      have : seeds.length ≤ corpusBound := by decide
      omega
    let ⟨place, bounds⟩ ← between seeds.length (members.length - 1) room
    return ⟨members.eraseIdx place, by
      have : 0 < corpusBound := by decide
      rw [List.length_eraseIdx]
      split <;> omega⟩
  else return ⟨members, by simp [members]⟩

/-- A clock that is looked at from time to time. -/
structure Clock where
  /-- The number of half seconds at each look. -/
  halves : Nat → Nat
  /-- The number of looks. -/
  looks : Nat

/-- A clock that moves on by half a second at each look. -/
def Clock.ticking : Clock := ⟨fun look => look + 1, 0⟩

/-- Look at a clock. -/
def Clock.look (clock : Clock) : Nat × Clock :=
  (clock.halves clock.looks, { clock with looks := clock.looks + 1 })

/-- The state of a campaign. -/
structure Campaign where
  /-- What was counted, found and printed. -/
  journal : Journal
  /-- The numbers that chance comes from. -/
  draws : Draws
  /-- The corpus. -/
  corpus : Corpus
  /-- The clock. -/
  clock : Clock
  /-- The time of the start in half seconds. -/
  started : Nat

/-- A number of minutes. -/
inductive Minutes where
  /-- A whole number. -/
  | whole (number : Int)
  /-- A double. -/
  | double (number : Double)
deriving DecidableEq

namespace Minutes

/-- Whether a number of minutes is nought, which means no end. -/
def isZero : Minutes → Bool
  | whole number => number = 0
  | double number => number.isZero

/-- A number of minutes in words. -/
def text : Minutes → List Char
  | whole number => Text.integer number
  | double number => number.text

/-- The seconds of a number of minutes. -/
def seconds : Minutes → Double
  | whole number => Double.ofSignedUnits (number * 60 * unitsOfOne)
  | double number => number.scale 60

end Minutes

/-- What ends a campaign. -/
structure Limits where
  /-- The time it lasts. -/
  minutes : Option Minutes
  /-- The number of inputs. -/
  iterations : GivenInteger
deriving DecidableEq

/-- Why a campaign cannot go on. -/
inductive CampaignFault where
  /-- A whole number of minutes is too large for a time. -/
  | minutesTooMany
  /-- The number of inputs is left blank. -/
  | iterationsBlank
deriving DecidableEq, Repr

/-- The fault in words. -/
def CampaignFault.message : CampaignFault → String
  | .minutesTooMany => "int too large to convert to float"
  | .iterationsBlank => "'>=' not supported between instances of 'int' and 'list'"

namespace Limits

/-- The time it lasts, if that is not nought. -/
def duration? (limits : Limits) : Option Minutes := limits.minutes.filter (!·.isZero)

/-- Whether the time it lasts is too long a whole number. -/
def isTooLong (limits : Limits) : Bool :=
  limits.minutes.any fun minutes =>
    match minutes with
    | .whole _ => !minutes.seconds.isFinite
    | .double _ => false

/-- The time of the end of a campaign that starts at a time. An end at the time nought is none. -/
def deadline? (limits : Limits) (started : Nat) : Option Double :=
  (limits.duration?.map fun minutes => (Double.ofHalves started).add minutes.seconds).filter
    (!·.isZero)

end Limits

/-- A number of inputs for a second, rounded, a half to the even number. -/
def rate (inputs halves : Nat) : Nat :=
  if halves = 0 then 0 else Magnitude.roundQuotient (2 * inputs) halves

/-- A number of half seconds in seconds with one place after the point. -/
def secondsText (halves : Nat) : List Char :=
  Text.digits (halves / 2) ++ ['.', if halves % 2 = 0 then '0' else '5']

/-- The line that reports the counts after a time. -/
def Journal.report (journal : Journal) (halves : Nat) : List Char :=
  let tally := journal.tally
  let part (title : String) (count : Nat) : List Char := title.toList ++ Text.digits count
  '[' :: secondsText halves ++ part "s] iterations=" tally.iterations ++
    part " (" (rate tally.iterations halves) ++ part "/s) | ok=" tally.accepted ++
    part " reject=" tally.refused ++ part " disagree=" tally.disagreements ++
    part " | peg_only=" tally.tokensOnly ++ part " mismatches=" tally.mismatches ++
    part " crashes=" 0 ++ part " timeouts=" 0 ++ part " unique=" journal.digests.length

/-- Count one more input of a campaign. -/
def Journal.countInput (journal : Journal) : Journal :=
  { journal with tally := { journal.tally with iterations := journal.tally.iterations + 1 } }

namespace Campaign

/-- Print a line. -/
def print (campaign : Campaign) (line : List Char) : Campaign :=
  { campaign with journal := campaign.journal.print line }

/-- Report the counts. -/
def report (campaign : Campaign) : Campaign :=
  let (now, clock) := campaign.clock.look
  { campaign with clock := clock }.print (campaign.journal.report (now - campaign.started))

/-- Start a campaign, unless its end cannot be told. -/
def start (limits : Limits) (journal : Journal) (draws : Draws) (clock : Clock) :
    Except CampaignFault Campaign := do
  if limits.isTooLong then throw .minutesTooMany
  let (now, clock) := clock.look
  let duration := limits.duration?.elim "unlimited".toList fun minutes =>
    minutes.text ++ " minutes".toList
  let title := "Starting fuzzer (seed corpus: ".toList ++ Text.digits seeds.length ++
    " inputs)".toList
  let campaign : Campaign := ⟨journal, draws, .initial, clock, now⟩
  return campaign.print title |>.print ("Duration: ".toList ++ duration)
    |>.print ("Findings directory: ".toList ++ findingsFolder.toList)
    |>.print (List.replicate 60 '-')

/-- Whether the time of a campaign is over. The clock is looked at only if there is an end. -/
def isOver (limits : Limits) (campaign : Campaign) : Bool × Campaign :=
  match limits.deadline? campaign.started with
  | none => (false, campaign)
  | some deadline =>
    let (now, clock) := campaign.clock.look
    (deadline.less (Double.ofHalves now), { campaign with clock := clock })

/-- Whether a campaign has tested enough inputs. -/
def isFull (limits : Limits) (campaign : Campaign) : Except CampaignFault Bool :=
  match limits.iterations with
  | .nothing => .ok false
  | .blank => .error .iterationsBlank
  | .number most => .ok (most ≤ (campaign.journal.tally.iterations : Int))

end Campaign

/-- Draw the next input: a random document, a mutated member of the corpus, or a member. -/
def nextInput (corpus : Corpus) : Draw (List Char) := do
  let share ← share
  if isBelow 300 share then return documentText (← document)
  else if isBelow 700 share then
    let member ← oneOf corpus.members corpus.nonempty
    let once ← mutate member
    let more ← upTo 3
    mutateTimes more once
  else oneOf corpus.members corpus.nonempty

/-- The corpus after an input: an interesting one joins it, and seldom any other short one. -/
def Corpus.after (corpus : Corpus) (input : List Char) (interesting : Bool) : Draw Corpus := do
  if interesting then corpus.join input
  else
    let lucky ← chance 10
    if lucky && input.length < 1000 then corpus.join input else return corpus

namespace Campaign

/-- Report the counts after every thousand inputs. -/
def milestone (campaign : Campaign) : Campaign :=
  if campaign.journal.tally.iterations % 1000 = 0 then campaign.report else campaign

/-- Count an input and test it. -/
def testInput (campaign : Campaign) (input : List Char) (draws : Draws) : Campaign :=
  let tested := campaign.journal.countInput.test input
  let after := (campaign.corpus.after input tested.2).run draws
  { campaign with journal := tested.1, draws := after.2, corpus := after.1 }.milestone

/-- Test the next input. -/
def step (campaign : Campaign) : Campaign :=
  let next := (nextInput campaign.corpus).run campaign.draws
  campaign.testInput next.1 next.2

/-- Whether a limit of a campaign is reached: its time first, then its number of inputs. -/
def isDone (limits : Limits) (campaign : Campaign) : Except CampaignFault (Bool × Campaign) :=
  let (late, campaign) := campaign.isOver limits
  if late then .ok (true, campaign)
  else (campaign.isFull limits).map fun full => (full, campaign)

/-- Test inputs until a limit is reached, at most so many. -/
def inputs (limits : Limits) : Nat → Campaign → Except CampaignFault Campaign
  | 0, campaign => .ok campaign
  | count + 1, campaign =>
    match campaign.isDone limits with
    | .error fault => .error fault
    | .ok (true, campaign) => .ok campaign
    | .ok (false, campaign) => inputs limits count campaign.step

/-- End a campaign. -/
def finish (campaign : Campaign) : Campaign :=
  campaign.print ('\n' :: List.replicate 60 '=') |>.print "Final Statistics:".toList |>.report

end Campaign

/-- A number of looks at a ticking clock after which the time of a campaign is over. -/
def looksUntil : Double → Option Nat
  | .number false magnitude =>
    if magnitude.isFinite then some (2 * magnitude.units / unitsOfOne + 2) else none
  | .number true _ => some 1
  | .nan => none

/-- A number of rounds that is enough for a campaign with a ticking clock, if there is one. The
last round only finds that a limit is reached. -/
def Limits.rounds? (limits : Limits) (started : Nat) : Option Nat :=
  match limits.iterations, (limits.deadline? started).bind looksUntil with
  | .nothing, looks => looks
  | .blank, _ => some 1
  | .number most, none => some (most.toNat + 1)
  | .number most, some looks => some (min (most.toNat + 1) looks)

/-- A whole campaign with a ticking clock. A campaign that no limit ends has no result. -/
def campaign (limits : Limits) (journal : Journal) (draws : Draws) (clock : Clock) :
    Except CampaignFault (Option Campaign) := do
  let started ← Campaign.start limits journal draws clock
  match limits.rounds? started.started with
  | none => return none
  | some rounds => return some (← started.inputs limits rounds).finish

end ThriftIdl.Fuzz
