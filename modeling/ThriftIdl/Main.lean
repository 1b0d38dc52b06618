import ThriftIdl.Check
import ThriftIdl.Fuzz.Command

/-!
# The program

The program checks the files that it is given. If its first argument is `fuzz`, it fuzzes instead.
Everything is decided elsewhere; here files are read and written, time is told and text is printed.
-/
namespace ThriftIdl

/-- What a path leads to. -/
def lookUp (path : Path) : IO Entry := do
  match path.obstacle? with
  | some entry => return entry
  | none =>
    try
      return .file (← IO.FS.readBinFile (String.ofList path.text)).toList
    catch
      | .inappropriateType .. => return .folder
      | _ => return .missing

/-- Print what a command leaves behind. -/
def CommandResult.write (result : CommandResult) : IO UInt32 := do
  (← IO.getStdout).putStr (String.ofList result.output)
  (← IO.getStderr).putStr (String.ofList result.aside)
  return UInt32.ofNat result.status

/-- Check files. -/
def runCheck (arguments : List String) : IO UInt32 := do
  let entries ← (pathsToCheck arguments).mapM fun path => return (path, ← lookUp path)
  match check (fun path => (entries.lookup path).getD .missing) arguments with
  | .ok result => result.write
  | .error interruption => do
    IO.eprintln interruption.message
    return 1

namespace Fuzz

/-- The time now. -/
def timeNow : IO Clock := do
  let halves := (← IO.monoMsNow) / 500
  return ⟨fun _ => halves, 0⟩

/-- The time that a clock shows, in digits. -/
def stampAt (clock : Clock) : String := String.ofList (Text.digits clock.look.1)

/-- Numbers that depend on a seed. Shares have 53 bits. -/
def seededDraws (seed : Option Int) : Draws :=
  ⟨fun place => (mixHash (hash seed) (hash place)).toNat, 0, 9007199254740992, by decide⟩

/-- Print what a campaign printed and store the findings that are new. -/
def Campaign.flush (stored : Nat) (campaign : Campaign) : IO Campaign := do
  let journal := campaign.journal
  for finding in journal.saved.drop stored do
    IO.FS.createDirAll findingsFolder
    IO.FS.writeFile (findingsFolder ++ "/" ++ finding.fileName) (String.ofList finding.content)
  (← IO.getStdout).putStr (String.ofList journal.output)
  return { campaign with journal := { journal with output := [] } }

/-- Test inputs until a limit is reached. -/
partial def Campaign.proceed (limits : Limits) (campaign : Campaign) : IO Campaign := do
  let clock ← timeNow
  let journal := { campaign.journal with times := fun _ => stampAt clock }
  match { campaign with clock := clock, journal := journal }.isDone limits with
  | .error fault => throw (IO.userError fault.message)
  | .ok (true, campaign) => return campaign
  | .ok (false, campaign) =>
    let stored := campaign.journal.saved.length
    Campaign.proceed limits (← campaign.step.flush stored)

/-- Fuzz. -/
def runFuzz (arguments : List String) : IO UInt32 := do
  match fuzzForm.start arguments with
  | .error result => result.write
  | .ok (settings, _) => do
    let clock ← timeNow
    let (seed, clock) := settings.seeded clock
    let journal := (Journal.empty fun _ => stampAt clock).print (seedLine seed)
    match Campaign.start settings.limits journal (seededDraws seed) clock with
    | .error fault => throw (IO.userError fault.message)
    | .ok started => do
      let ended ← (← started.flush 0).proceed settings.limits
      let _ ← ({ ended with clock := ← timeNow }.finish).flush ended.journal.saved.length
      return 0

end Fuzz
end ThriftIdl

/-- The program. -/
def main : List String → IO UInt32
  | "fuzz" :: arguments => ThriftIdl.Fuzz.runFuzz arguments
  | arguments => ThriftIdl.runCheck arguments
