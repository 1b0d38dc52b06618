import ThriftIdl.Digest
import ThriftIdl.Folder
import ThriftIdl.Number
import ThriftIdl.Text.Decimal
import ThriftIdl.Tree.OfDocument
import ThriftIdl.Manner

/-!
# Comparing the readers

Every input is read directly and over tokens, under the standard limit. Either both readers refuse
it, or one of them does, or both accept it and give equal documents or different ones (`Verdict`).
That only the reader over tokens accepts an input is a finding, unless the input contains a number
with an exponent of nineteen digits or more; and so is every difference. A finding is stored in a
folder of its own, under a name that begins with the kind of finding and ends in eight digits of the
digest of its input.
-/
namespace ThriftIdl.Fuzz

/-- What comes of reading an input in both ways. -/
inductive Verdict where
  /-- Neither reader accepts it. -/
  | refused
  /-- The readers disagree as expected. -/
  | disagreement
  /-- Only reading over tokens accepts it. -/
  | tokensOnly
  /-- Both readers give equal documents. -/
  | agreement
  /-- The readers give different documents. -/
  | mismatch (direct overTokens : Document Position)

/-- Whether a digit is followed by an exponent of nineteen digits or more somewhere in a text. -/
def hasLongExponent : List Char → Bool
  | [] => false
  | c :: text =>
    let here :=
      match scanExponent? text with
      | some ((_, exponent), _) => Text.isDigit c && 19 ≤ (scanSign exponent).2.length
      | none => false
    here || hasLongExponent text

/-- Read an input in both ways. -/
def verdict (input : List Char) : Verdict :=
  match Manner.strict.read standardLimit input, Manner.tokens.read standardLimit input with
  | .error _, .error _ => .refused
  | .ok _, .error _ => .disagreement
  | .error _, .ok _ => if hasLongExponent input then .disagreement else .tokensOnly
  | .ok direct, .ok overTokens =>
    if direct.same overTokens then .agreement else .mismatch direct overTokens

/-- An input worth keeping. -/
structure Finding where
  /-- The input. -/
  input : List Char
  /-- What is wrong with it. -/
  message : List Char
  /-- The kind of finding. -/
  category : String
deriving DecidableEq, Repr

/-- The finding that a verdict makes of an input. -/
def Verdict.finding? (input : List Char) : Verdict → Option Finding
  | .refused | .disagreement | .agreement => none
  | .tokensOnly => some ⟨input, "Accepted only by the Lark parser".toList, "peg_only"⟩
  | .mismatch direct overTokens =>
    some ⟨input, direct.tree.display ++ " != ".toList ++ overTokens.tree.display, "mismatch"⟩

namespace Finding

/-- The digits that tell the inputs of findings apart. -/
def digest (finding : Finding) : String :=
  ((Digest.hexDigest (String.ofList finding.input)).take 8).toString

/-- The name of the file of a finding that is made at a time. -/
def fileName (time : String) (finding : Finding) : String :=
  finding.category ++ "_" ++ time ++ "_" ++ finding.digest ++ ".txt"

/-- What is stored of a finding that is made at a time. -/
def content (time : String) (finding : Finding) : List Char :=
  "Category: ".toList ++ finding.category.toList ++
    "\nError: ParserMismatch: ".toList ++ finding.message ++
    "\nTimestamp: ".toList ++ time.toList ++
    "\nInput length: ".toList ++ Text.digits finding.input.length ++
    "\n\n--- Input ---\n".toList ++ finding.input ++
    "\n\n--- Traceback ---\nNoneType: None\n".toList

end Finding

/-- The folder of the findings. -/
def findingsFolder : String := "fuzz_findings"

namespace Finding

/-- The path of the file of a finding that is made at a time. -/
def path (time : String) (finding : Finding) : Path :=
  (Path.ofText findingsFolder.toList).join (Path.ofText (finding.fileName time).toList)

/-- Where the file of a finding lies if no other folder is there than that of the findings. -/
def seat (time : String) (finding : Finding) : Except Unstorable (Place × List Char) :=
  let path := finding.path time
  ((Folder.mk [] [[findingsFolder.toList]]).seat path).mapError (·.unstorable path)

/-- The name of a finding in the folder of the findings, if it lies there. -/
def storedName? (time : String) (finding : Finding) : Option (List Char) :=
  match finding.seat time with
  | .ok (place, name) => if place = .within [findingsFolder.toList] then some name else none
  | .error _ => none

end Finding

/-- How many inputs came out in which way. -/
structure Tally where
  /-- Inputs of a campaign. -/
  iterations : Nat
  /-- Inputs that both readers accept. -/
  accepted : Nat
  /-- Inputs that both readers refuse. -/
  refused : Nat
  /-- Inputs on which the readers disagree as expected. -/
  disagreements : Nat
  /-- Inputs that only reading over tokens accepts. -/
  tokensOnly : Nat
  /-- Inputs of which the readers give different documents. -/
  mismatches : Nat
deriving DecidableEq, Repr

/-- Nothing was counted yet. -/
def Tally.zero : Tally := ⟨0, 0, 0, 0, 0, 0⟩

/-- Count a verdict. -/
def Tally.count (tally : Tally) : Verdict → Tally
  | .refused => { tally with refused := tally.refused + 1 }
  | .disagreement => { tally with disagreements := tally.disagreements + 1 }
  | .tokensOnly => { tally with tokensOnly := tally.tokensOnly + 1 }
  | .agreement => { tally with accepted := tally.accepted + 1 }
  | .mismatch _ _ =>
    { tally with accepted := tally.accepted + 1, mismatches := tally.mismatches + 1 }

/-- A finding with the time that it was saved at. -/
structure SavedFinding where
  /-- The time. -/
  time : String
  /-- The finding. -/
  finding : Finding
deriving DecidableEq, Repr

namespace SavedFinding

/-- The name of the file of a saved finding. -/
def fileName (saved : SavedFinding) : String := saved.finding.fileName saved.time

/-- What is stored of a saved finding. -/
def content (saved : SavedFinding) : List Char := saved.finding.content saved.time

/-- The file of a saved finding, if it lies in the folder of the findings: its name with what is
stored in it. -/
def file? (saved : SavedFinding) : Option (List Char × List Char) :=
  (saved.finding.storedName? saved.time).map fun name => (name, saved.content)

end SavedFinding

/-- What was counted, found and printed. -/
structure Journal where
  /-- The time at each look. It is looked at for each finding that is saved, and for no other. -/
  times : Nat → String
  /-- The counts. -/
  tally : Tally
  /-- The findings in their order. -/
  saved : List SavedFinding
  /-- What was printed. -/
  output : List Char

namespace Journal

/-- Nothing happened yet. -/
def empty (times : Nat → String) : Journal := ⟨times, .zero, [], []⟩

/-- Print a line. -/
def print (journal : Journal) (line : List Char) : Journal :=
  { journal with output := journal.output ++ line ++ ['\n'] }

/-- The findings without their times. -/
def findings (journal : Journal) : List Finding := journal.saved.map SavedFinding.finding

/-- The files in the folder of the findings: their names with what is stored in them. -/
def files (journal : Journal) : List (List Char × List Char) :=
  journal.saved.filterMap SavedFinding.file?

/-- The digests of the findings. -/
def digests (journal : Journal) : List String := journal.findings.map Finding.digest

/-- The time that the next finding is saved at. -/
def time (journal : Journal) : String := journal.times journal.saved.length

/-- Keep a finding, unless there is one with the same digest. -/
def keep (journal : Journal) (finding : Finding) : Journal :=
  if journal.digests.contains finding.digest then journal
  else
    { journal with saved := journal.saved ++ [SavedFinding.mk journal.time finding] }.print
      ("\n[!] Saved finding: ".toList ++ (finding.path journal.time).text)

/-- Keep a finding if its file can be stored. -/
def store (journal : Journal) (finding : Finding) : Except Unstorable Journal :=
  if journal.digests.contains finding.digest then .ok journal
  else (finding.seat journal.time).map fun _ => journal.keep finding

/-- Test an input, and say whether it is interesting. -/
def test (journal : Journal) (input : List Char) : Journal × Bool :=
  let verdict := verdict input
  let counted := { journal with tally := journal.tally.count verdict }
  match verdict.finding? input with
  | none => (counted, false)
  | some finding => (counted.keep finding, true)

end Journal
end ThriftIdl.Fuzz
