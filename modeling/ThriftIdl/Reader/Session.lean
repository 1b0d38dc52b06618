import ThriftIdl.Machine.Definition
import ThriftIdl.Reader.Cursor

/-!
# Sessions

A session reads one text step by step, with a cursor that each step may move, a counter of the
containers that are open, and the best diagnosis so far. A step that fails leaves them as they are then
and does not end the session. A production is read by its machine, which is started with what the
earlier steps left in the session. What is read is the text after the cursor, unless the cursor stands
before the start of the text (`Cursor`).
-/
namespace ThriftIdl

/-- A text with a cursor into it, a counter of open containers, and the best diagnosis so far. -/
structure Session where
  /-- The text. -/
  source : List Char
  /-- The nesting limit. -/
  limit : Int
  /-- The offset of the cursor. -/
  offset : Int
  /-- The number of containers that are open. -/
  depth : Int
  /-- The best diagnosis of the steps so far. -/
  furthest : Option Diagnosis

/-- One step of a session. -/
inductive Step where
  /-- Read a production. -/
  | production (production : Production)
  /-- The character at some distance from the cursor. -/
  | peek (distance : Int)
  /-- Whether a text stands at the cursor. -/
  | check (text : String)
  /-- Read a text if it stands at the cursor. -/
  | accept (text : String)
  /-- Whether the cursor is at the end. -/
  | atEnd
  /-- Whether a keyword stands at the cursor. -/
  | checkKeyword (word : String)
  /-- Read a keyword if it stands at the cursor. -/
  | acceptKeyword (word : String)
  /-- Read a character. -/
  | expectChar (wanted production : String)
  /-- Read a keyword. -/
  | expectKeyword (word production : String)
  /-- The position of an offset, or of the cursor. -/
  | position (offset : Option Int)
  /-- Skip blanks and comments. -/
  | skipSeparator
  /-- Read blanks. -/
  | blanks
  /-- Read the scope of a namespace. -/
  | namespaceScope
  /-- Move the cursor. -/
  | seek (offset : Int)
  /-- The text after the cursor. -/
  | remainder
  /-- The diagnosis if reading stops at the cursor. -/
  | remainderDiagnosis

/-- What a step gives. -/
inductive Answer where
  /-- What a production gives. -/
  | reading (value : Reading Position)
  /-- A text. -/
  | text (text : String)
  /-- Yes or no. -/
  | flag (value : Bool)
  /-- A position. -/
  | position (position : Position)
  /-- Nothing. -/
  | nothing
  /-- No character lies so far before the end. -/
  | outOfRange
  /-- A diagnosis. -/
  | diagnosis (diagnosis : Diagnosis)

namespace Session

/-- A session at the start of a text. -/
def start (source : List Char) (limit : Int) : Session := ⟨source, limit, 0, 0, none⟩

/-- The text after the cursor. -/
def rest (session : Session) : List Char := Text.since session.source session.offset

/-- The offset at which the text ends that is read from the cursor on. -/
def ending (session : Session) : Int := Text.ending session.source session.offset

/-- The diagnosis of a fault met when reading from the cursor on. -/
def diagnosis (session : Session) (fault : Fault) : Diagnosis :=
  .ofFault session.source session.limit session.offset fault

/-- What a fault raises that is met when reading from the cursor on. -/
def raised (session : Session) (fault : Fault) : Raised :=
  .ofFault session.source session.limit session.offset fault

/-- The diagnosis of a failure at the cursor. -/
def diagnosisHere (session : Session) (reason : Reason) : Diagnosis :=
  session.diagnosis ⟨reason, (session.ending - session.offset).toNat⟩

/-- A session after a reader reached an offset and noted a fault. -/
def reach (session : Session) (offset : Int) (noted : Option Fault) : Session :=
  { session with
    offset := offset
    furthest :=
      match noted.map session.diagnosis with
      | some later => if later.betterThan? session.furthest then some later else session.furthest
      | none => session.furthest }

/-- A session that comes out of a reader, with its answer; `offset` tells where the reader
stopped. -/
def afterwards {ι α : Type} (session : Session) (offset : ι → Int) (answer : α → Answer) :
    Outcome ι α → Session × Except Raised Answer
  | .ok value rest noted => (session.reach (offset rest) noted, .ok (answer value))
  | .fail failure rest noted =>
    (session.reach (offset rest) noted,
      if failure.head.reason = .outOfRange then .ok .outOfRange
      else .error (session.raised failure.head))

/-- Run a reader at the cursor. -/
def run {α : Type} (session : Session) (rule : (ι : Type) → [Readable ι] → Reader ι α)
    (answer : α → Answer) : Session × Except Raised Answer :=
  if session.offset < 0 then
    session.afterwards Cursor.offset answer (rule Cursor ⟨session.source, session.offset⟩)
  else
    session.afterwards (fun rest => session.ending - rest.length) answer
      (rule (List Char) session.rest)

/-- A session that comes out of a machine, with its answer; `offset` tells where the machine
stopped. -/
def performed {ι α : Type} (session : Session) (offset : ι → Int) (answer : α → Answer) :
    Except Failure α × Running ι → Session × Except Raised Answer
  | (result, reached) =>
    ({ session with
        offset := offset reached.input
        depth := reached.depth
        furthest := reached.furthest },
      match result with
      | .ok value => .ok (answer value)
      | .error failure =>
        if failure.head.reason = .outOfRange then .ok .outOfRange
        else .error (session.raised failure.head))

/-- What does not change while a machine runs from the cursor on. -/
def setting (session : Session) : Setting := ⟨session.source, session.limit, session.offset⟩

/-- Run a machine at the cursor, with the counter and the best diagnosis of the session. -/
def perform {α : Type} (session : Session) (machine : (ι : Type) → [Readable ι] → Machine ι α)
    (answer : α → Answer) : Session × Except Raised Answer :=
  if session.offset < 0 then
    session.performed Cursor.offset answer (machine Cursor session.setting
      ⟨⟨session.source, session.offset⟩, session.depth, session.furthest⟩)
  else
    session.performed (fun rest => session.ending - rest.length) answer
      (machine (List Char) session.setting ⟨session.rest, session.depth, session.furthest⟩)

/-- Whether the cursor has reached the end. -/
def atEnd (session : Session) : Bool := session.source.length ≤ session.offset

/-- Whether the cursor stands beyond the end, where nothing stands, not even an empty word. -/
def isBeyond (session : Session) : Bool := session.source.length < session.offset

/-- The character at an offset. There is none from the end of the text on, and from a place too far
before the end none can be had. -/
def charAt? (session : Session) (offset : Int) : Option (Option Char) :=
  if session.source.length + offset < 0 then none
  else some (Text.since session.source offset).head?

/-- The character at some distance from the cursor. -/
def peek (session : Session) (distance : Int) : Answer :=
  match session.charAt? (session.offset + distance) with
  | some found => .text (found.elim "" String.singleton)
  | none => .outOfRange

/-- The cursor after a word that stands at it. -/
def after? (session : Session) (word : String) : Option Int :=
  if session.isBeyond || !Text.startsWith word.toList session.rest then none
  else some (session.offset + word.length)

/-- Read a keyword if it stands at the cursor. -/
def takeKeyword (session : Session) (word : String) : Session × Except Raised Answer :=
  if session.isBeyond then (session, .ok (.flag false))
  else
    match session.run (fun _ => Readable.keyword word "") fun _ => .flag true with
    | (_, .error _) => (session, .ok (.flag false))
    | taken => taken

/-- Read a character. Anything but one character stands nowhere, except that no character is found
at the end, and moves the cursor on all the same. -/
def expectChar (session : Session) (wanted production : String) :
    Session × Except Raised Answer :=
  match wanted.toList with
  | [c] => session.run (fun _ => Readable.character c production) fun _ => .text wanted
  | _ =>
    if wanted.isEmpty && session.atEnd then
      (session.reach (session.offset + 1) none, .ok (.text wanted))
    else
      match session.charAt? session.offset with
      | some found =>
        (session, .error (.diagnosis (session.diagnosisHere (.charExpected wanted production found))))
      | none => (session, .ok .outOfRange)

/-- Perform a step. -/
def step (session : Session) : Step → Session × Except Raised Answer
  | .production production =>
    let levels := session.setting.levels session.depth
    session.perform (fun _ => production.machine levels) fun value =>
      .reading (value.map (positionIn session.source session.offset))
  | .peek distance => (session, .ok (session.peek distance))
  | .check text => (session, .ok (.flag (session.after? text).isSome))
  | .accept text =>
    match session.after? text with
    | some offset => (session.reach offset none, .ok (.flag true))
    | none => (session, .ok (.flag false))
  | .atEnd => (session, .ok (.flag session.atEnd))
  | .checkKeyword word => (session, (session.takeKeyword word).2)
  | .acceptKeyword word => session.takeKeyword word
  | .expectChar wanted production => session.expectChar wanted production
  | .expectKeyword word production =>
    if session.isBeyond then
      (session, .error (.diagnosis (session.diagnosisHere (.keywordExpected word production))))
    else session.run (fun _ => Readable.keyword word production) fun _ => .text word
  | .position offset =>
    (session, .ok (.position ((LineTable.ofText session.source).position
      (offset.getD session.offset))))
  | .skipSeparator => session.run (fun _ => Readable.skipSeparator) .flag
  | .blanks => session.run (fun _ => Readable.blanks) .text
  | .namespaceScope => session.run (fun _ => Readable.namespaceScope) .text
  | .seek offset => (session.reach offset none, .ok .nothing)
  | .remainder => (session, .ok (.text (String.ofList session.rest)))
  | .remainderDiagnosis =>
    (session, .ok (.diagnosis (.ofRemainder session.source session.limit session.offset
      session.furthest)))

/-- Perform steps one after the other, and collect what each gives and the session after it. -/
def steps (session : Session) : List Step → List (Session × Except Raised Answer)
  | [] => []
  | first :: others =>
    let reached := session.step first
    reached :: reached.1.steps others

end Session
end ThriftIdl
