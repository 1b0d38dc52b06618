import ThriftIdl.Proofs.Machine.Grammar
import ThriftIdl.Proofs.Places
import ThriftIdl.Proofs.Position
import ThriftIdl.Proofs.Reader.Productions
import ThriftIdl.Reader.Session

/-!
# Steps of a session

The machine of a production is started with the counter of a session and its best diagnosis. It makes of
the session what the reader of the production makes of it, with as many levels as the counter leaves
(`Session.step_production_eq`). No step changes the text, the limit or the counter, since the machine
gives the counter back as it was (`Session.step_frame`). So what a production gives depends only on the
text after the cursor, whatever was read before and whether that failed (`Session.steps_production`). From
a cursor that does not stand before the start, a step that cuts something off moves on behind it, or it
stays and fails (`Session.run_orFail`).
-/
namespace ThriftIdl

namespace Session

variable {session : Session}

/-- Two sessions have the same text, the same limit and as many open containers. -/
structure Frame (session reached : Session) : Prop where
  /-- The text is the same. -/
  source : reached.source = session.source
  /-- The limit is the same. -/
  limit : reached.limit = session.limit
  /-- The counter is the same. -/
  depth : reached.depth = session.depth

/-- A session that stays has the same frame. -/
theorem Frame.refl (session : Session) : Frame session session := ⟨rfl, rfl, rfl⟩

/-- What keeps the frame twice keeps it. -/
theorem Frame.trans {middle reached : Session} (first : Frame session middle)
    (second : Frame middle reached) : Frame session reached :=
  ⟨second.source.trans first.source, second.limit.trans first.limit, second.depth.trans first.depth⟩

/-- A machine that ends as a reader does, when it is started with the counter and the best diagnosis of a
session, makes of the session what the reader makes of it. -/
theorem performed_replayed {ι α : Type} (offset : ι → Int) (answer : α → Answer) (outcome : Outcome ι α) :
    session.performed offset answer
      (outcome.replayed session.setting session.depth session.furthest) =
        session.afterwards offset answer outcome := by
  cases outcome with
  | ok value rest noted | fail failure rest noted => cases noted <;> rfl

/-- A machine that follows a reader makes of a session what the reader makes of it. -/
theorem perform_eq_run {α : Type} {machine : (ι : Type) → [Readable ι] → Machine ι α}
    {rule : (ι : Type) → [Readable ι] → Reader ι α} (answer : α → Answer)
    (follows : ∀ (ι : Type) [Readable ι],
      Machine.Follows ι session.setting session.depth (machine ι) (rule ι)) :
    session.perform machine answer = session.run rule answer := by
  have same (ι : Type) [Readable ι] (input : ι) :
      machine ι session.setting ⟨input, session.depth, session.furthest⟩ =
        (rule ι input).replayed session.setting session.depth session.furthest :=
    follows ι input session.furthest
  rw [perform, run, same, same, performed_replayed, performed_replayed]

/-- Where no container is open, as many may be opened as the limit allows. -/
theorem levels_of_closed (closed : session.depth = 0) :
    session.setting.levels session.depth = session.limit.toNat := by
  rw [Setting.levels, closed, Int.sub_zero]
  rfl

/-- A production makes of a session what its reader makes of it that has the levels that the counter
leaves. -/
theorem step_production_eq (session : Session) (production : Production) :
    session.step (.production production) =
      session.run (fun _ => production.reader (session.setting.levels session.depth)) fun value =>
        .reading (value.map (positionIn session.source session.offset)) :=
  perform_eq_run _ fun _ => Machine.follows_production production

/-- A session is reached from another one by moving the cursor and noting what was met, if anything. -/
def Moves (session reached : Session) : Prop := ∃ offset noted, reached = session.reach offset noted

/-- A session that stays moves nowhere. -/
theorem Moves.refl (session : Session) : Moves session session := ⟨session.offset, none, rfl⟩

/-- The session after a reader is moved to where the reader stopped. -/
theorem afterwards_moves {ι α : Type} (offset : ι → Int) (answer : α → Answer)
    (outcome : Outcome ι α) : Moves session (session.afterwards offset answer outcome).1 := by
  cases outcome <;> exact ⟨_, _, rfl⟩

/-- A session is moved by a reader. -/
theorem run_moves {α : Type} (rule : (ι : Type) → [Readable ι] → Reader ι α) (answer : α → Answer) :
    Moves session (session.run rule answer).1 := by
  rw [run]
  split
  · exact afterwards_moves _ _ _
  · exact afterwards_moves _ _ _

/-- A session is moved by a keyword. -/
theorem takeKeyword_moves (word : String) : Moves session (session.takeKeyword word).1 := by
  rw [takeKeyword]
  split
  · exact .refl session
  · split
    · exact .refl session
    · exact run_moves (fun _ => Readable.keyword word "") fun _ => Answer.flag true

/-- A session is moved by a character. -/
theorem expectChar_moves (wanted production : String) :
    Moves session (session.expectChar wanted production).1 := by
  rw [expectChar]
  split
  · exact run_moves _ _
  · split
    · exact ⟨session.offset + 1, none, rfl⟩
    · split <;> exact .refl session

/-- All that a step does to a session is to move the cursor and to note what was met. -/
theorem step_moves (session : Session) (step : Step) : Moves session (session.step step).1 := by
  cases step with
  | production production =>
    rw [step_production_eq]
    exact run_moves _ _
  | skipSeparator | blanks | namespaceScope => exact run_moves _ _
  | peek | check | atEnd | checkKeyword | position | remainder | remainderDiagnosis =>
    exact .refl session
  | seek offset => exact ⟨offset, none, rfl⟩
  | acceptKeyword word => exact takeKeyword_moves word
  | expectChar wanted production => exact expectChar_moves wanted production
  | accept text =>
    rw [step]
    split
    next offset _ => exact ⟨offset, none, rfl⟩
    next => exact .refl session
  | expectKeyword word production =>
    rw [step]
    split
    · exact .refl session
    · exact run_moves _ _

/-- No step changes the text, the limit or the counter. -/
theorem step_frame (session : Session) (step : Step) : Frame session (session.step step).1 := by
  obtain ⟨offset, noted, moved⟩ := session.step_moves step
  rw [moved]
  exact ⟨rfl, rfl, rfl⟩

/-- The session that some steps lead to. -/
def reached (session : Session) (steps : List Step) : Session :=
  steps.foldl (fun session step => (session.step step).1) session

/-- No steps change the text, the limit or the counter. -/
theorem reached_frame (session : Session) (steps : List Step) :
    Frame session (session.reached steps) := by
  induction steps generalizing session with
  | nil => exact .refl session
  | cons step steps ih => exact (session.step_frame step).trans (ih _)

/-- Steps go on where the steps before them led to. -/
theorem steps_append (session : Session) (first second : List Step) :
    session.steps (first ++ second) = session.steps first ++ (session.reached first).steps second := by
  induction first generalizing session with
  | nil => rfl
  | cons step first ih =>
    rw [List.cons_append, steps, steps, ih]
    rfl

section Places

variable {α : Type} {noted : Option Fault}

/-- From a cursor that is not before the start, a reader is given the text after the cursor. -/
theorem run_eq (start : 0 ≤ session.offset) (rule : (ι : Type) → [Readable ι] → Reader ι α)
    (answer : α → Answer) : session.run rule answer =
      session.afterwards (fun rest => session.ending - rest.length) answer
        (rule (List Char) session.rest) :=
  if_neg (Int.not_lt.2 start)

/-- A session after a failure moves to where the reader stopped, and tells what failed. -/
theorem afterwards_fail {ι : Type} {offset : ι → Int} {answer : α → Answer} {reason : Reason} {left : Nat}
    {causes : List Failure} {rest : ι} (settled : reason ≠ .outOfRange) :
    session.afterwards offset answer (.fail (.node ⟨reason, left⟩ causes) rest noted) =
      (session.reach (offset rest) noted, .error (session.raised ⟨reason, left⟩)) :=
  congrArg (Prod.mk _) (if_neg settled)

/-- The text after a cursor is an end of the text. -/
theorem rest_suffix (session : Session) : session.rest <:+ session.source := List.drop_suffix _ _

/-- As many characters are left as stand between a cursor and the end, if there are any. -/
theorem length_rest_eq (start : 0 ≤ session.offset) :
    (session.rest.length : Int) = session.ending - session.offset := by
  rw [rest, Text.since, Text.index, ending, Text.ending, if_neg (by omega), List.length_drop]
  split <;> omega

/-- What is read from a cursor in the text ends where the text ends. -/
theorem ending_eq_length (within : session.offset ≤ session.source.length) :
    session.ending = session.source.length := if_neg (Int.not_lt.2 within)

/-- Beyond the end nothing is left. -/
theorem rest_eq_nil (start : 0 ≤ session.offset) (beyond : session.isBeyond) : session.rest = [] := by
  have length := length_rest_eq start
  have past : (session.source.length : Int) < session.offset := by simpa [isBeyond] using beyond
  rw [ending, Text.ending, if_pos past] at length
  exact List.eq_nil_of_length_eq_zero (by omega)

/-- A failure at the cursor is that of a reader that stays there. -/
theorem diagnosisHere_eq (start : 0 ≤ session.offset) (reason : Reason) :
    session.diagnosisHere reason = session.diagnosis ⟨reason, session.rest.length⟩ := by
  rw [diagnosisHere, ← length_rest_eq start, Int.toNat_natCast]

/-- A reason that is not final is none of looking beyond the text. -/
theorem ne_outOfRange_of_kind {reason : Reason} (kind : reason.kind ≠ .nesting) :
    reason ≠ .outOfRange := by
  rintro rfl
  exact kind rfl

/-- What is raised at the cursor for a reason that is not final is its diagnosis. -/
theorem raised_eq {reason : Reason} (kind : reason.kind ≠ .nesting) (left : Nat) :
    session.raised ⟨reason, left⟩ = .diagnosis (session.diagnosis ⟨reason, left⟩) :=
  Raised.ofFault_of_kind kind

/-- A reader that leaves all characters leaves the cursor where it is. -/
theorem reach_rest (start : 0 ≤ session.offset) (noted : Option Fault) :
    session.reach (session.ending - session.rest.length) noted = session.reach session.offset noted := by
  have length := length_rest_eq start
  congr 1
  omega

/-- Where something is cut off at the cursor, a session moves on behind it; elsewhere it stays and fails. -/
theorem run_orFail (start : 0 ≤ session.offset) {rule : (ι : Type) → [Readable ι] → Reader ι α}
    {answer : α → Answer} {reason : Reason} {cut : List Char → Option (α × List Char)}
    (reads : rule (List Char) = Reader.orFail reason cut) (kind : reason.kind ≠ .nesting) :
    session.run rule answer =
      match cut session.rest with
      | some (value, left) => (session.reach (session.ending - left.length) none, .ok (answer value))
      | none => (session, .error (.diagnosis (session.diagnosisHere reason))) := by
  rw [run_eq start, reads, Reader.orFail]
  cases cut session.rest with
  | none =>
    rw [diagnosisHere_eq start, ← raised_eq kind]
    exact (afterwards_fail (ne_outOfRange_of_kind kind)).trans (congrArg (·, _) (reach_rest start none))
  | some found => rfl

/-- What is cut off at the cursor is what is given. -/
theorem run_orFail_eq_ok_iff (start : 0 ≤ session.offset)
    {rule : (ι : Type) → [Readable ι] → Reader ι α} {answer : α → Answer} {reason : Reason}
    {cut : List Char → Option (α × List Char)} (reads : rule (List Char) = Reader.orFail reason cut)
    (kind : reason.kind ≠ .nesting) {reached : Session} {given : Answer} :
    session.run rule answer = (reached, .ok given) ↔ ∃ value left, cut session.rest = some (value, left) ∧
      session.reach (session.ending - left.length) none = reached ∧ answer value = given := by
  rw [run_orFail start reads kind]
  cases cut session.rest <;> simp [Prod.ext_iff]

variable {left : List Char}

/-- Where an end of the text after the cursor is left, the cursor stands in front of it. -/
theorem rest_reach (start : 0 ≤ session.offset) (suffix : left <:+ session.rest) :
    (session.reach (session.ending - left.length) noted).rest = left := by
  have shorter := suffix.length_le
  have length := length_rest_eq start
  have place : left = session.source.drop (session.source.length - left.length) :=
    List.suffix_iff_eq_drop.1 (suffix.trans session.rest_suffix)
  show Text.since session.source (session.ending - left.length) = left
  rw [Text.since, Text.index, if_neg (by omega), ending, Text.ending]
  split
  next beyond =>
    rw [ending, Text.ending, if_pos beyond] at length
    obtain rfl : left = [] := List.eq_nil_of_length_eq_zero (by omega)
    exact List.drop_eq_nil_of_le (by simp; omega)
  next =>
    conv_rhs => rw [place]
    congr 1
    omega

/-- A cursor that moves on in the text reads up to the same end. -/
theorem ending_reach (start : 0 ≤ session.offset) (suffix : left <:+ session.rest) :
    (session.reach (session.ending - left.length) noted).ending = session.ending := by
  have shorter := suffix.length_le
  have length := length_rest_eq start
  show Text.ending session.source (session.ending - left.length) = session.ending
  simp only [ending, Text.ending] at length ⊢
  split <;> split <;> omega

end Places

end Session

section Productions

variable {before text : List Char} {limit : Int}

/-- The text after the cursor is what follows the text before it. -/
theorem since_append (before text : List Char) : Text.since (before ++ text) before.length = text := by
  have index : Text.index (before ++ text) before.length = before.length := by
    rw [Text.index, if_neg (by omega), Int.toNat_natCast]
  rw [Text.since, index, List.drop_left]

/-- A text that is read from somewhere inside it ends where it ends. -/
theorem ending_append (before text : List Char) :
    Text.ending (before ++ text) before.length = before.length + text.length := by
  rw [Text.ending, List.length_append, if_neg (by omega)]
  omega

/-- A place in a text lies as much further on as characters stand before the text. -/
theorem positionIn_append {left : Nat} (within : left ≤ text.length) :
    positionIn (before ++ text) before.length left =
      Position.counted (before ++ text) (before.length + (text.length - left) : Nat) := by
  have length : (before ++ text).length = before.length + text.length := List.length_append
  have offset : (before ++ text).length - left = before.length + (text.length - left) := by omega
  rw [positionIn_eq_counted (by omega) (by omega), offset]

/-- A diagnosis of a text, as it is if another text stands before. -/
def Diagnosis.after (before : List Char) (diagnosis : Diagnosis) : Diagnosis :=
  { diagnosis with
    source := before ++ diagnosis.source
    offset := before.length + diagnosis.offset }

/-- A fault is diagnosed alike in a text and after another one, only so much further on. -/
theorem Diagnosis.ofFault_append (fault : Fault) :
    ofFault (before ++ text) limit before.length fault = (ofFault text limit 0 fault).after before := by
  have ends : Text.ending text 0 = text.length := ending_of_le (Nat.zero_le _)
  simp only [ofFault, after, ending_append, ends, Diagnosis.mk.injEq, true_and, and_true]
  omega

/-- What is raised for a text, as it is if another text stands before. -/
def Raised.after (before : List Char) : Raised → Raised
  | .diagnosis found => .diagnosis (found.after before)
  | .tooManyDigits count => .tooManyDigits count

/-- A fault raises the same in a text and after another one, only so much further on. -/
theorem Raised.ofFault_append (fault : Fault) :
    ofFault (before ++ text) limit before.length fault = (ofFault text limit 0 fault).after before := by
  unfold ofFault
  split
  next => rfl
  next => exact congrArg Raised.diagnosis (Diagnosis.ofFault_append fault)

/-- A step after a text before the cursor gives what is given for the text after the cursor alone: the
same value, with all places as far from the end and lines and columns those of both texts, or the same
failure so much further on. -/
def AnswersAlike (before text : List Char) (alone : Except Raised (List Char × Reading Position))
    (given : Session × Except Raised Answer) : Prop :=
  match alone with
  | .ok (rest, value) => rest <:+ text ∧
      given.1.offset = before.length + (text.length - rest.length : Nat) ∧
      ∃ reading : Reading Nat, reading.Placed (· ≤ text.length) ∧
        value = reading.map (fun left => .counted text (text.length - left : Nat)) ∧
        given.2 = .ok (.reading (reading.map fun left =>
          .counted (before ++ text) (before.length + (text.length - left) : Nat)))
  | .error raised => given.2 = .error (raised.after before)

/-- A production that is read at the cursor gives what it gives for the text after the cursor. -/
theorem Session.step_production {session : Session} (source : session.source = before ++ text)
    (limited : session.limit = limit) (closed : session.depth = 0)
    (cursor : session.offset = before.length) (production : Production) :
    AnswersAlike before text (readProduction production limit text)
      (session.step (.production production)) := by
  have rest : session.rest = text := by
    rw [Session.rest, source, cursor, since_append]
  have ends : session.ending = before.length + text.length := by
    rw [Session.ending, source, cursor, ending_append]
  have run : session.step (.production production) =
      session.afterwards (fun rest => session.ending - rest.length)
        (fun value => .reading (value.map (positionIn session.source session.offset)))
        (production.reader limit.toNat text) := by
    rw [Session.step_production_eq, Session.run_eq (by omega), rest, Session.levels_of_closed closed,
      limited]
  have confined := production.confined limit.toNat text List.suffix_rfl
  rw [run, readProduction]
  generalize production.reader limit.toNat text = outcome at confined
  cases confined with
  | @ok value rest noted suffix _ placed =>
    have shorter := suffix.length_le
    have alone : value.map (positionIn text 0) =
        value.map fun left => .counted text (text.length - left : Nat) :=
      Reading.map_congr (placed.mono fun left within => positionIn_eq_counted (Nat.zero_le _) within)
    have after : value.map (positionIn (before ++ text) before.length) =
        value.map fun left =>
          .counted (before ++ text) (before.length + (text.length - left) : Nat) :=
      Reading.map_congr (placed.mono fun left within => positionIn_append within)
    refine ⟨suffix, ?_, value, placed, alone, ?_⟩
    · show session.ending - (rest.length : Int) = _
      omega
    · rw [source, cursor, ← after]
      rfl
  | @fail failure rest noted _ faults =>
    show (if failure.head.reason = .outOfRange then _ else _) = _
    rw [if_neg faults.head.ne_outOfRange, Session.raised, source, limited, cursor,
      Raised.ofFault_append]

/-- Whatever steps are done before, and whether they fail: if the cursor is set and a production read,
that gives what it gives for the text after the cursor alone. -/
theorem Session.steps_production (before text : List Char) (limit : Int) (earlier : List Step)
    (production : Production) :
    ∃ given, ((Session.start (before ++ text) limit).steps
        (earlier ++ [.seek before.length, .production production])).getLast? = some given ∧
      AnswersAlike before text (readProduction production limit text) given := by
  have frame := (Session.start (before ++ text) limit).reached_frame earlier
  rw [steps_append]
  generalize (Session.start (before ++ text) limit).reached earlier = session at frame
  have sought : Frame session (session.step (.seek before.length)).1 := session.step_frame _
  refine ⟨(session.step (.seek before.length)).1.step (.production production), ?_, ?_⟩
  · simp [steps]
  · exact step_production (sought.source.trans frame.source) (sought.limit.trans frame.limit)
      (sought.depth.trans frame.depth) rfl production

end Productions

end ThriftIdl
