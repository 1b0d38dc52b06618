import ThriftIdl.Proofs.Fuzz.Journal
import ThriftIdl.Proofs.Fuzz.Mutation

/-!
# The corpus of a campaign

A corpus grows by inputs that were tested, and gives up members to stay within its bound. Whatever the
inputs are, whatever their tests say and whatever numbers are drawn, it begins with the seeds, stays
within the bound, and holds nothing else but inputs that were tested (`Corpus.Grown.kept`). The number
that tells which member is given up can always be drawn, and is the place of none of the seeds
(`Attempt.makes_after`). So it is in every campaign, after any number of rounds
(`Campaign.corpus_kept`).
-/
namespace ThriftIdl.Fuzz

namespace Attempt

/-! ### Making room with checks -/

/-- Give up the member at a place, if there is one and it is no seed. -/
def giveUp (members : List (List Char)) (place : Int) : Attempt (List (List Char)) :=
  if seeds.length ≤ place ∧ place < members.length then return members.eraseIdx place.toNat
  else throw (.noPlace place)

/-- The members of a corpus with a new one; of too many one is given up. -/
def join (members : List (List Char)) (input : List Char) : Attempt (List (List Char)) := do
  let longer := members ++ [input]
  if corpusBound < longer.length then
    let place ← between seeds.length (longer.length - 1)
    giveUp longer place
  else return longer

/-- The members of a corpus after an input. -/
def after (members : List (List Char)) (input : List Char) (interesting : Bool) :
    Attempt (List (List Char)) := do
  if interesting then join members input
  else
    let lucky ← certain (Draw.chance 10)
    if lucky && input.length < 1000 then join members input else return members

/-- A member that is no seed can be given up. -/
theorem giveUp_eq {members : List (List Char)} {place : Nat} (seedless : seeds.length ≤ place)
    (within : place < members.length) : giveUp members place = pure (members.eraseIdx place) := by
  rw [giveUp, if_pos (by omega), Int.toNat_natCast]

/-- A new member can always join a corpus. -/
theorem makes_join (corpus : Corpus) (input : List Char) :
    Makes (join corpus.members input) (corpus.join input) Corpus.members := by
  rw [join, Corpus.join]
  by_cases full : corpusBound < (corpus.members ++ [input]).length
  · have room : seeds.length ≤ (corpus.members ++ [input]).length - 1 := by
      have seedless : seeds.length ≤ corpusBound := by decide
      omega
    have high : ((corpus.members ++ [input]).length : Int) - 1 =
        ((corpus.members ++ [input]).length - 1 : Nat) := by omega
    rw [if_pos full, dif_pos full, high]
    refine (makes_between room).bind fun place => ?_
    have within : place.val < (corpus.members ++ [input]).length := by
      have bounds := place.2
      omega
    rw [giveUp_eq place.2.1 within]
    exact fun _ => rfl
  · rw [if_neg full, dif_neg full]
    exact fun _ => rfl

/-- A corpus can always go on after an input. -/
theorem makes_after (corpus : Corpus) (input : List Char) (interesting : Bool) :
    Makes (after corpus.members input interesting) (corpus.after input interesting) Corpus.members :=
  .ite (fun _ => makes_join corpus input) fun _ => (makes_certain _).bind fun _ =>
    .ite (fun _ => makes_join corpus input) fun _ => makes_pure Corpus.members corpus

end Attempt

/-! ### What a corpus holds -/

namespace Corpus

variable {corpus : Corpus} {tested : List (List Char)}

/-- A corpus is in order after some inputs were tested. -/
structure Kept (corpus : Corpus) (tested : List (List Char)) : Prop where
  /-- It begins with the seeds. What follows was tested, and stands in the order of the tests. -/
  members : ∃ others, corpus.members = seeds.map String.toList ++ others ∧ others.Sublist tested
  /-- It stays within the bound. -/
  bounded : corpus.members.length ≤ corpusBound

/-- A corpus grows from the first one by inputs that are tested, whatever the tests say and whatever
numbers are drawn. -/
inductive Grown : List (List Char) → Corpus → Prop where
  /-- No input was tested yet. -/
  | start : Grown [] .initial
  /-- An input is tested. -/
  | test {tested : List (List Char)} {corpus : Corpus} (grown : Grown tested corpus)
      (input : List Char) (interesting : Bool) (draws : Draws) :
      Grown (tested ++ [input]) ((corpus.after input interesting).run draws).1

/-- The first corpus is in order. -/
theorem kept_initial : Kept .initial [] where
  members := ⟨[], (List.append_nil _).symm, .refl []⟩
  bounded := by
    rw [initial, List.length_map]
    decide

/-- A corpus that stays as it is after one more test stays in order. -/
theorem Kept.stay (kept : corpus.Kept tested) (input : List Char) :
    corpus.Kept (tested ++ [input]) := by
  obtain ⟨others, members, ofTests⟩ := kept.members
  exact ⟨⟨others, members, ofTests.trans (List.sublist_append_left _ _)⟩, kept.bounded⟩

/-- A corpus stays in order when the input of a test joins it. -/
theorem Kept.join (kept : corpus.Kept tested) (input : List Char) :
    (corpus.join input).Yields fun joined => joined.Kept (tested ++ [input]) := by
  obtain ⟨others, members, ofTests⟩ := kept.members
  have longer : corpus.members ++ [input] = seeds.map String.toList ++ (others ++ [input]) := by
    rw [members, List.append_assoc]
  have ofLonger : (others ++ [input]).Sublist (tested ++ [input]) := ofTests.append (.refl _)
  have length : (corpus.members ++ [input]).length = corpus.members.length + 1 := List.length_append
  have bounded := kept.bounded
  rw [Corpus.join]
  by_cases full : corpusBound < (corpus.members ++ [input]).length
  · rw [dif_pos full]
    refine .after _ fun drawn => ?_
    obtain ⟨place, seedless, within⟩ := drawn
    refine .pure ⟨?_, ?_⟩
    · -- The place lies behind the seeds, so that one of the others is given up, or the input itself.
      show ∃ left, (corpus.members ++ [input]).eraseIdx place = _ ∧ _
      refine ⟨(others ++ [input]).eraseIdx (place - seeds.length), ?_,
        (List.eraseIdx_sublist _ _).trans ofLonger⟩
      rw [longer, List.eraseIdx_append_of_length_le (by simpa using seedless), List.length_map]
    · show ((corpus.members ++ [input]).eraseIdx place).length ≤ corpusBound
      rw [List.length_eraseIdx_of_lt (by omega)]
      omega
  · rw [dif_neg full]
    exact .pure ⟨⟨_, longer, ofLonger⟩, Nat.le_of_not_lt full⟩

/-- A corpus stays in order after an input, whatever its test says. -/
theorem Kept.after (kept : corpus.Kept tested) (input : List Char) (interesting : Bool) :
    (corpus.after input interesting).Yields fun left => left.Kept (tested ++ [input]) := by
  have stays : Draw.Yields (pure corpus) fun left => left.Kept (tested ++ [input]) :=
    .pure (kept.stay input)
  exact .ite (fun _ => kept.join input) fun _ => .after _ fun _ =>
    .ite (fun _ => kept.join input) fun _ => stays

/-- However a corpus grows, it is in order. -/
theorem Grown.kept (grown : Grown tested corpus) : corpus.Kept tested := by
  induction grown with
  | start => exact kept_initial
  | test _ input interesting draws ih => exact ih.after input interesting draws

/-- A corpus can go on after every input, whatever its test says: if a member has to be given up, there
is a number for its place, and it is no seed. -/
def HasRoom (corpus : Corpus) : Prop := ∀ input interesting,
  Attempt.Makes (Attempt.after corpus.members input interesting) (corpus.after input interesting) members

end Corpus

/-! ### The corpus of a campaign -/

namespace Campaign

variable {limits : Limits} {start : Journal} {calls : List Call} {campaign : Campaign}

/-- A campaign went on from a journal by some calls, and its corpus has grown by their inputs. -/
structure Reached (start : Journal) (calls : List Call) (campaign : Campaign) : Prop where
  /-- The journal runs through the calls. -/
  runs : Journal.Runs start calls campaign.journal
  /-- The corpus has grown by their inputs. -/
  grown : Corpus.Grown (calls.map Call.input) campaign.corpus

/-- Lines may be printed. -/
theorem Reached.print (reached : Reached start calls campaign) (line : List Char) :
    Reached start calls (campaign.print line) :=
  ⟨reached.runs.print line, reached.grown⟩

/-- The end of a campaign is printed. -/
theorem Reached.finish (reached : Reached start calls campaign) :
    Reached start calls campaign.finish := by
  have printed := (reached.print ('\n' :: List.replicate 60 '=')).print "Final Statistics:".toList
  exact ⟨printed.runs.print _, printed.grown⟩

/-- A report leaves the corpus as it is. -/
theorem corpus_milestone (campaign : Campaign) : campaign.milestone.corpus = campaign.corpus := by
  unfold milestone
  split <;> rfl

/-- A campaign that tests an input goes on by one call, and its corpus may grow by that input. -/
theorem Reached.testInput (reached : Reached start calls campaign) (input : List Char) (draws : Draws) :
    ∃ call, call.input = input ∧
      Reached start (calls ++ [call]) (campaign.testInput input draws) := by
  obtain ⟨call, same, runs, -⟩ := runs_testInput reached.runs input draws
  refine ⟨call, same, runs, ?_⟩
  rw [List.map_append, List.map_singleton, same, Campaign.testInput, corpus_milestone]
  exact reached.grown.test input _ draws

/-- The input that a campaign draws for its next step, with the numbers left after it. -/
def drawn (campaign : Campaign) : List Char × Draws := (nextInput campaign.corpus).run campaign.draws

/-- A step of a campaign tests the input that is drawn. -/
theorem step_eq_testInput (campaign : Campaign) :
    campaign.step = campaign.testInput campaign.drawn.1 campaign.drawn.2 := by
  rw [step, drawn]

/-- The inputs that a campaign tests until a limit is reached, in at most so many rounds. -/
def testedIn (limits : Limits) : Nat → Campaign → List (List Char)
  | 0, _ => []
  | rounds + 1, campaign =>
    match campaign.isDone limits with
    | .ok (false, looked) => looked.drawn.1 :: testedIn limits rounds looked.step
    | _ => []

/-- One step of a campaign is one call. -/
theorem Reached.step (reached : Reached start calls campaign) :
    ∃ call, call.input = campaign.drawn.1 ∧ Reached start (calls ++ [call]) campaign.step := by
  rw [step_eq_testInput]
  exact reached.testInput campaign.drawn.1 campaign.drawn.2

/-- To see whether a limit is reached, no more than the clock is looked at. -/
theorem isDone_frame {done : Bool} {looked : Campaign}
    (asked : campaign.isDone limits = .ok (done, looked)) :
    looked.journal = campaign.journal ∧ looked.corpus = campaign.corpus := by
  have frame : (campaign.isOver limits).2.journal = campaign.journal ∧
      (campaign.isOver limits).2.corpus = campaign.corpus := by
    rw [isOver]
    split <;> exact ⟨rfl, rfl⟩
  rw [isDone] at asked
  generalize campaign.isOver limits = seen at frame asked
  obtain ⟨late, after⟩ := seen
  cases late with
  | true =>
    cases asked
    exact frame
  | false =>
    have answered : (after.isFull limits).map (fun full => (full, after)) = .ok (done, looked) := asked
    cases found : after.isFull limits with
    | error fault =>
      rw [found] at answered
      cases answered
    | ok full =>
      rw [found] at answered
      cases answered
      exact frame

/-- After any number of rounds a campaign went on by calls for the inputs that it tested. -/
theorem Reached.inputs (reached : Reached start calls campaign) {rounds : Nat} {ended : Campaign}
    (run : campaign.inputs limits rounds = .ok ended) :
    ∃ more, Reached start (calls ++ more) ended ∧
      more.map Call.input = campaign.testedIn limits rounds := by
  induction rounds generalizing campaign calls with
  | zero =>
    cases run
    exact ⟨[], by rwa [List.append_nil], rfl⟩
  | succ rounds ih =>
    rw [Campaign.inputs] at run
    rw [testedIn]
    cases asked : campaign.isDone limits with
    | error fault =>
      rw [asked] at run
      cases run
    | ok found =>
      obtain ⟨done, looked⟩ := found
      -- The clock may have been looked at, which is neither in the journal nor in the corpus.
      obtain ⟨journal, corpus⟩ := isDone_frame asked
      have reached : Reached start calls looked := ⟨journal ▸ reached.runs, corpus ▸ reached.grown⟩
      rw [asked] at run
      cases done with
      | true =>
        cases run
        exact ⟨[], by rwa [List.append_nil], rfl⟩
      | false =>
        obtain ⟨call, input, further⟩ := reached.step
        obtain ⟨more, whole, inputs⟩ := ih further run
        refine ⟨call :: more, ?_, ?_⟩
        · rwa [List.append_assoc] at whole
        · rw [List.map_cons, input, inputs]

/-- When a campaign starts, nothing was tested, and its corpus is the first one. -/
theorem reached_start {draws : Draws} {clock : Clock} {started : Campaign}
    (starts : Campaign.start limits start draws clock = .ok started) : Reached start [] started := by
  rw [Campaign.start] at starts
  cases tooLong : limits.isTooLong with
  | true =>
    rw [tooLong] at starts
    cases starts
  | false =>
    rw [tooLong] at starts
    cases starts
    have opened : Reached start [] ⟨start, draws, .initial, clock.look.2, clock.look.1⟩ := ⟨.start, .start⟩
    exact (((opened.print _).print _).print _).print _

/-- The corpus of a campaign is in order after some inputs were tested, and stays so. -/
structure KeepsCorpus (start : Journal) (tested : List (List Char)) (campaign : Campaign) : Prop where
  /-- The campaign went on from a journal by one call for each of the inputs. -/
  called : ∃ calls, Journal.Runs start calls campaign.journal ∧ calls.map Call.input = tested
  /-- The corpus is in order. -/
  kept : campaign.corpus.Kept tested
  /-- Room can be made for one more input. -/
  room : campaign.corpus.HasRoom

/-- A campaign that went on by calls has its corpus in order. -/
theorem Reached.keepsCorpus (reached : Reached start calls campaign) :
    KeepsCorpus start (calls.map Call.input) campaign where
  called := ⟨calls, reached.runs, rfl⟩
  kept := reached.grown.kept
  room := Attempt.makes_after campaign.corpus

/-- A campaign that started and went on for any number of rounds was reached by calls for its inputs. -/
theorem exists_reached {draws : Draws} {clock : Clock} {started ended : Campaign} {rounds : Nat}
    (starts : Campaign.start limits start draws clock = .ok started)
    (run : started.inputs limits rounds = .ok ended) :
    ∃ calls, Reached start calls ended ∧ calls.map Call.input = started.testedIn limits rounds :=
  (reached_start starts).inputs run

/-- A campaign that ends has started and gone on for a number of rounds. -/
theorem exists_inputs_of_campaign {draws : Draws} {clock : Clock} {ended : Campaign}
    (whole : Fuzz.campaign limits start draws clock = .ok (some ended)) :
    ∃ started rounds last, Campaign.start limits start draws clock = .ok started ∧
      limits.rounds? started.started = some rounds ∧ started.inputs limits rounds = .ok last ∧
      ended = last.finish := by
  rw [Fuzz.campaign] at whole
  cases starts : Campaign.start limits start draws clock with
  | error fault =>
    rw [starts] at whole
    cases whole
  | ok started =>
    rw [starts] at whole
    cases enough : limits.rounds? started.started with
    | none =>
      simp only [bind, Except.bind, enough] at whole
      cases whole
    | some rounds =>
      cases run : started.inputs limits rounds with
      | error fault =>
        simp only [bind, Except.bind, enough, run] at whole
        cases whole
      | ok last =>
        simp only [bind, Except.bind, enough, run] at whole
        cases whole
        exact ⟨started, rounds, last, rfl, enough, run, rfl⟩

/-- Whatever its limits are, whatever numbers are drawn and whatever the clock shows, the corpus of a
campaign is in order after any number of rounds and when it ends: it begins with the seeds, has no more
members than the bound, and holds nothing else but inputs that were tested. Room is made by a number
that can be drawn and is the place of no seed. None of this depends on what the tests say. -/
theorem corpus_kept (limits : Limits) (journal : Journal) (draws : Draws) (clock : Clock) :
    (∀ started rounds reached, Campaign.start limits journal draws clock = .ok started →
      started.inputs limits rounds = .ok reached →
        reached.KeepsCorpus journal (started.testedIn limits rounds)) ∧
    (∀ ended, Fuzz.campaign limits journal draws clock = .ok (some ended) →
      ∃ started rounds, Campaign.start limits journal draws clock = .ok started ∧
        ended.KeepsCorpus journal (started.testedIn limits rounds)) ∧
    ∀ tested corpus, Corpus.Grown tested corpus → corpus.Kept tested ∧ corpus.HasRoom := by
  refine ⟨?_, ?_, ?_⟩
  · intro started rounds reached starts run
    obtain ⟨calls, further, inputs⟩ := exists_reached starts run
    exact inputs ▸ further.keepsCorpus
  · intro ended whole
    obtain ⟨started, rounds, last, starts, -, run, rfl⟩ := exists_inputs_of_campaign whole
    obtain ⟨calls, further, inputs⟩ := exists_reached starts run
    exact ⟨started, rounds, starts, inputs ▸ further.finish.keepsCorpus⟩
  · intro tested corpus grown
    exact ⟨grown.kept, Attempt.makes_after corpus⟩

/-- A campaign of five thousand inputs ends with its corpus in order, and so is a corpus that one
interesting input has joined. -/
theorem corpus_kept_five_thousand :
    let limits : Limits := ⟨none, .number 5000⟩
    let journal := Journal.empty fun _ => "20200102_030405"
    let joined := (Corpus.initial.after "struct".toList true).run (.cycle [1, 2])
    (∃ ended started rounds, Fuzz.campaign limits journal (.cycle [1, 2]) .ticking = .ok (some ended) ∧
      Campaign.start limits journal (.cycle [1, 2]) .ticking = .ok started ∧
      ended.KeepsCorpus journal (started.testedIn limits rounds)) ∧
    joined.1.Kept ["struct".toList] ∧ joined.1.HasRoom := by
  intro limits journal joined
  obtain ⟨-, whole, grown⟩ := corpus_kept limits journal (.cycle [1, 2]) .ticking
  obtain ⟨ended, -, ends, -⟩ := exists_campaign_eq _ 5000 (.cycle [1, 2]) .ticking
  obtain ⟨started, rounds, starts, keeps⟩ := whole ended ends
  exact ⟨⟨ended, started, rounds, ends, starts, keeps⟩,
    grown _ _ (Corpus.Grown.start.test "struct".toList true (.cycle [1, 2]))⟩

end Campaign

end ThriftIdl.Fuzz
