import ThriftIdl.Fuzz.Campaign
import ThriftIdl.Proofs.Fuzz.Stored
import Mathlib.Data.List.Nodup

/-!
# The books of a journal

A journal is kept by calls that test inputs, while inputs are counted and lines are printed aside
(`Journal.Runs`). What such a run has counted and found is told by its calls (`Journal.Booked`). One
call keeps the books in order (`Journal.Booked.test`), and so does a whole run
(`Journal.Runs.booked`); in the same way each finding is saved at the time of its own look
(`Journal.Runs.stamped`). Inputs that are tested one after the other are a run
(`Journal.Runs.tested`), and so is a campaign without a limit of time (`exists_campaign_eq`).
-/
namespace ThriftIdl.Fuzz

/-! ### Verdicts -/

/-- How many inputs were tested. -/
def Tally.tested (tally : Tally) : Nat :=
  tally.accepted + tally.refused + tally.disagreements + tally.tokensOnly

namespace Verdict

variable {input : List Char} {verdict : Verdict} {finding : Finding}

/-- A finding is about its input. -/
theorem input_eq (found : verdict.finding? input = some finding) : finding.input = input := by
  cases verdict with
  | refused | disagreement | agreement => cases found
  | tokensOnly | mismatch =>
    obtain rfl := Option.some.inj found
    rfl

end Verdict

namespace Tally

variable (tally : Tally) (verdict : Verdict)

/-- Every verdict counts for one input. -/
theorem tested_count : (tally.count verdict).tested = tally.tested + 1 := by
  cases verdict <;> simp only [count, tested] <;> omega

/-- Every verdict leaves the number of inputs of a campaign. -/
theorem iterations_count : (tally.count verdict).iterations = tally.iterations := by
  cases verdict <;> rfl

/-- Different documents are counted among those that both readers accept. -/
theorem mismatches_count (bound : tally.mismatches ≤ tally.accepted) :
    (tally.count verdict).mismatches ≤ (tally.count verdict).accepted := by
  cases verdict <;> simp only [count] <;> omega

/-- A verdict makes a finding just if it is counted as one of two kinds. -/
theorem isSome_finding?_iff (input : List Char) :
    (verdict.finding? input).isSome = true ↔
      tally.tokensOnly < (tally.count verdict).tokensOnly ∨
        tally.mismatches < (tally.count verdict).mismatches := by
  cases verdict <;> simp [count, Verdict.finding?]

end Tally

/-! ### Calls -/

namespace Journal

variable {journal journal' : Journal}

/-- A journal in which the verdict on an input was counted. -/
def counting (journal : Journal) (input : List Char) : Journal :=
  { journal with tally := journal.tally.count (verdict input) }

/-- Of an input that no finding is made of only the verdict is counted. -/
theorem test_of_eq_none {input : List Char} (found : (verdict input).finding? input = none) :
    journal.test input = (journal.counting input, false) := by
  simp only [test, found, counting]

/-- The finding that is made of an input is kept. -/
theorem test_of_eq_some {input : List Char} {finding : Finding}
    (found : (verdict input).finding? input = some finding) :
    journal.test input = ((journal.counting input).keep finding, true) := by
  simp only [test, found, counting]

/-- Keeping a finding changes neither the times nor the counts. -/
theorem keep_frame (journal : Journal) (finding : Finding) :
    (journal.keep finding).times = journal.times ∧
      (journal.keep finding).tally = journal.tally := by
  unfold keep
  split <;> exact ⟨rfl, rfl⟩

/-- A finding is saved at the time of the next look unless its digits are known. -/
theorem saved_keep (journal : Journal) (finding : Finding) :
    (journal.keep finding).saved =
      if finding.digest ∈ journal.digests then journal.saved
      else journal.saved ++ [⟨journal.time, finding⟩] := by
  by_cases known : finding.digest ∈ journal.digests
  · rw [keep, if_pos (List.contains_iff_mem.2 known), if_pos known]
  · rw [keep, if_neg fun contained => known (List.contains_iff_mem.1 contained), if_neg known]
    rfl

end Journal

/-- A call that tests an input. -/
structure Call where
  /-- What was counted, found and printed before it. -/
  journal : Journal
  /-- The input. -/
  input : List Char

namespace Call

variable {call : Call} {finding : Finding}

/-- What was counted, found and printed after a call. -/
def after (call : Call) : Journal := (call.journal.test call.input).1

/-- What a call says: whether its input is interesting. -/
def interesting (call : Call) : Bool := (call.journal.test call.input).2

/-- The finding that is made of the input of a call, if it is interesting. -/
def finding? (call : Call) : Option Finding := (verdict call.input).finding? call.input

/-- The verdict is counted, and the times stay. -/
theorem after_frame (call : Call) :
    call.after.times = call.journal.times ∧
      call.after.tally = call.journal.tally.count (verdict call.input) := by
  cases found : call.finding? with
  | none =>
    rw [after, Journal.test_of_eq_none found]
    exact ⟨rfl, rfl⟩
  | some finding =>
    rw [after, Journal.test_of_eq_some found]
    exact Journal.keep_frame _ _

/-- A call says that its input is interesting if a finding is made of it. -/
theorem interesting_eq (call : Call) : call.interesting = call.finding?.isSome := by
  cases found : call.finding? with
  | none => rw [interesting, Journal.test_of_eq_none found, Option.isSome_none]
  | some finding => rw [interesting, Journal.test_of_eq_some found, Option.isSome_some]

/-- What was saved stays if the input is not interesting or its digits are known. Otherwise the finding
that is made of it is saved too, at the time of the next look. -/
theorem saved_after (call : Call) :
    (call.interesting = true → digestOf call.input ∈ call.journal.digests) ∧
        call.after.saved = call.journal.saved ∨
      ∃ finding, call.finding? = some finding ∧ finding.input = call.input ∧
        digestOf call.input ∉ call.journal.digests ∧
        call.after.saved = call.journal.saved ++ [⟨call.journal.time, finding⟩] := by
  cases found : call.finding? with
  | none =>
    rw [interesting_eq, found, after, Journal.test_of_eq_none found]
    exact .inl ⟨fun never => absurd never Bool.false_ne_true, rfl⟩
  | some finding =>
    have about : finding.input = call.input := Verdict.input_eq found
    have grows : call.after.saved = if finding.digest ∈ call.journal.digests then
        call.journal.saved else call.journal.saved ++ [⟨call.journal.time, finding⟩] := by
      rw [after, Journal.test_of_eq_some found]
      exact Journal.saved_keep _ _
    rw [finding.digest_eq, about] at grows
    by_cases known : digestOf call.input ∈ call.journal.digests
    · exact .inl ⟨fun _ => known, grows.trans (if_pos known)⟩
    · exact .inr ⟨finding, rfl, about, known, grows.trans (if_neg known)⟩

/-- A call says that its input is interesting just if it adds to one of two counts. -/
theorem interesting_iff (call : Call) :
    call.interesting = true ↔
      call.journal.tally.tokensOnly < call.after.tally.tokensOnly ∨
        call.journal.tally.mismatches < call.after.tally.mismatches := by
  rw [interesting_eq, call.after_frame.2]
  exact Tally.isSome_finding?_iff _ _ _

end Call

/-! ### Runs -/

namespace Journal

/-- Between two calls inputs are counted and lines are printed, and nothing else happens. -/
structure Aside (before after : Journal) : Prop where
  /-- The times stay. -/
  times : after.times = before.times
  /-- What was saved stays. -/
  saved : after.saved = before.saved
  /-- All counts but that of the inputs of a campaign stay. -/
  tally : after.tally = { before.tally with iterations := after.tally.iterations }

/-- A journal runs through calls if each of them goes on from the journal that the one before it left,
but for what happens aside. -/
inductive Runs (start : Journal) : List Call → Journal → Prop where
  /-- Nothing happened yet. -/
  | start : Runs start [] start
  /-- An input is tested. -/
  | test {calls : List Call} {journal : Journal} (runs : Runs start calls journal)
      (input : List Char) : Runs start (calls ++ [⟨journal, input⟩]) (Call.after ⟨journal, input⟩)
  /-- Something happens aside. -/
  | aside {calls : List Call} {before after : Journal} (runs : Runs start calls before)
      (aside : Aside before after) : Runs start calls after

/-- The findings of some calls: each is the one of the first interesting input with its digits. -/
structure Kept (findings : List Finding) (calls : List Call) : Prop where
  /-- No two findings have the same digits. -/
  distinct : (findings.map Finding.digest).Nodup
  /-- The digits of the findings are those of the interesting inputs. -/
  mem_digests_iff : ∀ digest, digest ∈ findings.map Finding.digest ↔
    ∃ call ∈ calls, call.interesting = true ∧ digestOf call.input = digest
  /-- No interesting input before that of a finding has its digits. -/
  first : ∀ finding ∈ findings, ∃ earlier call later,
    calls = earlier ++ call :: later ∧ call.finding? = some finding ∧
      call.input = finding.input ∧
      ∀ other ∈ earlier, other.interesting = true → digestOf other.input ≠ finding.digest

/-- The books of a journal are in order after some calls. -/
structure Booked (journal : Journal) (calls : List Call) : Prop where
  /-- Every call is counted once. -/
  counted :
    journal.tally.accepted + journal.tally.refused + journal.tally.disagreements +
      journal.tally.tokensOnly = calls.length
  /-- Different documents are counted among those that both readers accept. -/
  mismatched : journal.tally.mismatches ≤ journal.tally.accepted
  /-- A call says that its input is interesting just if it adds to one of two counts. -/
  answered : ∀ call ∈ calls, call.interesting = true ↔
    call.journal.tally.tokensOnly < call.after.tally.tokensOnly ∨
      call.journal.tally.mismatches < call.after.tally.mismatches
  /-- The findings are kept. -/
  kept : Kept journal.findings calls

namespace Kept

variable {findings : List Finding} {finding : Finding} {calls : List Call} {call : Call}

/-- Without calls there are no findings. -/
theorem nil : Kept [] [] where
  distinct := List.nodup_nil
  mem_digests_iff digest := by
    constructor
    · intro mem
      cases mem
    · rintro ⟨call, mem, -⟩
      cases mem
  first := List.forall_mem_nil _

/-- The interesting digits after one more call. -/
theorem exists_append_iff (kept : Kept findings calls) (call : Call) (digest : String) :
    (∃ other ∈ calls ++ [call], other.interesting = true ∧ digestOf other.input = digest) ↔
      digest ∈ findings.map Finding.digest ∨
        call.interesting = true ∧ digestOf call.input = digest := by
  rw [kept.mem_digests_iff]
  simp only [List.mem_append, List.mem_singleton, or_and_right, exists_or, exists_eq_left]

/-- What was found before is still the first of its kind after one more call. -/
theorem first_append (kept : Kept findings calls) (call : Call) :
    ∀ finding ∈ findings, ∃ earlier other later, calls ++ [call] = earlier ++ other :: later ∧
      other.finding? = some finding ∧ other.input = finding.input ∧
      ∀ another ∈ earlier, another.interesting = true →
        digestOf another.input ≠ finding.digest := by
  intro finding mem
  obtain ⟨earlier, other, later, rfl, found, about, none⟩ := kept.first finding mem
  exact ⟨earlier, other, later ++ [call], by rw [List.append_assoc, List.cons_append], found, about,
    none⟩

/-- A call whose input is not interesting or has known digits adds no finding. -/
theorem stay (kept : Kept findings calls)
    (known : call.interesting = true → digestOf call.input ∈ findings.map Finding.digest) :
    Kept findings (calls ++ [call]) where
  distinct := kept.distinct
  mem_digests_iff digest := by
    rw [kept.exists_append_iff]
    constructor
    · exact .inl
    · rintro (mem | ⟨is, rfl⟩)
      · exact mem
      · exact known is
  first := kept.first_append call

/-- A call whose input has new digits adds its finding. -/
theorem grow (kept : Kept findings calls) (found : call.finding? = some finding)
    (about : finding.input = call.input)
    (fresh : digestOf call.input ∉ findings.map Finding.digest) :
    Kept (findings ++ [finding]) (calls ++ [call]) where
  distinct := by
    rw [List.map_append, List.nodup_append, List.map_singleton, finding.digest_eq, about]
    refine ⟨kept.distinct, List.nodup_singleton _, fun digest mem other same => ?_⟩
    rintro rfl
    exact fresh (List.mem_singleton.1 same ▸ mem)
  mem_digests_iff digest := by
    have is : call.interesting = true := by rw [call.interesting_eq, found, Option.isSome_some]
    rw [kept.exists_append_iff, List.map_append, List.mem_append, List.map_singleton,
      List.mem_singleton, finding.digest_eq, about]
    exact or_congr_right ⟨fun same => ⟨is, same.symm⟩, fun is => is.2.symm⟩
  first other mem := by
    obtain mem | mem := List.mem_append.1 mem
    · exact kept.first_append call other mem
    · obtain rfl := List.mem_singleton.1 mem
      refine ⟨calls, call, [], rfl, found, about.symm, fun another mem is same => fresh ?_⟩
      rw [← about, ← other.digest_eq, kept.mem_digests_iff]
      exact ⟨another, mem, is, same⟩

end Kept

namespace Booked

variable {journal journal' : Journal} {calls : List Call}

/-- The books of a journal in which nothing happened are in order. -/
theorem empty (times : Nat → String) : (Journal.empty times).Booked [] :=
  ⟨rfl, Nat.le_refl 0, List.forall_mem_nil _, .nil⟩

/-- What happens aside leaves the books in order. -/
theorem aside (booked : journal.Booked calls) (aside : Aside journal journal') :
    journal'.Booked calls := by
  refine ⟨?_, ?_, booked.answered, ?_⟩
  · rw [aside.tally]
    exact booked.counted
  · rw [aside.tally]
    exact booked.mismatched
  · rw [findings, aside.saved]
    exact booked.kept

/-- One call keeps the books in order. -/
theorem test (booked : journal.Booked calls) (input : List Char) :
    (Call.after ⟨journal, input⟩).Booked (calls ++ [⟨journal, input⟩]) := by
  obtain ⟨-, tally⟩ := Call.after_frame ⟨journal, input⟩
  refine ⟨?_, ?_, fun call _ => call.interesting_iff, ?_⟩
  · rw [List.length_append, List.length_singleton, ← booked.counted, tally]
    exact Tally.tested_count _ _
  · rw [tally]
    exact Tally.mismatches_count _ _ booked.mismatched
  · obtain ⟨known, stays⟩ | ⟨finding, found, about, fresh, grows⟩ :=
      Call.saved_after ⟨journal, input⟩
    · rw [findings, stays]
      exact booked.kept.stay known
    · rw [findings, grows, List.map_append]
      exact booked.kept.grow found about fresh

end Booked

/-- A whole run keeps the books in order. -/
theorem Runs.booked {times : Nat → String} {calls : List Call} {journal : Journal}
    (runs : Runs (empty times) calls journal) : journal.Booked calls := by
  induction runs with
  | start => exact .empty times
  | test _ input ih => exact ih.test input
  | aside _ aside ih => exact ih.aside aside

/-- The findings of a journal are stamped if each was saved at the time of its own look. -/
def Stamped (journal : Journal) : Prop :=
  journal.saved.map SavedFinding.time = (List.range journal.saved.length).map journal.times

namespace Stamped

variable {journal journal' : Journal}

/-- Nothing was saved in a journal in which nothing happened. -/
theorem empty (times : Nat → String) : (Journal.empty times).Stamped := rfl

/-- What happens aside saves nothing. -/
theorem aside (stamped : journal.Stamped) (aside : Aside journal journal') : journal'.Stamped := by
  rw [Stamped, aside.saved, aside.times]
  exact stamped

/-- One call saves a finding at the time of the next look, or nothing. -/
theorem test (stamped : journal.Stamped) (input : List Char) :
    (Call.after ⟨journal, input⟩).Stamped := by
  have times := (Call.after_frame ⟨journal, input⟩).1
  obtain ⟨-, stays⟩ | ⟨finding, -, -, -, grows⟩ := Call.saved_after ⟨journal, input⟩
  · rw [Stamped, times, stays]
    exact stamped
  · rw [Stamped, times, grows, List.map_append, List.length_append, List.length_singleton,
      List.range_succ, List.map_append, stamped]
    rfl

/-- The time of every finding is one at which it was looked. -/
theorem exists_time_eq (stamped : journal.Stamped) {saved : SavedFinding}
    (mem : saved ∈ journal.saved) : ∃ look, saved.time = journal.times look := by
  have time : saved.time ∈ (List.range journal.saved.length).map journal.times :=
    stamped ▸ List.mem_map_of_mem mem
  obtain ⟨look, -, same⟩ := List.mem_map.1 time
  exact ⟨look, same.symm⟩

end Stamped

variable {start journal : Journal} {calls : List Call} {times : Nat → String}

/-- The times stay in a run. -/
theorem Runs.times_eq (runs : Runs start calls journal) : journal.times = start.times := by
  induction runs with
  | start => rfl
  | test _ input ih => exact (Call.after_frame _).1.trans ih
  | aside _ aside ih => exact aside.times.trans ih

/-- Each finding of a whole run was saved at the time of its own look. -/
theorem Runs.stamped (runs : Runs (empty times) calls journal) : journal.Stamped := by
  induction runs with
  | start => exact .empty times
  | test _ input ih => exact ih.test input
  | aside _ aside ih => exact ih.aside aside

/-- A line is printed aside. -/
theorem Runs.print (runs : Runs start calls journal) (line : List Char) :
    Runs start calls (journal.print line) :=
  .aside runs ⟨rfl, rfl, rfl⟩

/-- The findings of books that are in order have files of their own, if the times are in digits. Of two
findings that are saved at the same time the digits tell the files apart. -/
theorem Booked.files_eq (booked : journal.Booked calls) (stamped : journal.Stamped)
    (stamps : ∀ look, IsStamp (journal.times look)) :
    journal.files =
        journal.saved.map (fun saved => (saved.fileName.toList, saved.content)) ∧
      (journal.files.map Prod.fst).Nodup := by
  have files : journal.files =
      journal.saved.map fun saved => (saved.fileName.toList, saved.content) := by
    rw [Journal.files, ← List.filterMap_eq_map]
    refine List.filterMap_congr fun saved mem => ?_
    obtain ⟨look, time⟩ := stamped.exists_time_eq mem
    have stamp : IsStamp saved.time := time ▸ stamps look
    obtain ⟨-, call, -, -, found, -, -⟩ :=
      booked.kept.first saved.finding (List.mem_map_of_mem mem)
    rw [SavedFinding.file?, Finding.storedName?_eq stamp found]
    rfl
  have distinct : (journal.saved.map fun saved => saved.finding.digest).Nodup := by
    have digests := booked.kept.distinct
    rwa [Journal.findings, List.map_map] at digests
  refine ⟨files, ?_⟩
  rw [files, List.map_map]
  refine (List.nodup_map_iff_inj_on (List.Nodup.of_map _ distinct)).2 ?_
  intro saved mem saved' mem' same
  exact List.inj_on_of_nodup_map distinct mem mem'
    (Finding.digest_eq_of_fileName_eq (String.toList_inj.1 same))

/-! ### One call after the other -/

/-- Test inputs one after the other. -/
def tested (journal : Journal) (inputs : List (List Char)) : Journal :=
  inputs.foldl (fun journal input => (journal.test input).1) journal

/-- The calls that test inputs one after the other. -/
def callsFor (journal : Journal) : List (List Char) → List Call
  | [] => []
  | input :: inputs => ⟨journal, input⟩ :: callsFor (journal.test input).1 inputs

/-- There is one call for each input. -/
theorem map_input_callsFor (journal : Journal) (inputs : List (List Char)) :
    (journal.callsFor inputs).map Call.input = inputs := by
  induction inputs generalizing journal with
  | nil => rfl
  | cons input inputs ih => exact congrArg (input :: ·) (ih _)

/-- Inputs that are tested one after the other make a run. -/
theorem Runs.tested {before : List Call} (runs : Runs start before journal)
    (inputs : List (List Char)) :
    Runs start (before ++ journal.callsFor inputs) (journal.tested inputs) := by
  induction inputs generalizing journal before with
  | nil =>
    rw [Journal.callsFor, List.append_nil]
    exact runs
  | cons input inputs ih =>
    have whole := ih (runs.test input)
    rw [List.append_assoc] at whole
    exact whole

end Journal

/-! ### Campaigns -/

namespace Campaign

open Journal

variable {start : Journal} {calls : List Call} {campaign : Campaign}

/-- After a report nothing but a line was printed. -/
theorem journal_milestone (campaign : Campaign) :
    campaign.milestone.journal = campaign.journal ∨
      ∃ line, campaign.milestone.journal = campaign.journal.print line := by
  unfold milestone
  split
  · exact .inr ⟨_, rfl⟩
  · exact .inl rfl

/-- A campaign that tests an input goes on by one call, and counts one more input. -/
theorem runs_testInput (runs : Runs start calls campaign.journal) (input : List Char)
    (draws : Draws) :
    ∃ call, call.input = input ∧
      Runs start (calls ++ [call]) (campaign.testInput input draws).journal ∧
      (campaign.testInput input draws).journal.tally.iterations =
        campaign.journal.tally.iterations + 1 := by
  have counts : Aside campaign.journal campaign.journal.countInput := ⟨rfl, rfl, rfl⟩
  have tested := (runs.aside counts).test input
  have iterations := (congrArg Tally.iterations (Call.after_frame ⟨_, input⟩).2).trans
    (Tally.iterations_count campaign.journal.countInput.tally (verdict input))
  refine ⟨⟨campaign.journal.countInput, input⟩, rfl, ?_⟩
  rw [testInput]
  obtain same | ⟨line, same⟩ := journal_milestone _
  · rw [same]
    exact ⟨tested, iterations⟩
  · rw [same]
    exact ⟨tested.print line, iterations⟩

/-- A step of a campaign tests some input. -/
theorem step_eq (campaign : Campaign) :
    ∃ input draws, campaign.step = campaign.testInput input draws := by
  rw [step]
  exact ⟨_, _, rfl⟩

/-- A campaign without a limit of time that has rounds enough runs up to its number of inputs. -/
theorem runs_inputs (most : Int) (rounds : Nat) (runs : Runs start calls campaign.journal)
    (counted : campaign.journal.tally.iterations = calls.length) (few : calls.length ≤ most.toNat)
    (enough : calls.length + rounds = most.toNat + 1) :
    ∃ ended more, campaign.inputs ⟨none, .number most⟩ rounds = .ok ended ∧
      Runs start more ended.journal ∧ more.length = most.toNat ∧
      ended.journal.tally.iterations = most.toNat := by
  induction rounds generalizing campaign calls with
  | zero => omega
  | succ rounds ih =>
    have done : campaign.isDone ⟨none, .number most⟩ =
        .ok (decide (most ≤ (calls.length : Int)), campaign) := by
      rw [← counted]
      rfl
    rw [inputs, done]
    by_cases full : most ≤ (calls.length : Int)
    · rw [decide_eq_true full]
      exact ⟨campaign, calls, rfl, runs, by omega, by omega⟩
    · rw [decide_eq_false full]
      obtain ⟨input, draws, step⟩ := campaign.step_eq
      obtain ⟨call, -, runs, iterations⟩ := runs_testInput runs input draws
      rw [← step] at runs iterations
      have length : (calls ++ [call]).length = calls.length + 1 := List.length_append
      exact ih runs (by omega) (by omega) (by omega)

end Campaign

/-- A campaign that starts anew without a limit of time ends, and it is a run of as many calls as it is
to have inputs. A number below nought is none. -/
theorem exists_campaign_eq (times : Nat → String) (most : Int) (draws : Draws) (clock : Clock) :
    ∃ ended calls, campaign ⟨none, .number most⟩ (.empty times) draws clock = .ok (some ended) ∧
      Journal.Runs (.empty times) calls ended.journal ∧ calls.length = most.toNat ∧
      ended.journal.tally.iterations = most.toNat := by
  obtain ⟨started, starts, runs, zero⟩ : ∃ started,
      Campaign.start ⟨none, .number most⟩ (.empty times) draws clock = .ok started ∧
        Journal.Runs (.empty times) [] started.journal ∧
        started.journal.tally.iterations = 0 :=
    ⟨_, rfl, (((Journal.Runs.start.print _).print _).print _).print _, rfl⟩
  obtain ⟨ended, calls, inputs, runs, length, iterations⟩ :=
    Campaign.runs_inputs most (most.toNat + 1) runs zero (Nat.zero_le _) (Nat.zero_add _)
  refine ⟨ended.finish, calls, ?_, ((runs.print _).print _).print _, length, iterations⟩
  have rounds : Limits.rounds? ⟨none, .number most⟩ started.started = some (most.toNat + 1) := rfl
  simp only [campaign, starts, bind, Except.bind, rounds, inputs]
  rfl

/-! ### The books -/

/-- The books of a journal are in order. After any inputs that were tested one after the other, and
after any campaign of a number of inputs, each input is counted once as accepted, refused, a
disagreement or accepted over tokens alone; a call says that its input is interesting just if it adds
to the inputs accepted over tokens alone or to the different documents, which are among the accepted;
and the findings are those of the first interesting inputs with their digits, each saved at the time
of its own look and in a file of its own. A campaign counts as many inputs as it is to have. -/
theorem Journal.books_in_order (times : Nat → String) (stamps : ∀ look, IsStamp (times look)) :
    (∀ inputs, let tested := (Journal.empty times).tested inputs
      let calls := (Journal.empty times).callsFor inputs
      calls.map Call.input = inputs ∧ tested.Booked calls ∧
        tested.saved.map SavedFinding.time = (List.range tested.saved.length).map times ∧
        tested.files =
          tested.saved.map (fun saved => (saved.fileName.toList, saved.content)) ∧
        (tested.files.map Prod.fst).Nodup) ∧
    ∀ (most : Int) (draws : Draws) (clock : Clock), ∃ ended calls,
      campaign ⟨none, .number most⟩ (Journal.empty times) draws clock = .ok (some ended) ∧
        Runs (Journal.empty times) calls ended.journal ∧ ended.journal.Booked calls ∧
        (ended.journal.tally.iterations : Int) = max most 0 ∧
        ended.journal.tally.iterations =
          ended.journal.tally.accepted + ended.journal.tally.refused +
            ended.journal.tally.disagreements + ended.journal.tally.tokensOnly ∧
        ended.journal.saved.map SavedFinding.time =
          (List.range ended.journal.saved.length).map times ∧
        ended.journal.files =
          ended.journal.saved.map (fun saved => (saved.fileName.toList, saved.content)) ∧
        (ended.journal.files.map Prod.fst).Nodup := by
  have stored : ∀ {calls journal}, Runs (Journal.empty times) calls journal →
      journal.saved.map SavedFinding.time = (List.range journal.saved.length).map times ∧
        journal.files =
          journal.saved.map (fun saved => (saved.fileName.toList, saved.content)) ∧
        (journal.files.map Prod.fst).Nodup := by
    intro calls journal runs
    have same : journal.times = times := runs.times_eq
    have stamped := runs.stamped
    rw [← same] at stamps ⊢
    exact ⟨stamped, runs.booked.files_eq stamped stamps⟩
  constructor
  · intro inputs
    have runs : Runs (Journal.empty times) ((Journal.empty times).callsFor inputs)
        ((Journal.empty times).tested inputs) := Runs.start.tested inputs
    exact ⟨map_input_callsFor _ inputs, runs.booked, stored runs⟩
  · intro most draws clock
    obtain ⟨ended, calls, ends, runs, length, iterations⟩ :=
      exists_campaign_eq times most draws clock
    refine ⟨ended, calls, ends, runs, runs.booked, ?_, ?_, stored runs⟩
    · rw [iterations, Int.ofNat_toNat]
    · rw [runs.booked.counted, length, iterations]

/-- The books after four tests by a clock that moves on. Two inputs are findings, each saved at its own
time; one of them is tested again, which is counted but saves nothing more. -/
theorem Journal.books_in_order_of_repeated :
    let times := fun look : Nat => if look = 0 then "20200102_030405" else "20200102_030406"
    let inputs := ["namespace* foo".toList, "const i32 a = 1".toList, "namespace* foo".toList,
      "namespace* bar".toList]
    let tested := (Journal.empty times).tested inputs
    (∀ look, IsStamp (times look)) ∧ tested.tally = ⟨0, 1, 0, 0, 3, 0⟩ ∧
      tested.tally.accepted + tested.tally.refused + tested.tally.disagreements +
          tested.tally.tokensOnly = 4 ∧
      (∃ earlier call later, (Journal.empty times).callsFor inputs = earlier ++ call :: later ∧
        call.input = "namespace* bar".toList ∧ call.interesting = true) ∧
      tested.saved.map SavedFinding.time = ["20200102_030405", "20200102_030406"] ∧
      tested.files.map Prod.fst =
        ["peg_only_20200102_030405_a09ce301.txt".toList,
          "peg_only_20200102_030406_41946edf.txt".toList] := by
  intro times inputs tested
  have tally : tested.tally = ⟨0, 1, 0, 0, 3, 0⟩ := by decide +kernel +revert
  have length : tested.saved.length = 2 := by decide +kernel +revert
  have names : tested.saved.map SavedFinding.fileName =
      ["peg_only_20200102_030405_a09ce301.txt", "peg_only_20200102_030406_41946edf.txt"] := by
    decide +kernel +revert
  have found : tested.findings.map Finding.input =
      ["namespace* foo".toList, "namespace* bar".toList] := by
    decide +kernel +revert
  have stamps : ∀ look, IsStamp (times look) := by
    intro look
    have stamp : IsStamp "20200102_030405" ∧ IsStamp "20200102_030406" :=
      ⟨⟨by decide, by simp [Text.isDigit]⟩, ⟨by decide, by simp [Text.isDigit]⟩⟩
    unfold times
    split
    · exact stamp.1
    · exact stamp.2
  obtain ⟨called, booked, saved, files, -⟩ := (Journal.books_in_order times stamps).1 inputs
  refine ⟨stamps, tally, ?_, ?_, ?_, ?_⟩
  · rw [booked.counted, ← List.length_map Call.input, called]
    rfl
  · obtain ⟨finding, mem, about⟩ : ∃ finding ∈ tested.findings,
        finding.input = "namespace* bar".toList := by
      refine List.mem_map.1 ?_
      rw [found]
      exact List.mem_cons_of_mem _ (List.mem_singleton_self _)
    obtain ⟨earlier, call, later, calls, made, same, -⟩ := booked.kept.first finding mem
    refine ⟨earlier, call, later, calls, same.trans about, ?_⟩
    rw [call.interesting_eq, made, Option.isSome_some]
  · rw [saved, length]
    rfl
  · have same : (Prod.fst ∘ fun saved : SavedFinding => (saved.fileName.toList, saved.content)) =
        String.toList ∘ SavedFinding.fileName := rfl
    rw [files, List.map_map, same, ← List.map_map, names]
    rfl

end ThriftIdl.Fuzz
