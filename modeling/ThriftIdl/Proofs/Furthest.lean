import ThriftIdl.Proofs.Alike.Tokens
import ThriftIdl.Proofs.Reader.Noted
import ThriftIdl.Proofs.Reader.Source
import ThriftIdl.Proofs.Session

/-!
# How far a diagnosis points

Where strict reading refuses a text, no definition matches at the place where reading stopped. The
diagnosis lies at that place or beyond it, and no production of a definition that is read there fails
further on, nor notes a fault further on (`readStrictly_furthest`).
-/
namespace ThriftIdl

open Text Fault

/-- The productions of definitions. -/
def Production.definitions : List Production :=
  [inclusion, cppInclusion, space, typedef, const, enum, struct, union, exception, service]

namespace Reader

open Readable

variable {depth : Nat} {text rest : List Char} {noted : Option Fault}

/-- Where no definition matches, none of the productions of definitions does. -/
theorem failsUnder_of_definition
    (fails : (definition depth : Reader (List Char) (Definition Nat)).FailsUnder noted text) :
    ∀ production ∈ Production.definitions, (production.reader depth).FailsUnder noted text := by
  have each := fails.of_alternatives
  simp only [List.forall_mem_cons] at each
  obtain ⟨inclusion, cppInclusion, space, typedef, const, enum, struct, union, exception, service,
    -⟩ := each
  simp only [Production.definitions, List.forall_mem_cons]
  exact ⟨inclusion.of_map.map _, cppInclusion.of_map.map _, space.of_map.map _,
    typedef.of_map.map _, const.of_map.map _, enum.of_map.map _, struct.of_map.map _,
    union.of_map.map _, exception.of_map.map _, service.of_map.map _, List.forall_mem_nil _⟩

/-- Where a definition with the blanks around it does not match, no definition matches after the
blanks. -/
theorem FailsUnder.of_spacedDefinition
    (fails : (spacedDefinition depth : Reader (List Char) (Definition Nat)).FailsUnder noted text) :
    (definition depth : Reader (List Char) (Definition Nat)).FailsUnder noted (skip text) := by
  unfold spacedDefinition at fails
  refine (of_bind_of_ok skipSeparator_apply fails).of_bind fun value place failure rest own failed => ?_
  change Reader.bind _ _ _ = _ at failed
  rw [Reader.bind, skipSeparator_apply] at failed
  cases failed

/-- Where reading a document stops, none of the productions of definitions matches after the blanks
there, and a fault is noted that got as far as all of theirs. -/
theorem failsUnder_of_document {document : Document Nat}
    (read : Reader.document depth text = .ok document rest noted) :
    ∀ production ∈ Production.definitions,
      (production.reader depth).FailsUnder noted (skip rest) := by
  change Reader.bind (definitions depth) _ text = _ at read
  unfold Reader.bind at read
  split at read
  next values place own done =>
    obtain ⟨rfl, rfl, rfl⟩ := Outcome.ok.inj read
    have stops := failsUnder_of_many (fun tried => length_lt_of_spacedDefinition ⟨_, tried⟩) done
    have fails := failsUnder_of_definition stops.of_spacedDefinition
    exact fun production mem =>
      (fails production mem).mono fun left reaches => reaches_best_iff.2 (.inl reaches)
  next => cases read

/-- Reading a document fails only for nesting. -/
theorem isFinal_of_document {failure : Failure}
    (read : Reader.document depth text = .fail failure rest noted) : failure.isFinal = true := by
  change Reader.bind (definitions depth) _ text = _ at read
  unfold Reader.bind at read
  split at read
  next => cases read
  next failed =>
    obtain ⟨rfl, -, -⟩ := Outcome.fail.inj read
    exact isFinal_of_many failed

end Reader

/-! ### Diagnoses -/

section Diagnoses

variable {limit : Int} {source text : List Char}

/-- The diagnosis where reading stopped lies there or beyond, and as far on as what was noted got. -/
theorem offset_ofRemainder (limit : Int) {offset : Nat} (noted : Option Fault)
    (within : offset ≤ source.length) :
    let diagnosis := Diagnosis.ofRemainder source limit offset
      (noted.map (.ofFault source limit 0))
    (offset : Int) ≤ diagnosis.offset ∧ diagnosis.offset ≤ source.length ∧
      ∀ left, Reaches noted left → source.length - left ≤ diagnosis.offset := by
  have unexpected (reason : Reason) : (Diagnosis.ofFault source limit offset
      ⟨reason, (Text.ending source offset - offset).toNat⟩).offset = offset := by
    rw [Diagnosis.ofFault, ending_of_le within]
    show (source.length : Int) - ((source.length - offset : Int).toNat : Nat) = offset
    omega
  have start : Text.ending source 0 = source.length := ending_of_le (Nat.zero_le _)
  cases noted with
  | none =>
    simp only [Diagnosis.ofRemainder, Option.map_none, unexpected]
    refine ⟨Int.le_refl _, by omega, ?_⟩
    rintro left ⟨_, ⟨⟩, _⟩
  | some fault =>
    have place : (Diagnosis.ofFault source limit 0 fault).offset = source.length - fault.left := by
      rw [Diagnosis.ofFault, start]
    simp only [Diagnosis.ofRemainder, Option.map_some, Reaches, Option.some.injEq, exists_eq_left']
    split
    next best =>
      simp only [Bool.or_eq_true, Bool.and_eq_true, decide_eq_true_eq, place] at best
      rw [place]
      exact ⟨by omega, by omega, fun left reaches => by omega⟩
    next best =>
      simp only [Bool.or_eq_true, Bool.and_eq_true, decide_eq_true_eq, place, not_or] at best
      rw [unexpected]
      exact ⟨by omega, by omega, fun left reaches => by omega⟩

namespace Session

/-- The failure that a production raises at a cursor that does not stand before the start of the text,
as a tree of diagnoses. -/
def raised? (session : Session) (production : Production) : Option (Trace Diagnosis) :=
  let levels := session.setting.levels session.depth
  match production.machine levels session.setting ⟨session.rest, session.depth, session.furthest⟩ with
  | (.ok _, _) => none
  | (.error failure, _) => some (failure.map session.diagnosis)

/-- What a production raises is what its reader fails with. -/
theorem raised?_eq (session : Session) (production : Production) :
    session.raised? production =
      match production.reader (session.setting.levels session.depth) session.rest with
      | .ok _ _ _ => none
      | .fail failure _ _ => some (failure.map session.diagnosis) := by
  have ended : production.machine (session.setting.levels session.depth) session.setting
      ⟨session.rest, session.depth, session.furthest⟩ = _ :=
    Machine.follows_production production session.rest session.furthest
  rw [raised?, ended]
  cases production.reader (session.setting.levels session.depth) session.rest <;> rfl

/-- A text that ends another one is what stands after the cursor at its start. -/
theorem since_of_suffix (suffix : text <:+ source) :
    Text.since source (source.length - text.length : Nat) = text := by
  obtain ⟨before, rfl⟩ := suffix
  rw [List.length_append, Nat.add_sub_cancel]
  exact since_append before text

/-- A production that fails under a noted fault raises a failure, and neither that nor what is noted
gets further. -/
theorem raised?_of_failsUnder {production : Production} {noted : Option Fault} {most : Int}
    (suffix : text <:+ source) (fails : (production.reader limit.toNat).FailsUnder noted text)
    (far : ∀ left, Reaches noted left → source.length - left ≤ most) :
    let fresh : Session := ⟨source, limit, (source.length - text.length : Nat), 0, none⟩
    ∃ raised, fresh.raised? production = some raised ∧
      (fresh.step (.production production)).2 = .error (.diagnosis raised.head) ∧
      (raised.furthest Diagnosis.better).offset ≤ most ∧
      ∀ best, (fresh.step (.production production)).1.furthest = some best →
        best.offset ≤ most := by
  intro fresh
  obtain ⟨failure, rest, own, failed, soft, faults, owns⟩ := fails
  have cursor : fresh.rest = text := since_of_suffix suffix
  have place (fault : Fault) : (fresh.diagnosis fault).offset = source.length - fault.left := by
    rw [Session.diagnosis, Diagnosis.ofFault]
    show Text.ending source (source.length - text.length : Nat) - _ = _
    rw [ending_of_le (Nat.sub_le _ _)]
  have kind : failure.head.reason.kind ≠ .nesting := of_decide_eq_false soft
  have levels : fresh.setting.levels fresh.depth = limit.toNat := levels_of_closed rfl
  have run : fresh.step (.production production) =
      (fresh.reach (fresh.ending - rest.length) own,
        .error (.diagnosis (fresh.diagnosis failure.head))) := by
    rw [step_production_eq, run_eq (Int.natCast_nonneg _), cursor, levels, failed, Session.afterwards, if_neg (ne_outOfRange_of_kind kind)]
    exact congrArg (fun raised => (_, Except.error raised)) (raised_eq kind _)
  refine ⟨failure.map fresh.diagnosis, ?_, ?_, ?_, ?_⟩
  · rw [raised?_eq, levels, cursor, failed]
  · rw [run, Trace.head_map]
  · have mem := Trace.furthest_mem_preorder Diagnosis.better (failure.map fresh.diagnosis)
    rw [Trace.preorder_map] at mem
    obtain ⟨fault, inside, same⟩ := List.mem_map.1 mem
    rw [← same, place]
    exact far _ (faults fault inside)
  · intro best same
    rw [run] at same
    cases own with
    | none => cases same
    | some fault =>
      obtain rfl := Option.some.inj same
      rw [place]
      exact far _ (owns _ ⟨fault, rfl, Nat.le_refl _⟩)

/-- A reader that gives something at a cursor within the text moves it to what is left. -/
theorem offset_run {α : Type} {session : Session} {value : α}
    {rule : (ι : Type) → [Readable ι] → Reader ι α} {answer : α → Answer} {rest : List Char}
    (start : 0 ≤ session.offset) (within : session.offset ≤ session.source.length)
    (given : (rule (List Char)).Gives session.rest value rest) :
    (session.run rule answer).1.offset = session.source.length - rest.length := by
  obtain ⟨noted, given⟩ := given
  rw [run_eq start, given]
  exact congrArg (· - (rest.length : Int)) (ending_eq_length within)

/-- Where reading a document and skipping the blanks after it leads to. -/
theorem offset_reached_document {document : Document Nat} {rest : List Char}
    (read : (Reader.document limit.toNat).Gives source document rest) :
    ((start source limit).reached [.production .document, .skipSeparator]).offset =
      (source.length - (skip rest).length : Nat) := by
  obtain ⟨⟨before, rfl⟩, -⟩ :=
    (Reader.confined_document limit.toNat).of_gives List.suffix_rfl read
  have length : (before ++ rest).length = before.length + rest.length := List.length_append
  have shorter := length_skip_le rest
  let opened := ((start (before ++ rest) limit).step (.production .document)).1
  have source : opened.source = before ++ rest := (step_frame _ _).source
  have cursor : opened.offset = before.length := by
    rw [show opened = _ from congrArg Prod.fst (step_production_eq _ _), levels_of_closed rfl]
    refine (offset_run (Int.le_refl 0) (Int.natCast_nonneg _) (read.map Reading.document)).trans ?_
    show ((before ++ rest).length : Int) - rest.length = _
    omega
  have here : opened.rest = rest := by
    rw [Session.rest, source, cursor, since_append]
  have skipped : (opened.run (fun _ => Readable.skipSeparator) .flag).1.offset =
      opened.source.length - (skip rest).length := by
    refine offset_run (by omega) ?_ (Reader.gives_skipSeparator.2 ⟨rfl, ?_⟩)
    · rw [source]
      omega
    · rw [here]
  refine skipped.trans ?_
  rw [source]
  omega

end Session

/-- A text that is refused other than for nesting is read up to some place, and no definition begins
after the blanks there. The diagnosis lies at that place or beyond it, within the text, and each
production of a definition that is read there raises a failure that gets no further, and notes no
fault that does. -/
theorem readStrictly_furthest {diagnosis : Diagnosis}
    (refused : readStrictly limit source = .error (.diagnosis diagnosis)) (unnested : diagnosis.limit = none) :
    let stopped := (Session.start source limit).reached [.production .document, .skipSeparator]
    let fresh := (Session.start source limit).reached [.seek stopped.offset]
    (∃ stop, readDefinitions limit source = .ok stop ∧
        stopped.offset = (source.length - (skip stop.rest).length : Nat)) ∧
      stopped.offset ≤ diagnosis.offset ∧ diagnosis.offset ≤ source.length ∧
      ∀ production ∈ Production.definitions, ∃ raised, fresh.raised? production = some raised ∧
        (fresh.step (.production production)).2 = .error (.diagnosis raised.head) ∧
        (raised.furthest Diagnosis.better).offset ≤ diagnosis.offset ∧
        ∀ best, (fresh.step (.production production)).1.furthest = some best →
          best.offset ≤ diagnosis.offset := by
  intro stopped fresh
  cases opening : Reader.document limit.toNat source with
  | fail failure rest noted =>
    simp only [readStrictly, readDefinitions, opening] at refused
    -- Definitions are tried, so that only nesting is diagnosed, and its diagnosis tells the limit.
    have nested : failure.head.reason.kind = .nesting :=
      of_decide_eq_true (Reader.isFinal_of_document opening)
    have raised := Except.error.inj refused
    unfold Raised.ofFault at raised
    split at raised
    next => cases raised
    next =>
      obtain rfl := Raised.diagnosis.inj raised
      rw [Diagnosis.ofFault, if_pos nested] at unnested
      cases unnested
  | ok document rest noted =>
    have read : readDefinitions limit source =
        .ok ⟨document.map (positionIn source 0), rest, noted⟩ := by
      rw [readDefinitions, opening]
    have skipping : Lexical.skipSeparator rest =
        .ok (hasGap rest) (skip rest) (Lexical.unclosedNote (skip rest)) :=
      Reader.skipSeparator_apply
    simp only [readStrictly, read, skipping] at refused
    split at refused
    next => cases refused
    next =>
      obtain rfl := Raised.diagnosis.inj (Except.error.inj refused)
      have cursor : stopped.offset = (source.length - (skip rest).length : Nat) :=
        Session.offset_reached_document ⟨noted, opening⟩
      refine ⟨⟨_, read, cursor⟩, ?_⟩
      have start : fresh = ⟨source, limit, (source.length - (skip rest).length : Nat), 0, none⟩ := by
        rw [← cursor]
        rfl
      -- The diagnosis is where a noted fault got to, if that is beyond the place that is reached.
      obtain ⟨least, most, far⟩ := offset_ofRemainder limit
        (Fault.best noted (Lexical.unclosedNote (skip rest)))
        (Nat.sub_le source.length (skip rest).length)
      obtain ⟨suffix, -⟩ :=
        (Reader.confined_document limit.toNat).of_gives List.suffix_rfl ⟨noted, opening⟩
      rw [cursor, start]
      refine ⟨least, most, fun production mem => ?_⟩
      refine Session.raised?_of_failsUnder ((skip_suffix rest).trans suffix)
        (Reader.failsUnder_of_document opening production mem) fun left reaches => ?_
      exact far left (reaches_best_iff.2 (.inl reaches))

/-- An enumeration without an end is refused, and the diagnosis lies no less far on than where reading
the enumeration by itself fails. -/
theorem readStrictly_furthest_unclosed : ∃ diagnosis,
    readStrictly 64 "const i32 a = 1 enum B \x7b C = ".toList = .error (.diagnosis diagnosis) ∧
      diagnosis.limit = none ∧
        let start := Session.start "const i32 a = 1 enum B \x7b C = ".toList 64
        let stopped := start.reached [.production .document, .skipSeparator]
        let fresh := start.reached [.seek stopped.offset]
        stopped.offset ≤ diagnosis.offset ∧ diagnosis.offset ≤ 29 ∧
          ∃ raised, fresh.raised? .enum = some raised ∧
            (raised.furthest Diagnosis.better).offset ≤ diagnosis.offset := by
  have fails : ((readStrictly 64 "const i32 a = 1 enum B \x7b C = ".toList).map fun _ => ()).mapError
      (fun raised => (raised.isNesting, raised.report.1.isSome)) = .error (false, true) := by
    decide +kernel
  cases refused : readStrictly 64 "const i32 a = 1 enum B \x7b C = ".toList with
  | ok document =>
    rw [refused] at fails
    cases fails
  | error raised =>
    rw [refused] at fails
    obtain ⟨unnested, placed⟩ := Prod.mk.inj (Except.error.inj fails)
    cases raised with
    | tooManyDigits count => cases placed
    | diagnosis diagnosis =>
      have unnested : diagnosis.limit = none := by simpa [Raised.isNesting] using unnested
      obtain ⟨-, least, most, each⟩ := readStrictly_furthest refused unnested
      obtain ⟨raised, raises, -, bound, -⟩ := each .enum (by decide)
      exact ⟨diagnosis, rfl, unnested, least, most, raised, raises, bound⟩

end Diagnoses
end ThriftIdl
