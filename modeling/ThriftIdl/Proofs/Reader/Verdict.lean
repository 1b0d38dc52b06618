import ThriftIdl.Proofs.Reader.Congruence
import ThriftIdl.Proofs.Reader.Results

/-!
# What counts of an outcome

Of an outcome only its verdict counts here: the value with what is left, or the reason for which reading
ended if that is final; not the faults that were noted, nor the causes of a failure. The verdict of readers
that are put together depends on the verdicts of the parts alone, and a numeral with too many digits ends
them all (`Reader.congruence_agrees`). The verdict of a choice is that of the first branch that does not
refuse (`Reader.verdict_alternatives`). So two orders of the branches have the same verdict if those that do
not refuse come in the same order in both (`firstVerdict_map_eq`).
-/
namespace ThriftIdl

/-- What counts of an outcome. -/
inductive Verdict (γ : Type) where
  /-- Something is given: a value, and what is left. -/
  | gives (found : γ)
  /-- The input is refused. -/
  | refuses
  /-- Reading ends for a reason that nothing swallows. -/
  | ends (reason : Reason)

/-- The verdict on an outcome. -/
def Outcome.verdict {ι α : Type} : Outcome ι α → Verdict (α × ι)
  | .ok value rest _ => .gives (value, rest)
  | .fail failure _ _ => if failure.isFinal then .ends failure.head.reason else .refuses

/-- A failure is a refusal unless it is final. -/
theorem Outcome.verdict_fail {ι α : Type} {failure : Failure} {rest : ι} {noted : Option Fault} :
    (Outcome.fail failure rest noted : Outcome ι α).verdict =
      if failure.isFinal then .ends failure.head.reason else .refuses := rfl

/-- Faults that were noted before do not count. -/
@[simp] theorem Outcome.verdict_after {ι α : Type} (earlier : Option Fault) (outcome : Outcome ι α) :
    (outcome.after earlier).verdict = outcome.verdict := by
  cases outcome <;> rfl

namespace Verdict

variable {γ δ : Type}

/-- A verdict that depends on what is given. -/
def bind (verdict : Verdict γ) (next : γ → Verdict δ) : Verdict δ :=
  match verdict with
  | gives found => next found
  | refuses => refuses
  | ends reason => ends reason

/-- Another verdict instead of a refusal. -/
def orElse (verdict other : Verdict γ) : Verdict γ :=
  match verdict with
  | refuses => other
  | verdict => verdict

/-- A verdict with what is given changed. -/
def map (change : γ → δ) (verdict : Verdict γ) : Verdict δ := verdict.bind fun found => gives (change found)

/-- Whether a verdict is a refusal. -/
def isRefusal : Verdict γ → Bool
  | refuses => true
  | gives _ | ends _ => false

/-- Reading ended because a numeral has more digits than can be converted. -/
def IsHalt (verdict : Verdict γ) : Prop :=
  ∃ count, digitLimit < count ∧ verdict = ends (.tooManyDigits count)

/-- What is no refusal counts, whatever follows. -/
theorem orElse_of_isRefusal {verdict : Verdict γ} (counts : verdict.isRefusal = false) (other : Verdict γ) :
    verdict.orElse other = verdict := by
  cases verdict with
  | gives | ends => rfl
  | refuses => cases counts

/-- What comes after a halt does not matter. -/
theorem IsHalt.bind {verdict : Verdict γ} (halt : verdict.IsHalt) (next : γ → Verdict δ) :
    (verdict.bind next).IsHalt := by
  obtain ⟨count, many, rfl⟩ := halt
  exact ⟨count, many, rfl⟩

/-- There is no other way after a halt. -/
theorem IsHalt.orElse {verdict : Verdict γ} (halt : verdict.IsHalt) (other : Verdict γ) :
    (verdict.orElse other).IsHalt := by
  obtain ⟨count, many, rfl⟩ := halt
  exact ⟨count, many, rfl⟩

/-- There is another way after a refusal. -/
@[simp] theorem refuses_orElse (other : Verdict γ) : refuses.orElse other = other := rfl

/-- There is no other way after the end of reading. -/
@[simp] theorem ends_orElse (reason : Reason) (other : Verdict γ) :
    (ends reason).orElse other = ends reason := rfl

/-- Nothing follows a refusal. -/
@[simp] theorem refuses_bind (next : γ → Verdict δ) : refuses.bind next = refuses := rfl

/-- Nothing follows the end of reading. -/
@[simp] theorem ends_bind (reason : Reason) (next : γ → Verdict δ) :
    (ends reason).bind next = ends reason := rfl

/-- What is given may be changed on both ways. -/
theorem map_orElse (change : γ → δ) (verdict other : Verdict γ) :
    (verdict.orElse other).map change = (verdict.map change).orElse (other.map change) := by
  cases verdict <;> rfl

/-- What is given may be changed twice at once. -/
theorem map_map {ε : Type} (change : γ → δ) (change' : δ → ε) (verdict : Verdict γ) :
    (verdict.map change).map change' = verdict.map (change' ∘ change) := by
  cases verdict <;> rfl

/-- Ways in a row may be grouped in any order. -/
theorem orElse_assoc (first second third : Verdict γ) :
    (first.orElse second).orElse third = first.orElse (second.orElse third) := by
  cases first <;> rfl

end Verdict

/-- The first verdict that is no refusal, if there is one. -/
def firstVerdict {γ : Type} (verdicts : List (Verdict γ)) : Verdict γ :=
  verdicts.foldr Verdict.orElse .refuses

/-- The first verdict counts unless it is a refusal. -/
@[simp] theorem firstVerdict_cons {γ : Type} (verdict : Verdict γ) (verdicts : List (Verdict γ)) :
    firstVerdict (verdict :: verdicts) = verdict.orElse (firstVerdict verdicts) := rfl

/-- What is given first may be changed before or after it is chosen. -/
theorem firstVerdict_map {γ δ : Type} (change : γ → δ) (verdicts : List (Verdict γ)) :
    (firstVerdict verdicts).map change = firstVerdict (verdicts.map (Verdict.map change)) := by
  induction verdicts with
  | nil => rfl
  | cons verdict verdicts ih => rw [firstVerdict_cons, Verdict.map_orElse, ih, List.map_cons, firstVerdict_cons]

section Orders

variable {κ γ : Type} {judge : κ → Verdict γ}

/-- The first of some verdicts and others is the first of the others only if all of the former are
refusals. -/
theorem firstVerdict_append (verdicts others : List (Verdict γ)) :
    firstVerdict (verdicts ++ others) = (firstVerdict verdicts).orElse (firstVerdict others) := by
  induction verdicts with
  | nil => rfl
  | cons verdict verdicts ih =>
    calc firstVerdict (verdict :: verdicts ++ others)
      _ = verdict.orElse (firstVerdict (verdicts ++ others)) := rfl
      _ = verdict.orElse ((firstVerdict verdicts).orElse (firstVerdict others)) := by rw [ih]
      _ = (firstVerdict (verdict :: verdicts)).orElse (firstVerdict others) :=
        (Verdict.orElse_assoc _ _ _).symm

/-- Branches that refuse do not count. -/
theorem firstVerdict_map_filter (judge : κ → Verdict γ) (order : List κ) :
    firstVerdict ((order.filter fun branch => !(judge branch).isRefusal).map judge) =
      firstVerdict (order.map judge) := by
  induction order with
  | nil => rfl
  | cons branch order ih =>
    rw [List.map_cons, firstVerdict_cons, List.filter_cons]
    cases verdict : judge branch with
    | gives | ends =>
      rw [if_pos (by rfl), List.map_cons, firstVerdict_cons, verdict]
      rfl
    | refuses => exact ih

/-- The first verdict is that of a branch that does not refuse, if there is one. -/
theorem exists_firstVerdict_eq {order : List κ} {branch : κ} (mem : branch ∈ order)
    (counts : (judge branch).isRefusal = false) :
    ∃ first ∈ order, (judge first).isRefusal = false ∧ firstVerdict (order.map judge) = judge first := by
  induction order with
  | nil => cases mem
  | cons head order ih =>
    rw [List.map_cons, firstVerdict_cons]
    cases verdict : judge head with
    | gives | ends => exact ⟨head, List.mem_cons_self, by rw [verdict]; rfl, verdict.symm⟩
    | refuses =>
      rcases List.mem_cons.1 mem with rfl | later
      · rw [verdict] at counts
        cases counts
      · obtain ⟨first, mem, counts, same⟩ := ih later
        exact ⟨first, List.mem_cons_of_mem _ mem, counts, same⟩

/-- Two orders of some branches have the same first verdict if those branches that do not refuse come
in the same order in both. -/
theorem firstVerdict_map_eq (before : κ → κ → Prop) {order order' : List κ} (perm : order.Perm order')
    (antisymm : ∀ branch branch', before branch branch' → before branch' branch → branch = branch')
    (first : order.Pairwise fun branch branch' =>
      (judge branch).isRefusal = false → (judge branch').isRefusal = false → before branch branch')
    (second : order'.Pairwise fun branch branch' =>
      (judge branch).isRefusal = false → (judge branch').isRefusal = false → before branch branch') :
    firstVerdict (order.map judge) = firstVerdict (order'.map judge) := by
  have sorted : ∀ {order : List κ}, (order.Pairwise fun branch branch' =>
      (judge branch).isRefusal = false → (judge branch').isRefusal = false → before branch branch') →
      (order.filter fun branch => !(judge branch).isRefusal).Pairwise before := by
    intro order pairs
    rw [List.pairwise_filter]
    simpa using pairs
  have same : (order.filter fun branch => !(judge branch).isRefusal) =
      order'.filter fun branch => !(judge branch).isRefusal :=
    (perm.filter _).eq_of_pairwise (fun branch branch' _ _ => antisymm branch branch') (sorted first)
      (sorted second)
  rw [← firstVerdict_map_filter judge order, ← firstVerdict_map_filter judge order', same]

end Orders

namespace Reader

section Verdicts

variable {ι α β : Type}

/-- A reader refuses where its verdict is a refusal. -/
theorem refuses_iff_verdict {reader : Reader ι α} {input : ι} :
    reader.Refuses input ↔ (reader input).verdict.isRefusal := by
  simp only [Refuses]
  cases reader input with
  | ok value rest noted => simp [Outcome.verdict, Verdict.isRefusal]
  | fail failure rest noted =>
    cases nesting : failure.isFinal <;> simp [Outcome.verdict, nesting, Verdict.isRefusal]

/-- Where reading halts, nothing is given. -/
theorem not_gives_of_isHalt {reader : Reader ι α} {input rest : ι} {value : α}
    (halt : (reader input).verdict.IsHalt) : ¬ reader.Gives input value rest := by
  rintro ⟨noted, given⟩
  rw [given] at halt
  obtain ⟨count, -, ends⟩ := halt
  cases ends

/-- The verdict of reading in a row. -/
theorem verdict_bind (first : Reader ι α) (next : α → Reader ι β) (input : ι) :
    ((first >>= next) input).verdict =
      (first input).verdict.bind fun found => (next found.1 found.2).verdict := by
  show (Reader.bind first next input).verdict = _
  unfold Reader.bind
  cases first input with
  | ok value rest noted => exact Outcome.verdict_after _ _
  | fail failure rest noted => cases nesting : failure.isFinal <;> simp [Outcome.verdict_fail, nesting]

/-- The verdict of a reader whose value is changed. -/
theorem verdict_map (change : α → β) (reader : Reader ι α) (input : ι) :
    ((change <$> reader) input).verdict =
      (reader input).verdict.map fun found => (change found.1, found.2) :=
  verdict_bind reader (fun value => Reader.pure (change value)) input

/-- The verdict of trying. -/
theorem verdict_optional (rule : Reader ι α) (input : ι) :
    (optional rule input).verdict =
      ((rule input).verdict.bind fun found => .gives (some found.1, found.2)).orElse
        (.gives (none, input)) := by
  unfold optional
  cases rule input with
  | ok value rest noted => rfl
  | fail failure rest noted =>
    cases nesting : failure.isFinal <;> simp [Outcome.verdict, nesting]

variable [Input ι]

/-- The verdict of a choice after some branches have failed does not depend on their failures. -/
theorem verdict_choose (production : String) (input : ι) (failures : List Failure)
    (rules : List (Reader ι α)) :
    (choose production input failures rules).verdict =
      firstVerdict (rules.map fun rule => (rule input).verdict) := by
  induction rules generalizing failures with
  | nil => rfl
  | cons rule rules ih =>
    rw [List.map_cons, firstVerdict_cons, choose]
    cases rule input with
    | ok value rest noted => rfl
    | fail failure rest noted =>
      cases nesting : failure.isFinal <;> simp [Outcome.verdict_fail, nesting, ih]

/-- The verdict of a choice is the first one that is no refusal. -/
theorem verdict_alternatives (production : String) (rules : List (Reader ι α)) (input : ι) :
    (alternatives production rules input).verdict =
      firstVerdict (rules.map fun rule => (rule input).verdict) :=
  verdict_choose production input [] rules

/-- The verdict of one more round. -/
theorem verdict_manyWithin_succ (round : Reader ι (Option α)) (rounds : Nat) (input : ι) :
    (manyWithin round (rounds + 1) input).verdict =
      (round input).verdict.bind fun (found, rest) =>
        match found with
        | none => .gives ([], rest)
        | some value =>
          if Input.left rest < Input.left input then
            (manyWithin round rounds rest).verdict.bind fun others => .gives (value :: others.1, others.2)
          else .gives ([value], rest) := by
  simp only [manyWithin]
  cases round input with
  | fail failure rest noted => cases nesting : failure.isFinal <;> simp [Outcome.verdict_fail, nesting]
  | ok found rest noted =>
    cases found with
    | none => rfl
    | some value =>
      show (if Input.left rest < Input.left input then _ else _ : Outcome ι (List α)).verdict =
        if Input.left rest < Input.left input then _ else _
      split
      · cases manyWithin round rounds rest with
        | ok => rfl
        | fail failure rest noted =>
          cases nesting : failure.isFinal <;> simp [Outcome.verdict_fail, nesting]
      · rfl

end Verdicts

section Agreement

variable {ι α : Type} {loose : Prop}

/-- The first of two readers has the same verdict as the other on every input, or it halts for digits, which
it may only if that is granted. -/
def Agrees (loose : Prop) (reader reader' : Reader ι α) : Prop :=
  ∀ input, (reader input).verdict = (reader' input).verdict ∨ loose ∧ (reader input).verdict.IsHalt

/-- Readers that agree if nothing is granted have the same verdicts. -/
theorem Agrees.verdict_eq {reader reader' : Reader ι α} (agrees : Agrees False reader reader') (input : ι) :
    (reader input).verdict = (reader' input).verdict :=
  (agrees input).resolve_right fun granted => granted.1

/-- A reader that agrees with one that agrees with another agrees with that. -/
theorem Agrees.trans {reader reader' reader'' : Reader ι α} (first : Agrees loose reader reader')
    (second : Agrees loose reader' reader'') : Agrees loose reader reader'' := by
  intro input
  rcases first input with same | halts
  · rw [same]
    exact second input
  · exact .inr halts

variable [Readable ι]

/-- Verdicts depend on the verdicts of the parts alone, and a halt of a part is one of the whole. -/
theorem congruence_agrees (loose : Prop) :
    Congruence fun α (reader reader' : Reader ι α) => Agrees loose reader reader' where
  refl _ _ := .inl rfl
  bind {_ _ reader reader' next next'} first second input := by
    simp only [verdict_bind]
    rcases first input with same | ⟨granted, halt⟩
    · rw [same]
      cases (reader' input).verdict with
      | gives found => exact second found.1 found.2
      | refuses | ends => exact .inl rfl
    · exact .inr ⟨granted, halt.bind _⟩
  optional {_ rule rule'} rules input := by
    simp only [verdict_optional]
    rcases rules input with same | ⟨granted, halt⟩
    · exact .inl (by rw [same])
    · exact .inr ⟨granted, (halt.bind _).orElse _⟩
  alternatives rules input := by
    simp only [verdict_alternatives]
    induction rules with
    | nil => exact .inl rfl
    | cons first _ ih =>
      rw [List.map_cons, List.map_cons, firstVerdict_cons, firstVerdict_cons]
      rcases first input with same | ⟨granted, halt⟩
      · rw [same]
        generalize (Outcome.verdict _) = verdict
        cases verdict with
        | gives | ends => exact .inl rfl
        | refuses => exact ih
      · exact .inr ⟨granted, halt.orElse _⟩
  many {_ round round'} rounds input := by
    have within : ∀ count, Agrees loose (manyWithin round count) (manyWithin round' count) := by
      intro count
      induction count with
      | zero => exact fun _ => .inl rfl
      | succ count ih =>
        intro input
        simp only [verdict_manyWithin_succ]
        rcases rounds input with same | ⟨granted, halt⟩
        · rw [same]
          cases (round' input).verdict with
          | refuses | ends => exact .inl rfl
          | gives found =>
            obtain ⟨value, rest⟩ := found
            cases value with
            | none => exact .inl rfl
            | some value =>
              simp only [Verdict.bind]
              split
              · rcases ih rest with same | ⟨granted, halt⟩
                · exact .inl (by rw [same])
                · exact .inr ⟨granted, halt.bind _⟩
              · exact .inl rfl
        · exact .inr ⟨granted, halt.bind _⟩
    exact within _ input

/-- What may stand inside containers may be exchanged for a reader that agrees with it. -/
theorem exchanges_of_agrees {inner inner' : Reader ι α} (agrees : Agrees loose inner inner') :
    Exchanges (fun α (reader reader' : Reader ι α) => Agrees loose reader reader') (some inner)
      (some inner') :=
  fun _ _ _ each => each inner inner' agrees

end Agreement

end Reader
end ThriftIdl
