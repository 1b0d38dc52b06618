import ThriftIdl.Proofs.Reader.Results
import ThriftIdl.Reader.Production

/-!
# Productions read by themselves

A production that is read by itself gives what its reader gives (`readProduction_eq_ok_iff`). What
its reader refuses is diagnosed, and not for nesting (`exists_error_of_refuses`).
-/
namespace ThriftIdl

variable {production : Production} {limit : Int} {text rest : List Char}

/-- A production gives what its reader gives, at positions in the text. -/
theorem readProduction_eq_ok_iff {reading : Reading Position} :
    readProduction production limit text = .ok (rest, reading) ↔
      ∃ found, (production.reader limit.toNat).Gives text found rest ∧
        reading = found.map (positionIn text 0) := by
  simp only [readProduction, Reader.Gives]
  cases production.reader limit.toNat text with
  | fail failure rest noted => simp
  | ok found rest noted =>
    simp only [Except.ok.injEq, Prod.mk.injEq, Outcome.ok.injEq]
    constructor
    · rintro ⟨rfl, rfl⟩
      exact ⟨found, ⟨noted, rfl, rfl, rfl⟩, rfl⟩
    · rintro ⟨_, ⟨_, rfl, rfl, -⟩, rfl⟩
      exact ⟨rfl, rfl⟩

/-- A constant is read by itself as it is read elsewhere. -/
theorem readProduction_constValue_iff {value : ConstValue} :
    readProduction .constValue limit text = .ok (rest, .constant value) ↔
      (Reader.constValue limit.toNat).Gives text value rest := by
  simp only [readProduction_eq_ok_iff, Production.reader, Reader.gives_map]
  constructor
  · rintro ⟨_, ⟨found, given, rfl⟩, same⟩
    cases same
    exact given
  · intro given
    exact ⟨_, ⟨value, given, rfl⟩, rfl⟩

/-- What the reader of a production refuses is diagnosed, and not for nesting. -/
theorem exists_error_of_refuses (refused : (production.reader limit.toNat).Refuses text) :
    ∃ diagnosis, readProduction production limit text = .error (.diagnosis diagnosis) ∧
      diagnosis.kind ≠ .nesting := by
  obtain ⟨failure, rest, noted, failed, soft⟩ := refused
  have kind : failure.head.reason.kind ≠ .nesting := of_decide_eq_false soft
  refine ⟨.ofFault text limit 0 failure.head, ?_, kind⟩
  simp only [readProduction, failed, Raised.ofFault_of_kind kind]

end ThriftIdl
