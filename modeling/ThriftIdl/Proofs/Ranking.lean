import Mathlib.Order.Defs.Unbundled
import ThriftIdl.Failure

/-!
# The ranking of failures

Failures are ranked by their places, and at one place a specific kind comes before the others. So one
number ranks a diagnosis (`Diagnosis.better_iff_rank_lt`), and being better is a strict weak order. The
best failure of a tree is the first of the highest rank in preorder (`Trace.firstBest_furthest`). Noting
one failure after the other leads to the same best diagnosis as noting the better one of them
(`Diagnosis.kept_kept`).
-/
namespace ThriftIdl

section Order

variable {candidate current : Diagnosis}

/-- The rank of a diagnosis: its place, and at one place whether its kind is specific. -/
def Diagnosis.rank (diagnosis : Diagnosis) : Int :=
  2 * diagnosis.offset + if diagnosis.kind.isSpecific then 1 else 0

/-- A diagnosis is better if its rank is higher. -/
theorem Diagnosis.better_iff_rank_lt :
    candidate.better current ↔ current.rank < candidate.rank := by
  rw [better, rank, rank]
  by_cases same : candidate.offset = current.offset
  · rw [if_pos same, same]
    cases candidate.kind.isSpecific <;> cases current.kind.isSpecific <;>
      simp only [Bool.not_true, Bool.not_false, Bool.and_self, Bool.and_false, Bool.and_true,
        Bool.false_eq_true, ↓reduceIte, true_iff, false_iff] <;> omega
  · rw [if_neg same, decide_eq_true_eq]
    split <;> split <;> omega

/-- Being better is a strict weak order. -/
instance : IsStrictWeakOrder Diagnosis (fun candidate current => candidate.better current) where
  irrefl diagnosis better := by
    have higher := Diagnosis.better_iff_rank_lt.1 better
    omega
  trans first second third better better' := by
    have higher := Diagnosis.better_iff_rank_lt.1 better
    have higher' := Diagnosis.better_iff_rank_lt.1 better'
    exact Diagnosis.better_iff_rank_lt.2 (by omega)
  incomp_trans first second third := by
    simp only [Diagnosis.better_iff_rank_lt]
    omega

end Order

section Trees

namespace Trace

variable {φ : Type} {rank : φ → Int} {better : φ → φ → Bool} {first second : φ}

/-- A failure of a list is the first of the highest rank. -/
def FirstBest (rank : φ → Int) (failures : List φ) (best : φ) : Prop :=
  ∃ before after, failures = before ++ best :: after ∧ (∀ other ∈ before, rank other < rank best) ∧
    ∀ other ∈ after, rank other ≤ rank best

/-- The first of the highest rank of two lists is the better one of theirs, and the earlier of equals. -/
theorem FirstBest.append {failures others : List φ}
    (ranks : ∀ candidate current, better candidate current ↔ rank current < rank candidate)
    (best : FirstBest rank failures first) (best' : FirstBest rank others second) :
    FirstBest rank (failures ++ others) (if better second first then second else first) := by
  obtain ⟨before, after, rfl, lower, most⟩ := best
  obtain ⟨before', after', rfl, lower', most'⟩ := best'
  by_cases higher : better second first
  · have rise := (ranks second first).1 higher
    rw [if_pos higher]
    refine ⟨before ++ first :: after ++ before', after', by simp, ?_, most'⟩
    intro other mem
    simp only [List.mem_append, List.mem_cons] at mem
    rcases mem with (mem | rfl | mem) | mem
    · exact Int.lt_trans (lower other mem) rise
    · exact rise
    · exact Int.lt_of_le_of_lt (most other mem) rise
    · exact lower' other mem
  · have fall : rank second ≤ rank first := Int.not_lt.1 fun rise => higher ((ranks second first).2 rise)
    rw [if_neg higher]
    refine ⟨before, after ++ (before' ++ second :: after'), by simp, lower, ?_⟩
    intro other mem
    simp only [List.mem_append, List.mem_cons] at mem
    rcases mem with mem | mem | rfl | mem
    · exact most other mem
    · exact Int.le_trans (Int.le_of_lt (lower' other mem)) fall
    · exact fall
    · exact Int.le_trans (most' other mem) fall

mutual
/-- The best failure of a tree is the first of the highest rank in preorder. -/
theorem firstBest_furthest
    (ranks : ∀ candidate current, better candidate current ↔ rank current < rank candidate) :
    ∀ trace : Trace φ, FirstBest rank trace.preorder (trace.furthest better)
  | node head causes => by
    have alone : FirstBest rank [head] head := ⟨[], [], rfl, by simp, by simp⟩
    exact firstBest_furthestAmong ranks causes alone

/-- The best of the failures so far and those of a list of trees is the first of the highest rank. -/
theorem firstBest_furthestAmong
    (ranks : ∀ candidate current, better candidate current ↔ rank current < rank candidate) :
    ∀ (causes : List (Trace φ)) {failures : List φ} {best : φ}, FirstBest rank failures best →
      FirstBest rank (failures ++ preorderOfAll causes) (furthestAmong better best causes)
  | [], failures, best, so => by
    rw [preorderOfAll, List.append_nil]
    exact so
  | cause :: causes, failures, best, so => by
    have both := so.append ranks (firstBest_furthest ranks cause)
    rw [preorderOfAll, ← List.append_assoc]
    exact firstBest_furthestAmong ranks causes both
end

/-- No failure is better than the first of the highest rank. -/
theorem FirstBest.not_better {failures : List φ}
    (ranks : ∀ candidate current, better candidate current ↔ rank current < rank candidate)
    (best : FirstBest rank failures first) : ∀ other ∈ failures, better other first = false := by
  obtain ⟨before, after, rfl, lower, most⟩ := best
  intro other mem
  have fall : rank other ≤ rank first := by
    rcases List.mem_append.1 mem with mem | mem
    · exact Int.le_of_lt (lower other mem)
    · rcases List.mem_cons.1 mem with rfl | mem
      · exact Int.le_refl _
      · exact most other mem
  exact Bool.eq_false_iff.2 fun rise => Int.not_lt.2 fall ((ranks other first).1 rise)

end Trace

end Trees

section Notes

/-- Of two diagnoses in a row the better one is kept, and the first of equally good ones. -/
theorem Diagnosis.kept_kept (earlier : Option Diagnosis) (first second : Diagnosis) :
    kept (kept earlier first) second =
      kept earlier (if second.better first then second else first) := by
  cases earlier with
  | none =>
    by_cases higher : second.better first <;> simp [kept, betterThan?, higher]
  | some diagnosis =>
    simp only [kept, betterThan?, better_iff_rank_lt]
    by_cases rise : diagnosis.rank < first.rank
    · by_cases higher : first.rank < second.rank
      · have both : diagnosis.rank < second.rank := by omega
        simp [better_iff_rank_lt, rise, higher, both]
      · simp [better_iff_rank_lt, rise, higher]
    · by_cases higher : first.rank < second.rank
      · simp [better_iff_rank_lt, rise, higher]
      · have neither : ¬ diagnosis.rank < second.rank := by omega
        simp [better_iff_rank_lt, rise, higher, neither]

/-- Faults of one text are ranked as their diagnoses are. -/
theorem Diagnosis.better_ofFault (source : List Char) (limit start : Int) (candidate current : Fault) :
    (ofFault source limit start candidate).better (ofFault source limit start current) =
      candidate.better current := by
  have places : Text.ending source start - (candidate.left : Int) = Text.ending source start - current.left ↔
      candidate.left = current.left := by omega
  have further : Text.ending source start - (current.left : Int) < Text.ending source start - candidate.left ↔
      candidate.left < current.left := by omega
  simp only [better, ofFault, Fault.better, places, further]

end Notes

end ThriftIdl
