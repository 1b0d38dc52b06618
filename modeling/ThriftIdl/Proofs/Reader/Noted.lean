import ThriftIdl.Reader.Basic
import Mathlib.Data.List.Basic

/-!
# What is noted of failures

Of a failure that is swallowed a fault is noted that got as far as any fault in it. A rule fails under a
noted fault if that got as far as the faults of its failure and those that it noted itself
(`Reader.FailsUnder`). There is a law for each way in which a failure may be swallowed or passed on:
trying (`failsUnder_of_optional`), choosing (`FailsUnder.of_alternatives`), reading in a row
(`FailsUnder.of_bind`) and repeating (`failsUnder_of_many`).
-/
namespace ThriftIdl

/-! ### Trees of failures -/

namespace Trace

variable {φ ψ : Type}

mutual
/-- The best failure of a tree is one of its failures. -/
theorem furthest_mem_preorder (better : φ → φ → Bool) :
    ∀ trace : Trace φ, trace.furthest better ∈ trace.preorder
  | node head causes => furthestAmong_mem better head causes

/-- The best of a failure and the failures of a list of trees is one of them. -/
theorem furthestAmong_mem (better : φ → φ → Bool) (best : φ) :
    ∀ causes : List (Trace φ), furthestAmong better best causes ∈ best :: preorderOfAll causes
  | [] => List.mem_singleton_self best
  | cause :: causes => by
    have candidate := furthest_mem_preorder better cause
    have others := furthestAmong_mem better
      (if better (cause.furthest better) best then cause.furthest better else best) causes
    rw [furthestAmong, preorderOfAll]
    simp only [List.mem_cons, List.mem_append] at others ⊢
    obtain same | mem := others
    · rw [same]
      split
      · exact .inr (.inl candidate)
      · exact .inl rfl
    · exact .inr (.inr mem)
end

mutual
/-- The failures of a changed tree are the changed failures. -/
theorem preorder_map (change : φ → ψ) :
    ∀ trace : Trace φ, (trace.map change).preorder = trace.preorder.map change
  | node head causes => congrArg (change head :: ·) (preorderOfAll_mapAll change causes)

/-- The failures of changed trees are the changed failures. -/
theorem preorderOfAll_mapAll (change : φ → ψ) :
    ∀ causes : List (Trace φ),
      preorderOfAll (mapAll change causes) = (preorderOfAll causes).map change
  | [] => rfl
  | cause :: causes => by
    rw [mapAll, preorderOfAll, preorder_map, preorderOfAll_mapAll, preorderOfAll, List.map_append]
end

/-- The root of a changed tree is the changed root. -/
theorem head_map (change : φ → ψ) (trace : Trace φ) : (trace.map change).head = change trace.head := by
  cases trace
  rfl

/-- The failures of a list of trees are those of each tree. -/
theorem mem_preorderOfAll {failure : φ} {causes : List (Trace φ)} :
    failure ∈ preorderOfAll causes ↔ ∃ cause ∈ causes, failure ∈ cause.preorder := by
  induction causes with
  | nil => simp [preorderOfAll]
  | cons cause causes ih => simp [preorderOfAll, ih]

end Trace

/-! ### How far faults got -/

namespace Fault

/-- A fault is better only if it got as far. -/
theorem left_ite_better (earlier later : Fault) :
    (if later.better earlier then later else earlier).left = min earlier.left later.left := by
  unfold better
  grind

/-- The fault that was noted got as far as a place. -/
def Reaches (noted : Option Fault) (left : Nat) : Prop := ∃ fault, noted = some fault ∧ fault.left ≤ left

/-- The better of two faults got as far as each. -/
theorem reaches_best_iff {earlier later : Option Fault} {left : Nat} :
    Reaches (best earlier later) left ↔ Reaches earlier left ∨ Reaches later left := by
  cases earlier with
  | none => simp [best, Reaches]
  | some earlier =>
    cases later with
    | none => simp [best, Reaches]
    | some later =>
      simp only [best, Reaches, Option.some.injEq, exists_eq_left', left_ite_better]
      omega

end Fault

namespace Failure

mutual
/-- The best fault of a failure got as far as any fault in it. -/
theorem furthest_left_le :
    ∀ (failure : Failure), ∀ fault ∈ failure.preorder, failure.furthest.left ≤ fault.left
  | .node head causes, fault, mem => furthestAmong_left_le causes head fault mem

/-- The best of a fault and the faults of failures got as far as any of them. -/
theorem furthestAmong_left_le :
    ∀ (causes : List Failure) (best : Fault), ∀ fault ∈ best :: Trace.preorderOfAll causes,
      (Trace.furthestAmong Fault.better best causes).left ≤ fault.left
  | [], best, fault, mem => by
    obtain rfl := List.mem_singleton.1 mem
    exact Nat.le_refl _
  | cause :: causes, best, fault, mem => by
    have first := furthest_left_le cause
    have others := furthestAmong_left_le causes
      (if (cause.furthest).better best then cause.furthest else best)
    have both := others _ List.mem_cons_self
    rw [Fault.left_ite_better] at both
    rw [Trace.furthestAmong]
    simp only [Trace.preorderOfAll, List.mem_cons, List.mem_append] at mem
    obtain rfl | mem | mem := mem
    · exact Nat.le_trans both (Nat.min_le_left _ _)
    · exact Nat.le_trans both (Nat.le_trans (Nat.min_le_right _ _) (first fault mem))
    · exact others fault (List.mem_cons_of_mem _ mem)
end

end Failure

/-! ### Readers that fail -/

namespace Reader

open Fault (Reaches reaches_best_iff)

variable {ι α β : Type} {noted : Option Fault} {input rest : ι} {rule : Reader ι α}

/-- A rule fails on an input, not for nesting, and a fault that was noted got as far as the faults of
its failure and those that it noted itself. -/
def FailsUnder (noted : Option Fault) (rule : Reader ι α) (input : ι) : Prop :=
  ∃ failure rest own, rule input = .fail failure rest own ∧ failure.isFinal = false ∧
    (∀ fault ∈ failure.preorder, Reaches noted fault.left) ∧
    ∀ left, Reaches own left → Reaches noted left

/-- A fault that got further can be noted instead. -/
theorem FailsUnder.mono {noted' : Option Fault} (fails : rule.FailsUnder noted input)
    (less : ∀ left, Reaches noted left → Reaches noted' left) : rule.FailsUnder noted' input := by
  obtain ⟨failure, rest, own, tried, soft, faults, owns⟩ := fails
  exact ⟨failure, rest, own, tried, soft, fun fault mem => less _ (faults fault mem),
    fun left reaches => less left (owns left reaches)⟩

/-- Where trying finds nothing the rule fails, and its failure is noted. -/
theorem failsUnder_of_optional (tried : optional rule input = .ok none rest noted) :
    rest = input ∧ rule.FailsUnder noted input := by
  unfold optional at tried
  split at tried
  next => cases tried
  next failure place own failed =>
    split at tried
    next => cases tried
    next soft =>
      simp only [Outcome.ok.injEq, true_and] at tried
      obtain ⟨rfl, rfl⟩ := tried
      refine ⟨rfl, failure, place, own, failed, Bool.eq_false_iff.2 soft, fun fault mem => ?_, ?_⟩
      · exact reaches_best_iff.2 (.inr ⟨_, rfl, failure.furthest_left_le fault mem⟩)
      · exact fun left reaches => reaches_best_iff.2 (.inl reaches)

/-- Trying fails only for nesting. -/
theorem isFinal_of_optional {failure : Failure}
    (tried : optional rule input = .fail failure rest noted) : failure.isFinal = true := by
  unfold optional at tried
  split at tried
  next => cases tried
  next =>
    split at tried
    next nested =>
      obtain ⟨rfl, -, -⟩ := Outcome.fail.inj tried
      exact nested
    next => cases tried

/-- What fails before something else is read fails as it does by itself, if what comes after never
fails. -/
theorem FailsUnder.of_bind {next : α → Reader ι β} (fails : (rule >>= next).FailsUnder noted input)
    (never : ∀ value place failure rest own, next value place ≠ .fail failure rest own) :
    rule.FailsUnder noted input := by
  obtain ⟨failure, rest, own, tried, soft, faults, owns⟩ := fails
  change Reader.bind rule next input = _ at tried
  unfold Reader.bind at tried
  split at tried
  next value place noted opening =>
    cases closing : next value place with
    | ok => simp [closing, Outcome.after] at tried
    | fail failure rest own => exact absurd closing (never value place failure rest own)
  next failed =>
    obtain ⟨rfl, rfl, rfl⟩ := Outcome.fail.inj tried
    exact ⟨_, _, _, failed, soft, faults, owns⟩

/-- A rule whose value is changed fails as it does by itself. -/
theorem FailsUnder.of_map {change : α → β} (fails : (change <$> rule).FailsUnder noted input) :
    rule.FailsUnder noted input :=
  of_bind fails fun _ _ _ _ _ failed => by cases failed

/-- A rule that fails does so if its value is changed. -/
theorem FailsUnder.map (fails : rule.FailsUnder noted input) (change : α → β) :
    (change <$> rule).FailsUnder noted input := by
  obtain ⟨failure, rest, own, tried, soft, faults, owns⟩ := fails
  refine ⟨failure, rest, own, ?_, soft, faults, owns⟩
  change Reader.bind rule _ input = _
  rw [Reader.bind, tried]

/-- What fails after something else was read fails there. -/
theorem FailsUnder.of_bind_of_ok {next : α → Reader ι β} {value : α} {place : ι}
    {earlier : Option Fault} (opening : rule input = .ok value place earlier)
    (fails : (rule >>= next).FailsUnder noted input) : (next value).FailsUnder noted place := by
  obtain ⟨failure, rest, own, tried, soft, faults, owns⟩ := fails
  change Reader.bind rule next input = _ at tried
  simp only [Reader.bind, opening] at tried
  cases closing : next value place with
  | ok => simp [closing, Outcome.after] at tried
  | fail failure' rest' later =>
    simp only [closing, Outcome.after, Outcome.fail.injEq] at tried
    obtain ⟨rfl, rfl, rfl⟩ := tried
    exact ⟨failure', rest', later, closing, soft, faults,
      fun left reaches => owns left (reaches_best_iff.2 (.inr reaches))⟩

variable [Input ι]

/-- Where all branches of a choice fail, their failures are among its causes, after those of the
earlier branches. -/
theorem failures_of_choose {production : String} {failures : List Failure}
    {rules : List (Reader ι α)} {failure : Failure} {own : Option Fault}
    (tried : choose production input failures rules = .fail failure rest own)
    (soft : failure.isFinal = false) :
    (∀ earlier ∈ failures, ∀ fault ∈ earlier.preorder, fault ∈ failure.preorder) ∧
      ∀ rule ∈ rules, ∃ failure' rest' own', rule input = .fail failure' rest' own' ∧
        failure'.isFinal = false ∧ (∀ fault ∈ failure'.preorder, fault ∈ failure.preorder) ∧
        ∀ left, Reaches own' left → Reaches own left := by
  induction rules generalizing failures own with
  | nil =>
    simp only [choose, Outcome.fail.injEq] at tried
    obtain ⟨rfl, -, -⟩ := tried
    refine ⟨fun earlier mem fault inside => ?_, List.forall_mem_nil _⟩
    exact List.mem_cons_of_mem _ (Trace.mem_preorderOfAll.2 ⟨earlier, mem, inside⟩)
  | cons rule rules ih =>
    unfold choose at tried
    split at tried
    next => cases tried
    next failure' rest' own' failed =>
      split at tried
      next nested =>
        obtain ⟨rfl, -, -⟩ := Outcome.fail.inj tried
        rw [nested] at soft
        cases soft
      next soft' =>
        cases others : choose production input (failures ++ [failure']) rules with
        | ok => simp [others, Outcome.after] at tried
        | fail last place later =>
          simp only [others, Outcome.after, Outcome.fail.injEq] at tried
          obtain ⟨rfl, rfl, rfl⟩ := tried
          obtain ⟨causes, each⟩ := ih others
          refine ⟨fun earlier mem => causes earlier (List.mem_append_left _ mem),
            List.forall_mem_cons.2 ⟨?_, fun rule mem => ?_⟩⟩
          · exact ⟨failure', rest', own', failed, Bool.eq_false_iff.2 soft',
              causes failure' (List.mem_append_right _ (List.mem_singleton_self _)),
              fun left reaches => reaches_best_iff.2 (.inl reaches)⟩
          · obtain ⟨failure, rest, own, failed, soft, inside, owns⟩ := each rule mem
            exact ⟨failure, rest, own, failed, soft, inside,
              fun left reaches => reaches_best_iff.2 (.inr (owns left reaches))⟩

/-- Where a choice fails each of its branches does. -/
theorem FailsUnder.of_alternatives {production : String} {rules : List (Reader ι α)}
    (fails : (alternatives production rules).FailsUnder noted input) :
    ∀ rule ∈ rules, rule.FailsUnder noted input := by
  obtain ⟨failure, rest, own, tried, soft, faults, owns⟩ := fails
  intro rule mem
  obtain ⟨failure', rest', own', failed, soft', inside, owns'⟩ :=
    (failures_of_choose tried soft).2 rule mem
  exact ⟨failure', rest', own', failed, soft', fun fault mem => faults fault (inside fault mem),
    fun left reaches => owns left (owns' left reaches)⟩

/-- Where repeating stops the rule fails, if every round that reads something leaves less. -/
theorem failsUnder_of_manyWithin
    (shrinks : ∀ {input value rest own}, optional rule input = .ok (some value) rest own →
      Input.left rest < Input.left input)
    {rounds : Nat} {values : List α} (enough : Input.left input < rounds)
    (done : manyWithin (optional rule) rounds input = .ok values rest noted) :
    rule.FailsUnder noted rest := by
  induction rounds generalizing input values noted with
  | zero => omega
  | succ rounds ih =>
    unfold manyWithin at done
    split at done
    next => cases done
    next place own tried =>
      obtain ⟨rfl, fails⟩ := failsUnder_of_optional tried
      simp only [Outcome.ok.injEq] at done
      obtain ⟨-, rfl, rfl⟩ := done
      exact fails
    next value place own tried =>
      have less := shrinks tried
      rw [if_pos less] at done
      cases others : manyWithin (optional rule) rounds place with
      | fail => simp [others] at done
      | ok more last later =>
        simp only [others, Outcome.ok.injEq] at done
        obtain ⟨-, rfl, rfl⟩ := done
        exact (ih (by omega) others).mono fun left reaches => reaches_best_iff.2 (.inr reaches)

/-- Where repeating stops the rule fails, if every round that reads something leaves less. -/
theorem failsUnder_of_many
    (shrinks : ∀ {input value rest own}, optional rule input = .ok (some value) rest own →
      Input.left rest < Input.left input)
    {values : List α} (done : many (optional rule) input = .ok values rest noted) :
    rule.FailsUnder noted rest :=
  failsUnder_of_manyWithin shrinks (Nat.lt_succ_self _) done

/-- Repeating what is tried fails only for nesting. -/
theorem isFinal_of_many {failure : Failure}
    (done : many (optional rule) input = .fail failure rest noted) : failure.isFinal = true := by
  unfold many at done
  generalize Input.left input + 1 = rounds at done
  induction rounds generalizing input noted with
  | zero => cases done
  | succ rounds ih =>
    unfold manyWithin at done
    split at done
    next tried =>
      obtain ⟨rfl, -, -⟩ := Outcome.fail.inj done
      exact isFinal_of_optional tried
    next => cases done
    next value place own tried =>
      split at done
      next =>
        cases others : manyWithin (optional rule) rounds place with
        | ok => simp [others] at done
        | fail last rest' later =>
          simp only [others, Outcome.fail.injEq] at done
          obtain ⟨rfl, rfl, -⟩ := done
          exact ih others
      next => cases done

end Reader
end ThriftIdl
