import Mathlib.Data.List.Forall2
import ThriftIdl.Machine.Basic
import ThriftIdl.Proofs.Ranking

/-!
# Machines follow readers

A machine follows a reader if it ends as the reader does: with the same value or the same failure and
with the same left to read, with its counter as it was at the start, and with the best of what the
reader notes (`Machine.Follows`).
-/
namespace ThriftIdl

/-- The best diagnosis after a fault was noted, if one was. -/
def Setting.noting (setting : Setting) (furthest : Option Diagnosis) (noted : Option Fault) :
    Option Diagnosis :=
  noted.elim furthest fun fault =>
    Diagnosis.kept furthest (.ofFault setting.source setting.limit setting.start fault)

/-- The best of two faults is noted as one after the other. -/
theorem Setting.noting_best (setting : Setting) (furthest : Option Diagnosis)
    (first second : Option Fault) :
    setting.noting furthest (Fault.best first second) =
      setting.noting (setting.noting furthest first) second := by
  cases first with
  | none => rfl
  | some first =>
    cases second with
    | none => rfl
    | some second =>
      have kept := Diagnosis.kept_kept furthest
        (.ofFault setting.source setting.limit setting.start first)
        (.ofFault setting.source setting.limit setting.start second)
      rw [Diagnosis.better_ofFault] at kept
      simp only [noting, Fault.best, Option.elim_some]
      rw [kept]
      split <;> rfl

section Outcomes

variable {ι α β : Type} {setting : Setting} {depth : Int} {furthest : Option Diagnosis}

/-- How a machine ends that was started with a count and a best diagnosis and follows a reader with an
outcome. -/
def Outcome.replayed (setting : Setting) (depth : Int) (furthest : Option Diagnosis) :
    Outcome ι α → Except Failure α × Running ι
  | .ok value rest noted => (.ok value, ⟨rest, depth, setting.noting furthest noted⟩)
  | .fail failure rest noted => (.error failure, ⟨rest, depth, setting.noting furthest noted⟩)

/-- After an earlier fault an outcome is replayed with the best diagnosis that this fault leads to. -/
theorem Outcome.replayed_after (earlier : Option Fault) (outcome : Outcome ι α) :
    (outcome.after earlier).replayed setting depth furthest =
      outcome.replayed setting depth (setting.noting furthest earlier) := by
  cases outcome <;> simp only [after, replayed, Setting.noting_best]

end Outcomes

namespace Machine

variable {ι α β : Type} {setting : Setting} {depth : Int}

/-- Run a machine. -/
def perform (machine : Machine ι α) (setting : Setting) (running : Running ι) :
    Except Failure α × Running ι :=
  machine setting running

section Runs

variable (running : Running ι)

/-- After a failure nothing more is done. -/
theorem perform_bind (machine : Machine ι α) (next : α → Machine ι β) :
    (machine >>= next).perform setting running =
      match machine.perform setting running with
      | (.ok value, reached) => (next value).perform setting reached
      | (.error failure, reached) => (.error failure, reached) := by
  unfold perform
  simp only [bind, ReaderT.bind, ExceptT.bind, ExceptT.mk, StateT.bind, ExceptT.bindCont]
  generalize machine setting running = result
  obtain ⟨_ | _, _⟩ := result <;> rfl

/-- What is looked at before does not change the state. -/
theorem perform_get_bind (next : Running ι → Machine ι α) :
    (get >>= next).perform setting running = (next running).perform setting running := rfl

/-- The place is told without reading. -/
theorem perform_here_bind [Input ι] (next : Nat → Machine ι α) :
    (here >>= next).perform setting running =
      (next (Input.left running.input)).perform setting running := rfl

/-- A failure that is observed leaves the state as it is. -/
theorem perform_observing_bind (machine : Machine ι α) (next : Except Failure α → Machine ι β) :
    (observing machine >>= next).perform setting running =
      match machine.perform setting running with
      | (result, reached) => (next result).perform setting reached := by
  have observed : (observing machine).perform setting running =
      match machine.perform setting running with
      | (result, reached) => (.ok result, reached) := by
    unfold perform
    simp only [observing, tryCatch, tryCatchThe, MonadExceptOf.tryCatch, ExceptT.tryCatch,
      bind, ReaderT.bind, ExceptT.bind, ExceptT.mk, StateT.bind, ExceptT.bindCont]
    generalize machine setting running = result
    obtain ⟨_ | _, _⟩ := result <;> rfl
  rw [perform_bind, observed]

/-- In the end something is done, whether a machine succeeds or fails. -/
theorem perform_tryFinally (machine : Machine ι α) (finish : Machine ι Unit) :
    (tryFinally machine finish).perform setting running =
      match machine.perform setting running with
      | (result, reached) =>
        match finish.perform setting reached with
        | (.ok _, ended) => (result, ended)
        | (.error failure, ended) => (.error failure, ended) := by
  unfold perform
  simp only [tryFinally, MonadFinally.tryFinally', ExceptT.mk, bind, StateT.bind, Functor.map,
    ExceptT.map]
  generalize machine setting running = result
  obtain ⟨_ | _, reached⟩ := result
  all_goals
    dsimp only
    generalize finish setting reached = last
    obtain ⟨_ | _, _⟩ := last <;> rfl

/-- What is left is changed. -/
theorem perform_goTo (input : ι) :
    (goTo input).perform setting running = (.ok (), { running with input := input }) := rfl

/-- A fault is noted, if there is one. -/
theorem perform_forM_note (noted : Option Fault) :
    (noted.forM note : Machine ι PUnit).perform setting running =
      (.ok (), { running with furthest := setting.noting running.furthest noted }) := by
  cases noted <;> rfl

/-- Noting the failures that got beyond the start of a choice is noting the best of them. -/
theorem perform_noteBeyond (left : Nat) (failures : List Failure) :
    (noteBeyond left failures).perform setting running =
      (.ok (), { running with
        furthest := setting.noting running.furthest (Reader.noteBeyond left failures) }) := by
  have all : ∀ noted, (noteBeyond left failures).perform setting
      { running with furthest := setting.noting running.furthest noted } =
      (.ok (), { running with
        furthest := setting.noting running.furthest (failures.foldl (fun noted failure =>
          if failure.furthest.left < left then Fault.best noted (some failure.furthest)
          else noted) noted) }) := by
    induction failures with
    | nil => exact fun _ => rfl
    | cons failure failures ih =>
      intro noted
      rw [List.foldl_cons, ← ih]
      show ((if failure.furthest.left < left then note failure.furthest else pure ()) >>= fun _ =>
        noteBeyond left failures : Machine ι PUnit).perform _ _ = _
      rw [perform_bind]
      by_cases beyond : failure.furthest.left < left
      · rw [if_pos beyond, if_pos beyond, Setting.noting_best]
        rfl
      · rw [if_neg beyond, if_neg beyond]
        rfl
  exact all none

end Runs

/-- A machine that is started with a count follows a reader. -/
def Follows (ι : Type) {α : Type} (setting : Setting) (depth : Int) (machine : Machine ι α)
    (reader : Reader ι α) : Prop :=
  ∀ input furthest, machine.perform setting ⟨input, depth, furthest⟩ =
    (reader input).replayed setting depth furthest

/-- A value is given without reading. -/
theorem follows_pure (value : α) :
    Follows ι setting depth (pure value) (Reader.pure value) := fun _ _ => rfl

/-- The place is told without reading. -/
theorem follows_here [Input ι] : Follows ι setting depth here Reader.here := fun _ _ => rfl

/-- A token is read as its reader reads it. -/
theorem follows_token (rule : Reader ι α) : Follows ι setting depth (token rule) rule := by
  intro input furthest
  rw [token, perform_get_bind]
  cases rule input with
  | ok | fail =>
    simp only [Outcome.replayed, perform_bind, perform_forM_note, perform_goTo]
    rfl

namespace Follows

variable {machine : Machine ι α} {reader : Reader ι α}

/-- Machines in a row follow readers in a row. -/
theorem bind {next : α → Machine ι β} {next' : α → Reader ι β}
    (first : Follows ι setting depth machine reader)
    (second : ∀ value, Follows ι setting depth (next value) (next' value)) :
    Follows ι setting depth (machine >>= next) (reader >>= next') := by
  intro input furthest
  rw [perform_bind, first input furthest]
  show _ = (reader.bind next' input).replayed _ _ _
  rw [Reader.bind]
  cases reader input with
  | ok value rest noted => exact (second value rest _).trans (Outcome.replayed_after _ _).symm
  | fail failure rest noted => rfl

/-- What is given is changed alike. -/
theorem map (change : α → β) (follows : Follows ι setting depth machine reader) :
    Follows ι setting depth (change <$> machine) (change <$> reader) :=
  follows.bind fun value => follows_pure (change value)

/-- A token is read as its reader reads it, and what comes after it follows. -/
theorem token_bind {rule : Reader ι α} {next : α → Machine ι β} {next' : α → Reader ι β}
    (second : ∀ value, Follows ι setting depth (next value) (next' value)) :
    Follows ι setting depth (token rule >>= next) (rule >>= next') :=
  (follows_token rule).bind second

/-- A machine that is tried follows a reader that is tried. -/
theorem optional (follows : Follows ι setting depth machine reader) :
    Follows ι setting depth (Machine.optional machine) (Reader.optional reader) := by
  intro input furthest
  rw [Machine.optional, perform_get_bind, perform_observing_bind, follows input furthest,
    Reader.optional]
  cases reader input with
  | ok value rest noted => rfl
  | fail failure rest noted =>
    show (if failure.isFinal then _ else _ : Machine ι (Option α)).perform _ _ =
      Outcome.replayed _ _ _ (if failure.isFinal then _ else _)
    by_cases final : failure.isFinal
    · rw [if_pos final, if_pos final]
      rfl
    · rw [if_neg final, if_neg final, Outcome.replayed, Setting.noting_best]
      rfl

variable [Input ι]

/-- The remaining branches of a choice follow one by one. -/
theorem choose {production : String} {machines : List (Machine ι α)} {readers : List (Reader ι α)}
    (each : List.Forall₂ (Follows ι setting depth) machines readers) (start : ι)
    (failures : List Failure) (furthest : Option Diagnosis) :
    (Machine.choose production start failures machines).perform setting ⟨start, depth, furthest⟩ =
      (Reader.choose production start failures readers).replayed setting depth furthest := by
  induction each generalizing failures furthest with
  | nil => rfl
  | @cons machine reader machines readers first _ ih =>
    rw [Machine.choose, perform_observing_bind, first start furthest, Reader.choose]
    cases reader start with
    | ok value rest noted =>
      simp only [Outcome.replayed, Setting.noting_best, perform_bind, perform_noteBeyond]
      rfl
    | fail failure rest noted =>
      show (if failure.isFinal then _ else _ : Machine ι α).perform _ _ =
        Outcome.replayed _ _ _ (if failure.isFinal then _ else _)
      by_cases final : failure.isFinal
      · rw [if_pos final, if_pos final]
        rfl
      · rw [if_neg final, if_neg final, Outcome.replayed_after]
        exact ih _ _

/-- A choice follows if its branches follow one by one. -/
theorem alternatives {production : String} {machines : List (Machine ι α)}
    {readers : List (Reader ι α)} (each : List.Forall₂ (Follows ι setting depth) machines readers) :
    Follows ι setting depth (Machine.alternatives production machines)
      (Reader.alternatives production readers) := fun input furthest =>
  choose each input [] furthest

/-- A loop follows if its rounds follow. -/
theorem manyWithin {round : Machine ι (Option α)} {round' : Reader ι (Option α)}
    (each : Follows ι setting depth round round') (rounds : Nat) :
    Follows ι setting depth (Machine.manyWithin round rounds) (Reader.manyWithin round' rounds) := by
  induction rounds with
  | zero => exact follows_pure []
  | succ rounds ih =>
    intro input furthest
    rw [Machine.manyWithin, perform_here_bind, perform_bind, each input furthest, Reader.manyWithin]
    dsimp only
    cases round' input with
    | fail failure rest noted => rfl
    | ok value rest noted =>
      cases value with
      | none => rfl
      | some value =>
        simp only [Outcome.replayed, perform_here_bind]
        by_cases less : Input.left rest < Input.left input
        · rw [if_pos less, if_pos less, perform_bind, ih rest]
          cases Reader.manyWithin round' rounds rest with
          | ok =>
            simp only [Outcome.replayed, Setting.noting_best]
            rfl
          | fail => simp only [Outcome.replayed, Setting.noting_best]
        · rw [if_neg less, if_neg less]
          rfl

/-- A loop follows if its rounds follow. -/
theorem many {round : Machine ι (Option α)} {round' : Reader ι (Option α)}
    (each : Follows ι setting depth round round') :
    Follows ι setting depth (Machine.many round) (Reader.many round') := fun input furthest =>
  each.manyWithin (Input.left input + 1) input furthest

/-- Where as many containers are open as are allowed, the inside of another one is not read. -/
theorem nested_of_le {production : String} {body : Machine ι α} (full : setting.limit ≤ depth) :
    Follows ι setting depth (nested production body) (Reader.fail (.tooDeep production)) := by
  intro input furthest
  rw [nested]
  show (if setting.limit ≤ depth then _ else _ : Machine ι α).perform _ _ = _
  rw [if_pos full]
  rfl

/-- Else the inside is read with one more container open, which is closed again in the end. -/
theorem nested {production : String} {body : Machine ι α} {reader : Reader ι α}
    (room : depth < setting.limit) (inside : Follows ι setting (depth + 1) body reader) :
    Follows ι setting depth (nested production body) reader := by
  intro input furthest
  rw [Machine.nested]
  show (if setting.limit ≤ depth then _ else _ : Machine ι α).perform _ _ = _
  rw [if_neg (Int.not_le.2 room)]
  refine (perform_tryFinally ⟨input, depth + 1, furthest⟩ _ _).trans ?_
  have closed : depth + 1 - 1 = depth := Int.add_sub_cancel depth 1
  rw [inside input furthest]
  cases reader input with
  | ok | fail =>
    conv => rhs; rw [Outcome.replayed, ← closed]
    rfl

end Follows

end Machine
end ThriftIdl
