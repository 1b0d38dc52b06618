import ThriftIdl.Proofs.Ranking
import ThriftIdl.Proofs.Session

/-!
# The best diagnosis of a session

The best diagnosis of a session stays as it is or gives way to a better one, whatever the steps are
(`Session.pairwise_rises`), so that its place does not move back.
-/
namespace ThriftIdl

section Sessions

variable {earlier middle later : Option Diagnosis}

/-- The best diagnosis stays as it is, or gives way to a better one. -/
def Diagnosis.Rises (earlier later : Option Diagnosis) : Prop :=
  later = earlier ∨ ∃ found, later = some found ∧ found.betterThan? earlier

/-- What gives way twice gives way to a better one. -/
theorem Diagnosis.Rises.trans (first : Rises earlier middle) (second : Rises middle later) :
    Rises earlier later := by
  rcases second with same | ⟨found, isFound, better⟩
  · rwa [same]
  · refine .inr ⟨found, isFound, ?_⟩
    rcases first with same | ⟨between, isBetween, better'⟩
    · rwa [← same]
    · rw [isBetween] at better
      cases earlier with
      | none => rfl
      | some diagnosis =>
        have rise := better_iff_rank_lt.1 better
        have rise' := better_iff_rank_lt.1 better'
        exact better_iff_rank_lt.2 (Int.lt_trans rise' rise)

/-- The place of the best diagnosis does not move back. -/
theorem Diagnosis.Rises.offset_le {diagnosis : Diagnosis} (rises : Rises (some diagnosis) later) :
    ∃ found, later = some found ∧ diagnosis.offset ≤ found.offset := by
  rcases rises with same | ⟨found, isFound, better⟩
  · exact ⟨diagnosis, same, Int.le_refl _⟩
  · refine ⟨found, isFound, ?_⟩
    rw [betterThan?, Diagnosis.better] at better
    split at better
    next same => exact Int.le_of_eq same.symm
    next => exact Int.le_of_lt (of_decide_eq_true better)

namespace Session

/-- A session that is moved keeps its best diagnosis or has a better one. -/
theorem Moves.rises {session reached : Session} (moves : Moves session reached) :
    Diagnosis.Rises session.furthest reached.furthest := by
  obtain ⟨offset, noted, rfl⟩ := moves
  cases noted with
  | none => exact .inl rfl
  | some fault =>
    by_cases better : (session.diagnosis fault).betterThan? session.furthest
    · exact .inr ⟨session.diagnosis fault, if_pos better, better⟩
    · exact .inl (if_neg better)

/-- Through any steps the best diagnosis rises. -/
theorem pairwise_rises (session : Session) (steps : List Step) :
    (session.furthest :: (session.steps steps).map (·.1.furthest)).Pairwise Diagnosis.Rises := by
  induction steps generalizing session with
  | nil => exact List.pairwise_singleton _ _
  | cons step steps ih =>
    have others := ih (session.step step).1
    have first := (session.step_moves step).rises
    rw [Session.steps, List.map_cons]
    refine List.pairwise_cons.2 ⟨List.forall_mem_cons.2 ⟨first, ?_⟩, others⟩
    exact fun later mem => first.trans ((List.pairwise_cons.1 others).1 later mem)

/-- Being better is a strict weak order of diagnoses. In every tree of things with diagnoses, the best one
has none better in the tree, and it is the first such in preorder, since it is better than each one
before it. Through any steps of a session the best diagnosis stays or gives way to a better one, so that
its place does not move back. -/
theorem furthest_rises :
    IsStrictWeakOrder Diagnosis (fun candidate current => candidate.better current) ∧
    (∀ {ε : Type} (diagnosis : ε → Diagnosis) (tree : Trace ε),
      let better := fun candidate current => (diagnosis candidate).better (diagnosis current)
      ∃ before after, tree.preorder = before ++ tree.furthest better :: after ∧
        (∀ other ∈ tree.preorder, better other (tree.furthest better) = false) ∧
        ∀ other ∈ before, better (tree.furthest better) other) ∧
    ∀ (session : Session) (steps : List Step),
      (session.furthest :: (session.steps steps).map (·.1.furthest)).Pairwise fun earlier later =>
        (later = earlier ∨ ∃ found, later = some found ∧ found.betterThan? earlier) ∧
          ∀ diagnosis, earlier = some diagnosis →
            ∃ found, later = some found ∧ diagnosis.offset ≤ found.offset := by
  refine ⟨inferInstance, fun diagnosis tree => ?_, fun session steps => ?_⟩
  · intro better
    have ranks : ∀ candidate current, better candidate current ↔
        (diagnosis current).rank < (diagnosis candidate).rank :=
      fun _ _ => Diagnosis.better_iff_rank_lt
    have best := Trace.firstBest_furthest ranks tree
    have none := best.not_better ranks
    obtain ⟨before, after, parts, lower, -⟩ := best
    exact ⟨before, after, parts, none, fun other mem => (ranks _ _).2 (lower other mem)⟩
  · refine (session.pairwise_rises steps).imp fun rises => ⟨rises, fun diagnosis same => ?_⟩
    rw [same] at rises
    exact rises.offset_le

/-- Of two failures at one place the specific one is the best, and the first of two such. In a session
the best diagnosis gives way to one at the same place, and stays when the cursor moves back. -/
theorem furthest_rises_unterminated :
    let at3 (kind : FailureKind) (production : String) : Trace Diagnosis :=
      .node ⟨kind, production, "", "[a \x22".toList, 3, none⟩ []
    let tree : Trace Diagnosis := .node ⟨.alternative, "field", "", "[a \x22".toList, 3, none⟩
      [at3 .char "identifier", at3 .number "int_constant", at3 .unterminated "literal"]
    let session := Session.start "[a \x22".toList 64
    let steps : List Step := [.seek 1, .production .enumValue, .seek 0, .production .constList, .seek 0]
    tree.furthest Diagnosis.better = (at3 .number "int_constant").head ∧
      (∀ other ∈ tree.preorder, other.better (at3 .number "int_constant").head = false) ∧
      (session.steps steps).map (fun result => result.1.furthest.map fun best => (best.offset, best.kind)) =
        [none, some (3, .char), some (3, .char), some (3, .unterminated), some (3, .unterminated)] ∧
      (session.furthest :: (session.steps steps).map (·.1.furthest)).Pairwise fun earlier later =>
        later = earlier ∨ ∃ found, later = some found ∧ found.betterThan? earlier := by
  intro at3 tree session steps
  obtain ⟨-, trees, sessions⟩ := furthest_rises
  obtain ⟨before, after, -, none, -⟩ := trees id tree
  have best : tree.furthest Diagnosis.better = (at3 .number "int_constant").head := by
    decide +kernel
  refine ⟨best, ?_, by decide +kernel, (sessions session steps).imp And.left⟩
  rw [← best]
  exact none

end Session

end Sessions

end ThriftIdl
