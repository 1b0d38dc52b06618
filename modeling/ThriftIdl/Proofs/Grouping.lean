import Mathlib.Data.List.Basic
import ThriftIdl.Tree.Canonical
import ThriftIdl.Tree.Document
import ThriftIdl.Tree.OfDocument

/-!
# Definitions grouped by kind

Grouping things by the number of their kind, and taking the groups in turn, is sorting them by that
number without changing the order of things of one kind (`flatMap_filter_range`). A document is made
in this way from any trees that are definitions. Main statement: `Tree.documentOf_groups`.
-/
namespace ThriftIdl

/-! ### Groups and stable sorting -/

section Groups

variable {α : Type} {key : α → Nat} {things things' : List α}

/-- Things in the order of their keys are determined by the things of each key in their order. -/
theorem eq_of_filter_eq (sorted : things.Pairwise (key · ≤ key ·))
    (sorted' : things'.Pairwise (key · ≤ key ·))
    (same : ∀ k, things.filter (key · = k) = things'.filter (key · = k)) : things = things' := by
  have mem_iff {thing : α} : thing ∈ things ↔ thing ∈ things' := by
    have both := congrArg (thing ∈ ·) (same (key thing))
    simpa using both
  induction things generalizing things' with
  | nil => exact (List.eq_nil_iff_forall_not_mem.2 fun thing mem => by simpa using mem_iff.2 mem).symm
  | cons first others ih =>
    cases things' with
    | nil => exact absurd (mem_iff.1 List.mem_cons_self) (by simp)
    | cons first' others' =>
      rw [List.pairwise_cons] at sorted sorted'
      have least : key first ≤ key first' := by
        rcases List.mem_cons.1 (mem_iff.2 (List.mem_cons_self (a := first'))) with rfl | mem
        · exact Nat.le_refl _
        · exact sorted.1 _ mem
      have least' : key first' ≤ key first := by
        rcases List.mem_cons.1 (mem_iff.1 (List.mem_cons_self (a := first))) with rfl | mem
        · exact Nat.le_refl _
        · exact sorted'.1 _ mem
      have equal : key first' = key first := Nat.le_antisymm least' least
      have heads := same (key first)
      simp only [List.filter_cons, equal, decide_true, if_true, List.cons.injEq] at heads
      obtain ⟨rfl, -⟩ := heads
      have tails (k : Nat) : others.filter (key · = k) = others'.filter (key · = k) := by
        have both := same k
        simp only [List.filter_cons] at both
        split at both
        · exact (List.cons.inj both).2
        · exact both
      rw [ih sorted.2 sorted'.2 tails fun {thing} => by
        simpa using congrArg (thing ∈ ·) (tails (key thing))]

/-- Things of one key are in the order of their keys. -/
theorem pairwise_filter_key (things : List α) (k : Nat) :
    (things.filter (key · = k)).Pairwise (key · ≤ key ·) := by
  refine List.Pairwise.imp_of_mem (fun {first second} mem mem' _ => ?_)
    (List.pairwise_of_forall fun _ _ => trivial : List.Pairwise (fun _ _ => True) _)
  simp only [List.mem_filter, decide_eq_true_eq] at mem mem'
  omega

/-- Sorting by a key does not change the order of things of one key. -/
theorem filter_mergeSort (things : List α) (k : Nat) :
    (things.mergeSort fun first second => key first ≤ key second).filter (key · = k) =
      things.filter (key · = k) := by
  have level : (things.filter (key · = k)).Pairwise (key · ≤ key ·) := pairwise_filter_key things k
  have kept : (things.filter (key · = k)).Sublist
      (things.mergeSort fun first second => key first ≤ key second) :=
    List.sublist_mergeSort (fun a b c => by simpa using Nat.le_trans)
      (fun a b => by simpa using Nat.le_total (key a) (key b)) (level.imp (by simp))
      List.filter_sublist
  have kept := kept.filter (key · = k)
  simp only [List.filter_filter, Bool.and_self] at kept
  exact (kept.eq_of_length ((List.mergeSort_perm things _).filter _).length_eq.symm).symm

/-- Of the groups of the first kinds, only that of a kind has things of this kind. -/
theorem filter_flatMap_range (things : List α) (kinds k : Nat) :
    ((List.range kinds).flatMap fun k' => things.filter (key · = k')).filter (key · = k) =
      if k < kinds then things.filter (key · = k) else [] := by
  induction kinds with
  | zero => rfl
  | succ kinds ih =>
    rw [List.range_succ, List.flatMap_append, List.filter_append, ih]
    simp only [List.flatMap_cons, List.flatMap_nil, List.append_nil, List.filter_filter]
    rcases eq_or_ne k kinds with rfl | other
    · simp
    · have none_left : things.filter (fun thing => key thing = k && key thing = kinds) = [] :=
        List.filter_eq_nil_iff.2 fun thing _ => by simp only [Bool.and_eq_true, decide_eq_true_eq]; omega
      rw [none_left, List.append_nil]
      simp only [Nat.lt_succ_iff_lt_or_eq, other, or_false]

/-- Groups of things, by the number of their kind, are the things sorted by that number, those of one
kind in their order. -/
theorem flatMap_filter_range {kinds : Nat} (each : ∀ thing ∈ things, key thing < kinds) :
    (List.range kinds).flatMap (fun k => things.filter (key · = k)) =
      things.mergeSort fun first second => key first ≤ key second := by
  refine @eq_of_filter_eq α key _ _ ?grouped ?sorted fun k => ?same
  case grouped =>
    refine List.pairwise_flatMap.2 ⟨fun k _ => pairwise_filter_key things k, ?_⟩
    refine List.pairwise_lt_range.imp fun {k k'} less first mem second mem' => ?_
    simp only [List.mem_filter, decide_eq_true_eq] at mem mem'
    omega
  case sorted =>
    simpa using @List.pairwise_mergeSort α (fun first second => key first ≤ key second)
      (fun a b c => by simpa using Nat.le_trans) (fun a b => by simpa using Nat.le_total (key a) (key b))
      things
  case same =>
    rw [filter_mergeSort, filter_flatMap_range]
    split
    · rfl
    · refine (List.filter_eq_nil_iff.2 fun thing mem => ?_).symm
      have := each thing mem
      simp only [decide_eq_true_eq]
      omega

end Groups

/-! ### The lists of a document -/

namespace Tree

/-- The lists of a document by their names, with the label of the definitions that each one holds. -/
def categories : List (String × Label) := [
  ("includes", .inclusion), ("cpp_includes", .cppInclusion), ("namespaces", .space),
  ("typedefs", .typedefDecl), ("consts", .constDecl), ("enums", .enumDecl), ("structs", .structDecl),
  ("unions", .unionDecl), ("exceptions", .exceptionDecl), ("services", .serviceDecl)]

/-- Whether a tree is a definition of one of the ten kinds. -/
def IsDefinition (tree : Tree) : Prop := ∃ label ∈ definitionLabels, tree.hasLabel label

/-- The number of the list of a document that a definition belongs to. -/
def category (tree : Tree) : Nat := definitionLabels.findIdx tree.hasLabel

/-- The document whose lists are given for each label. -/
def ofLists (lists : Label → List Tree) : Tree :=
  .plain .document (definitionLabels.map fun label => .list (lists label))

/-- A definition belongs to the list that holds definitions with its label. -/
theorem category_eq_iff (tree : Tree) {label : Label} (mem : label ∈ definitionLabels) :
    tree.category = definitionLabels.idxOf label ↔ tree.hasLabel label := by
  have place : definitionLabels.idxOf label < definitionLabels.length := List.idxOf_lt_length_iff.2 mem
  constructor
  · intro same
    have within : definitionLabels.findIdx tree.hasLabel < definitionLabels.length := by
      rwa [← same] at place
    have found := List.findIdx_getElem (w := within)
    have there : definitionLabels.findIdx tree.hasLabel = definitionLabels.idxOf label := same
    simpa only [there, List.getElem_idxOf] using found
  · intro labelled
    have same : tree.hasLabel = (· == label) := by
      cases tree with
      | node found values position =>
        obtain rfl : found = label := of_decide_eq_true labelled
        exact funext fun other => by simp only [hasLabel, eq_comm, beq_eq_decide]
      | _ => cases labelled
    rw [category, same]
    rfl

/-- The definitions with a label are those that belong to its list. -/
theorem filter_hasLabel (trees : List Tree) {label : Label} (mem : label ∈ definitionLabels) :
    trees.filter (hasLabel label) = trees.filter (category · = definitionLabels.idxOf label) :=
  List.filter_congr fun tree _ => by
    rw [Bool.eq_iff_iff, decide_eq_true_eq, category_eq_iff tree mem]

/-- A definition belongs to one of the lists. -/
theorem IsDefinition.category_lt {tree : Tree} (is_one : tree.IsDefinition) :
    tree.category < definitionLabels.length := by
  obtain ⟨label, mem, labelled⟩ := is_one
  exact List.findIdx_lt_length_of_exists ⟨label, mem, labelled⟩

/-- The definitions with each label in turn are all definitions in the order of their lists. -/
theorem flatMap_filter_hasLabel {trees : List Tree} (each : ∀ tree ∈ trees, tree.IsDefinition) :
    definitionLabels.flatMap (fun label => trees.filter (hasLabel label)) =
      trees.mergeSort fun first second => first.category ≤ second.category := by
  rw [← flatMap_filter_range fun tree mem => (each tree mem).category_lt]
  have numbered : List.range definitionLabels.length = definitionLabels.map definitionLabels.idxOf := rfl
  rw [numbered, List.flatMap_map]
  exact List.flatMap_congr fun label mem => filter_hasLabel trees mem

/-- The definitions that a document holds are those of its lists in turn. -/
theorem definitions_ofLists (lists : Label → List Tree) :
    (ofLists lists).definitions = .ok (definitionLabels.flatMap lists) := by
  have spread_all (labels : List Label) :
      (labels.map fun label => Tree.list (lists label)).mapM spread = .ok (labels.map lists) := by
    induction labels with
    | nil => rfl
    | cons label labels ih => rw [List.map_cons, List.mapM_cons, ih]; rfl
  rw [ofLists, plain, definitions, spread_all, List.flatMap]
  rfl

/-- Each list of a document is found by its name. -/
theorem valueOf_ofLists (lists : Label → List Tree) {name : String} {label : Label}
    (mem : (name, label) ∈ categories) : (ofLists lists).valueOf name = .ok (.list (lists label)) := by
  simp only [categories, List.mem_cons, List.not_mem_nil, or_false, Prod.mk.injEq] at mem
  rcases mem with ⟨rfl, rfl⟩ | ⟨rfl, rfl⟩ | ⟨rfl, rfl⟩ | ⟨rfl, rfl⟩ | ⟨rfl, rfl⟩ | ⟨rfl, rfl⟩ |
    ⟨rfl, rfl⟩ | ⟨rfl, rfl⟩ | ⟨rfl, rfl⟩ | ⟨rfl, rfl⟩ <;> rfl

/-- Definitions are sorted into the lists of their labels. -/
theorem documentOf_of_forall {trees : List Tree} (each : ∀ tree ∈ trees, tree.IsDefinition) :
    documentOf trees = .ok (ofLists fun label => trees.filter (hasLabel label)) := by
  have all_found : trees.find? (fun tree => !definitionLabels.any tree.hasLabel) = none :=
    List.find?_eq_none.2 fun tree mem => by simpa [IsDefinition] using each tree mem
  rw [documentOf, all_found]
  rfl

/-- The first tree that is no definition stops the sorting. -/
theorem documentOf_of_not_forall {trees : List Tree} (some_other : ¬ ∀ tree ∈ trees, tree.IsDefinition) :
    ∃ before tree after, trees = before ++ tree :: after ∧ (∀ tree ∈ before, tree.IsDefinition) ∧
      ¬ tree.IsDefinition ∧ documentOf trees = .error (.noCategory tree) := by
  cases found : trees.find? (fun tree => !definitionLabels.any tree.hasLabel) with
  | none =>
    refine absurd (fun tree mem => ?_) some_other
    simpa [IsDefinition] using List.find?_eq_none.1 found tree mem
  | some tree =>
    obtain ⟨other, before, after, rfl, each⟩ := List.find?_eq_some_iff_append.1 found
    refine ⟨before, tree, after, rfl, fun tree mem => ?_, ?_, ?_⟩
    · simpa [IsDefinition] using each tree mem
    · simpa [IsDefinition] using other
    · rw [documentOf, found]

/-- A tree has one label at most. -/
theorem hasLabel_unique {tree : Tree} {label label' : Label} (labelled : tree.hasLabel label)
    (labelled' : tree.hasLabel label') : label = label' := by
  cases tree with
  | node found values position =>
    exact (of_decide_eq_true labelled).symm.trans (of_decide_eq_true labelled')
  | _ => cases labelled

/-- The definitions with a label among those of lists with their own labels are those of its list. -/
theorem filter_flatMap_lists {lists : Label → List Tree} {labels : List Label}
    (own : ∀ label ∈ labels, ∀ tree ∈ lists label, tree.hasLabel label) (distinct : labels.Nodup)
    {label : Label} (mem : label ∈ labels) :
    (labels.flatMap lists).filter (hasLabel label) = lists label := by
  have kept {other : Label} (other_mem : other ∈ labels) :
      (lists other).filter (hasLabel label) = if other = label then lists label else [] := by
    split
    case isTrue same =>
      subst same
      exact List.filter_eq_self.2 (own _ other_mem)
    case isFalse differ =>
      exact List.filter_eq_nil_iff.2 fun tree tree_mem labelled =>
        differ (hasLabel_unique (own _ other_mem tree tree_mem) labelled)
  rw [List.filter_flatMap, List.flatMap_congr fun other other_mem => kept other_mem]
  clear own kept
  induction labels with
  | nil => cases mem
  | cons first labels ih =>
    rw [List.nodup_cons] at distinct
    rw [List.flatMap_cons]
    rcases List.mem_cons.1 mem with rfl | later
    · have none_left : labels.flatMap (fun other => if other = label then lists label else []) = [] :=
        List.flatMap_eq_nil_iff.2 fun other other_mem =>
          if_neg (by rintro rfl; exact distinct.1 other_mem)
      rw [if_pos rfl, none_left, List.append_nil]
    · rw [if_neg (by rintro rfl; exact distinct.1 later), List.nil_append, ih distinct.2 later]

/-- The trees of definitions that are picked by their label. -/
theorem filter_map_tree {β : Type} {label : Label} {pick : Definition Position → Option β}
    {make : β → Tree}
    (picked : ∀ definition : Definition Position,
      Option.guard (hasLabel label) definition.tree = (pick definition).map make)
    (definitions : List (Definition Position)) :
    (definitions.map Definition.tree).filter (hasLabel label) = (definitions.filterMap pick).map make := by
  rw [← List.filterMap_eq_filter, List.filterMap_map, List.map_filterMap]
  exact congrArg (List.filterMap · definitions) (funext picked)

/-- The tree of a definition is one of the ten kinds. -/
theorem isDefinition_tree : ∀ definition : Definition Position, definition.tree.IsDefinition
  | .inclusion _ => ⟨.inclusion, by decide, rfl⟩
  | .cppInclusion _ => ⟨.cppInclusion, by decide, rfl⟩
  | .space _ => ⟨.space, by decide, rfl⟩
  | .typedef _ => ⟨.typedefDecl, by decide, rfl⟩
  | .const _ => ⟨.constDecl, by decide, rfl⟩
  | .enum _ => ⟨.enumDecl, by decide, rfl⟩
  | .record .struct _ => ⟨.structDecl, by decide, rfl⟩
  | .record .union _ => ⟨.unionDecl, by decide, rfl⟩
  | .record .exception _ => ⟨.exceptionDecl, by decide, rfl⟩
  | .service _ => ⟨.serviceDecl, by decide, rfl⟩

/-- Definitions and their trees are sorted alike. -/
theorem documentOf_map_tree (definitions : List (Definition Position)) :
    documentOf (definitions.map Definition.tree) = .ok (Document.ofDefinitions definitions).tree := by
  rw [documentOf_of_forall (List.forall_mem_map.2 fun definition _ => isDefinition_tree definition)]
  refine congrArg (fun lists => Except.ok (plain .document lists)) ?_
  simp only [definitionLabels, List.map_cons, List.map_nil, Document.ofDefinitions, List.cons.injEq,
    Tree.list.injEq, and_true]
  refine ⟨filter_map_tree ?_ _, filter_map_tree ?_ _, filter_map_tree ?_ _, filter_map_tree ?_ _,
    filter_map_tree ?_ _, filter_map_tree ?_ _, filter_map_tree ?_ _, filter_map_tree ?_ _,
    filter_map_tree ?_ _, filter_map_tree ?_ _⟩
  all_goals rintro (_ | _ | _ | _ | _ | _ | ⟨_ | _ | _, _⟩ | _) <;> rfl

/-- A document holds some definitions, kind by kind: in the order of its lists those of one kind stand
as they were met, and each list has those of its own label. -/
structure Holds (document : Tree) (trees : List Tree) : Prop where
  /-- All definitions are those, sorted by their list. -/
  sorted : document.definitions = .ok (trees.mergeSort fun first second => first.category ≤ second.category)
  /-- Each list has the definitions of its label. -/
  listed : ∀ name label, (name, label) ∈ categories →
    document.valueOf name = .ok (.list (trees.filter (hasLabel label)))

/-- Definitions are grouped into a document: none is lost and none is met twice, those of one kind stay in
their order, and what is sorted already stays as it is. Anything else is told by its class. -/
theorem documentOf_groups :
    (∀ trees : List Tree, (∀ tree ∈ trees, tree.IsDefinition) →
      ∃ document, documentOf trees = .ok document ∧ document.Holds trees) ∧
    (∀ first second : List Tree, (∀ tree ∈ first ++ second, tree.IsDefinition) →
      ∃ document document' both, documentOf first = .ok document ∧ documentOf second = .ok document' ∧
        documentOf (first ++ second) = .ok both ∧ ∀ name label, (name, label) ∈ categories →
          ∃ trees trees', document.valueOf name = .ok (.list trees) ∧
            document'.valueOf name = .ok (.list trees') ∧
            both.valueOf name = .ok (.list (trees ++ trees'))) ∧
    (∀ lists : Label → List Tree,
      (∀ label ∈ definitionLabels, ∀ tree ∈ lists label, tree.hasLabel label) →
      ∃ trees, (ofLists lists).definitions = .ok trees ∧ documentOf trees = .ok (ofLists lists)) ∧
    (∀ trees : List Tree, ¬ (∀ tree ∈ trees, tree.IsDefinition) →
      ∃ before tree after, trees = before ++ tree :: after ∧ (∀ tree ∈ before, tree.IsDefinition) ∧
        ¬ tree.IsDefinition ∧ documentOf trees = .error (.noCategory tree) ∧
        (Misfit.noCategory tree).message = tree.classText) ∧
    ∀ definitions : List (Definition Position),
      documentOf (definitions.map Definition.tree) = .ok (Document.ofDefinitions definitions).tree := by
  refine ⟨fun trees each => ?_, fun first second each => ?_, fun lists own => ?_, fun trees other => ?_,
    documentOf_map_tree⟩
  · refine ⟨_, documentOf_of_forall each, ?_, fun name label mem => valueOf_ofLists _ mem⟩
    rw [definitions_ofLists, flatMap_filter_hasLabel each]
  · have parts := List.forall_mem_append.1 each
    refine ⟨_, _, _, documentOf_of_forall parts.1, documentOf_of_forall parts.2, documentOf_of_forall each,
      fun name label mem => ⟨_, _, valueOf_ofLists _ mem, valueOf_ofLists _ mem, ?_⟩⟩
    rw [valueOf_ofLists _ mem, List.filter_append]
  · refine ⟨_, definitions_ofLists lists, ?_⟩
    have each : ∀ tree ∈ definitionLabels.flatMap lists, tree.IsDefinition := fun tree mem => by
      obtain ⟨label, label_mem, tree_mem⟩ := List.mem_flatMap.1 mem
      exact ⟨label, label_mem, own label label_mem tree tree_mem⟩
    rw [documentOf_of_forall each, ofLists, ofLists]
    refine congrArg (fun lists => Except.ok (plain .document lists)) (List.map_congr_left fun label mem => ?_)
    rw [filter_flatMap_lists own (by decide) mem]
  · obtain ⟨before, tree, after, split, each, differs, stopped⟩ := documentOf_of_not_forall other
    exact ⟨before, tree, after, split, each, differs, stopped, rfl⟩

/-- A struct, an enumeration and another struct: the enumeration comes first, the structs stay in their
order; and a text among them is told by its class. -/
theorem documentOf_enum_between_structs :
    let struct (name : String) : Tree := .plain .structDecl [.text name, .list []]
    let enum : Tree := .plain .enumDecl [.text "E", .list []]
    (∃ document, documentOf [struct "B", enum, struct "A"] = .ok document ∧
      document.definitions = .ok [enum, struct "B", struct "A"]) ∧
    (∃ both, documentOf ([struct "B"] ++ [enum, struct "A"]) = .ok both ∧
      both.valueOf "structs" = .ok (.list ([struct "B"] ++ [struct "A"]))) ∧
    (∃ trees, (ofLists fun label => if label = .enumDecl then [enum] else []).definitions = .ok trees ∧
      documentOf trees = .ok (ofLists fun label => if label = .enumDecl then [enum] else [])) ∧
    ∃ tree, documentOf [struct "B", .text "A"] = .error (.noCategory tree) ∧
      tree.classText = "<class 'str'>" := by
  intro struct enum
  have struct_is (name : String) : (struct name).IsDefinition := ⟨.structDecl, by decide, rfl⟩
  have enum_is : enum.IsDefinition := ⟨.enumDecl, by decide, rfl⟩
  have each : ∀ tree ∈ [struct "B", enum, struct "A"], tree.IsDefinition := by
    simp [struct_is, enum_is]
  obtain ⟨grouped, appended, kept, refused, -⟩ := documentOf_groups
  refine ⟨?_, ?_, kept _ fun label mem tree tree_mem => ?_, ?_⟩
  · obtain ⟨document, made, held⟩ := grouped _ each
    refine ⟨document, made, held.sorted.trans ?_⟩
    rw [← flatMap_filter_hasLabel each]
    rfl
  · obtain ⟨document, document', both, made, made', made_both, listed⟩ :=
      appended [struct "B"] [enum, struct "A"] each
    obtain ⟨trees, trees', value, value', value_both⟩ := listed "structs" .structDecl (by decide)
    obtain rfl : _ = document := Except.ok.inj made
    obtain rfl : _ = document' := Except.ok.inj made'
    obtain rfl : _ = trees := Tree.list.inj (Except.ok.inj value)
    obtain rfl : _ = trees' := Tree.list.inj (Except.ok.inj value')
    exact ⟨both, made_both, value_both⟩
  · split at tree_mem
    case isTrue same => rw [List.mem_singleton.1 tree_mem, same]; rfl
    case isFalse => cases tree_mem
  · have text_other : ¬ (Tree.text "A").IsDefinition := fun ⟨_, _, labelled⟩ => by cases labelled
    obtain ⟨_, tree, _, -, -, -, stopped, -⟩ :=
      refused [struct "B", .text "A"] fun all => text_other (all _ (by simp))
    refine ⟨tree, stopped, ?_⟩
    obtain rfl : Tree.text "A" = tree := Misfit.noCategory.inj (Except.error.inj stopped)
    rfl

end Tree
end ThriftIdl
