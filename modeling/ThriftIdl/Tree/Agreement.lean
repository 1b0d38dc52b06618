import ThriftIdl.Tree.Canonical
import ThriftIdl.Tree.OfDocument

/-!
# Canonical text of the trees of documents

Main statements: the tree of a type is written as the type is (`typeText_tree`), and the tree of a
constant as the constant is, or refused for the same reason (`constantText_tree`).
-/
namespace ThriftIdl

open ThriftIdl.Tree (constantText constantTexts entryTexts entryText ofChars typeText numberText
  plain words_ofChars words_int joinedWords_texts)

/-- The tree of a type is written as the type is. -/
theorem FieldType.typeText_tree (type : FieldType) :
    type.tree.typeText = .ok (ofChars type.idl) := by
  induction type with
  | base type => simp [tree, typeText, ofChars, idl]
  | named name => simp [tree, plain, typeText, ofChars, idl]
  | map key value key_ih value_ih =>
    simp only [tree, plain, typeText, key_ih, value_ih]
    simp only [bind, Except.bind, pure, Except.pure, words_ofChars, idl]
  | set element ih | list element ih =>
    simp only [tree, plain, typeText, ih]
    simp only [bind, Except.bind, pure, Except.pure, words_ofChars, idl]

/-- What is written of a literal as a tree. -/
theorem literalText_text (text : String) :
    (Tree.text text).literalText = (literalIdl text).mapError .ofUnprintable := by
  have holds (c : Char) : (Tree.text text).holdsMark c = .ok (text.toList.contains c) := rfl
  have words : (Tree.text text).words = text.toList := rfl
  simp only [Tree.literalText, literalIdl, holds, words, bind, Except.bind]
  cases text.toList.contains Text.Quote.double.char with
  | false => rfl
  | true => cases text.toList.contains Text.Quote.single.char <;> rfl

/-- Texts between brackets. -/
theorem bracketed_texts (opening closing : Char) (texts : List (List Char)) :
    Tree.bracketed opening closing (texts.map ofChars) =
      .ok (ofChars (opening :: listed texts ++ [closing])) := by
  rw [Tree.bracketed, joinedWords_texts]
  rfl

mutual
/-- The tree of a constant is written as the constant is, or refused for the same reason. -/
theorem ConstValue.constantText_tree : (value : ConstValue) →
    value.tree.constantText = (ofChars <$> value.idl).mapError .ofUnprintable
  | .name name => by
    simp only [ConstValue.tree, plain, constantText, ConstValue.idl]
    exact congrArg Except.ok (congrArg Tree.text String.ofList_toList.symm)
  | .literal text => by
    simp only [ConstValue.tree, plain, constantText, ConstValue.idl, literalText_text]
    cases literalIdl text <;> rfl
  | .int value => by
    simp only [ConstValue.tree, plain, constantText, ConstValue.idl, words_int]
    rfl
  | .double value => by
    simp only [ConstValue.tree, plain, constantText, ConstValue.idl, numberText]
    split <;> rfl
  | .list values => by
    simp only [ConstValue.tree, plain, constantText, ConstValue.idl, constantTexts_trees values]
    cases idlOfValues values with
    | error reason => rfl
    | ok texts =>
      show Tree.bracketed '[' ']' (texts.map ofChars) = _
      rw [bracketed_texts]
      rfl
  | .map entries => by
    simp only [ConstValue.tree, plain, constantText, ConstValue.idl, entryTexts_trees entries]
    cases idlOfEntries entries with
    | error reason => rfl
    | ok texts =>
      show Tree.bracketed '\x7b' '\x7d' (texts.map ofChars) = _
      rw [bracketed_texts]
      rfl

/-- The trees of constants are written as the constants are. -/
theorem constantTexts_trees : (values : List ConstValue) →
    constantTexts (treesOfValues values) =
      ((fun texts => texts.map ofChars) <$> idlOfValues values).mapError .ofUnprintable
  | [] => rfl
  | value :: values => by
    simp only [treesOfValues, constantTexts, idlOfValues, value.constantText_tree,
      constantTexts_trees values]
    cases value.idl with
    | error reason => rfl
    | ok text => cases idlOfValues values <;> rfl

/-- The trees of entries are written as the entries are. -/
theorem entryTexts_trees : (entries : List (ConstValue × ConstValue)) →
    entryTexts (treesOfEntries entries) =
      ((fun texts => texts.map ofChars) <$> idlOfEntries entries).mapError .ofUnprintable
  | [] => rfl
  | (key, value) :: entries => by
    simp only [treesOfEntries, entryTexts, idlOfEntries, key.constantText_tree,
      value.constantText_tree, entryTexts_trees entries]
    cases key.idl with
    | error reason => rfl
    | ok keyText =>
      cases value.idl with
      | error reason => rfl
      | ok valueText =>
        cases idlOfEntries entries with
        | error reason => rfl
        | ok texts =>
          show Except.ok (ofChars (entryText (ofChars keyText) (ofChars valueText)) :: _) = _
          rw [entryText, words_ofChars, words_ofChars]
          rfl
end

end ThriftIdl
