import ThriftIdl.Proofs.Grammar.Respelling
import ThriftIdl.Proofs.Numbers
import ThriftIdl.Proofs.Reader.Bodies
import ThriftIdl.Proofs.Reader.Definitions
import ThriftIdl.Proofs.Text.Continued

/-!
# Separators of elements

A list, a map and an enumeration are read from texts of their elements with joints between them. At
most one list separator may stand in each joint, and none before the first element
(`readProduction_laidOut`). An element that is read by itself to its end is read alike in a body,
because nothing that may follow it there goes on with it (`readsAs_constValue`, `readsAs_constEntry`,
`readsAs_enumValue`).
-/
namespace ThriftIdl

open Text

/-- A text is a constant as a whole. -/
def IsConstant (text : List Char) (value : ConstValue) : Prop :=
  ∃ limit, readProduction .constValue limit text = .ok ([], .constant value)

/-- A text is a key and a value, with a colon between them and blanks and comments around it. -/
def IsEntry (text : List Char) (entry : ConstValue × ConstValue) : Prop :=
  ∃ key gap gap' content, text = key ++ (gap ++ ':' :: (gap' ++ content)) ∧
    IsConstant key entry.1 ∧ Filler gap ∧ Filler gap' ∧ IsConstant content entry.2

/-- A text is a value of an enumeration as a whole, wherever it is placed. -/
def IsEnumValue (text : List Char) (value : EnumValue Unit) : Prop :=
  ∃ limit found, readProduction .enumValue limit text = .ok ([], .enumValue found) ∧
    found.map (fun _ => ()) = value

/-- A production reads a text up to a rest and gives a certain thing, if the text is in order, and else
diagnoses it. -/
def Settles (production : Production) (limit : Int) (text rest : List Char) (inOrder : Prop)
    (isRight : Reading Position → Prop) : Prop :=
  (inOrder → ∃ reading, readProduction production limit text = .ok (rest, reading) ∧
    isRight reading) ∧
  (¬ inOrder → ∃ diagnosis, readProduction production limit text = .error (.diagnosis diagnosis) ∧
    diagnosis.kind ≠ .nesting)

section Edges

variable {text rest : List Char}

/-- Names, numbers, literals and brackets begin an element. -/
theorem solid_cons {c : Char} (tail : List Char)
    (begins : continuesName c ∨ c ∈ ['+', '-', '[', '\x7b', '\'', '"']) : Solid (c :: tail) := by
  refine ⟨c, tail, rfl, fun opens => ?_, fun mem => ?_⟩
  · simp only [opensGap, isBlank, Bool.or_eq_true, decide_eq_true_eq] at opens
    rcases opens with ((((rfl | rfl) | rfl) | rfl) | rfl) | rfl <;> revert begins <;> decide
  · simp only [List.mem_cons, List.not_mem_nil, or_false] at mem
    rcases mem with rfl | rfl | rfl <;> revert begins <;> decide

/-- A name begins an element. -/
theorem solid_of_isName {name : List Char} (isName : IsName name) (rest : List Char) :
    Solid (name ++ rest) := by
  obtain ⟨c, tail, rfl, -⟩ := isName.exists_cons
  exact solid_cons _ (.inl (isName.continued c (by simp)))

/-- A number begins an element. -/
theorem solid_of_number (number : ¬ NoNumber text) : Solid text := by
  cases text with
  | nil => exact absurd (fun c head => by cases head) number
  | cons c tail =>
    refine solid_cons tail ?_
    by_contra other
    refine number fun d head => ?_
    obtain rfl : c = d := by simpa using head
    simp only [not_or, continuesName, Bool.or_eq_true, decide_eq_true_eq, List.mem_cons] at other
    exact ⟨other.1.1.1.2, other.2.1, other.2.2.1, other.1.1.2⟩

/-- Where something may follow an element, no word goes on. -/
theorem Border.closed (border : Border text) : Closed text := by
  intro c head continued
  rcases border.1 c head with opens | mem
  · exact not_opensGap_of_continuesName continued opens
  · simp only [List.mem_cons, List.not_mem_nil, or_false] at mem
    rcases mem with rfl | rfl | rfl | rfl | rfl <;> revert continued <;> decide

/-- Where something may follow an element, no number goes on. -/
theorem Border.foreign (border : Border text) : Foreign text := by
  intro c head
  rcases border.1 c head with opens | mem
  · simp only [opensGap, isBlank, Bool.or_eq_true, decide_eq_true_eq] at opens
    rcases opens with ((((rfl | rfl) | rfl) | rfl) | rfl) | rfl <;> decide
  · simp only [List.mem_cons, List.not_mem_nil, or_false] at mem
    rcases mem with rfl | rfl | rfl | rfl | rfl <;> decide

/-- Where something may follow an element, no number is assigned to it. -/
theorem Border.faces (border : Border text) : Faces text fun lexeme => ¬ lexeme.IsMark .equal := by
  intro lexeme rest here isEqual
  have before := here.before
  rw [isEqual] at before
  refine border.2 ?_
  rw [here.spelled, show lexeme.text = [Mark.equal.char] from before]
  rfl

/-- Before the colon of an entry stands what may follow its key. -/
theorem border_colon {gap : List Char} (filler : Filler gap) (rest : List Char) :
    Border (gap ++ ':' :: rest) := by
  constructor
  · cases gap with
    | nil => simp
    | cons d gap => exact fun c head => .inl (filler.fenced c head)
  · rw [filler.skip, skip_cons_of_not_opensGap (by decide)]
    simp

end Edges

/-- Lexemes may stand before more text. -/
theorem respelling_ahead (depth count : Nat) :
    Respelling true true depth depth (Lexeme.ahead count) (· + count) :=
  ⟨fun _ => rfl, fun _ => rfl, fun _ => rfl, fun _ apart => apart, id, Nat.le_refl depth⟩

namespace Reader

open Readable

variable {text rest : List Char} {depth : Nat}

/-- A character is read only where it stands. -/
theorem eq_cons_of_gives_character {c : Char} {production : String} {value : Unit}
    (given : (character c production : Reader (List Char) Unit).Gives text value rest) :
    text = c :: rest := by
  change ∃ noted, Lexical.character c production text = .ok value rest noted at given
  cases text with
  | nil => simp [Lexical.character, fail] at given
  | cons d text =>
    by_cases same : d = c
    · simpa [Lexical.character, same] using given
    · simp [Lexical.character, same, fail] at given

/-- A name that is read begins an element. -/
theorem solid_of_gives_name {name : String}
    (given : (Readable.name : Reader (List Char) String).Gives text name rest) : Solid text := by
  obtain ⟨word, rfl, isName⟩ := exists_isName_of_gives_name given
  exact solid_of_isName isName rest

/-- A literal that is read begins an element. -/
theorem solid_of_gives_literal {value : String}
    (given : (Readable.literal : Reader (List Char) String).Gives text value rest) : Solid text := by
  obtain ⟨quote, tail, rfl⟩ := exists_quote_of_gives_literal given
  exact solid_cons tail (.inr (by cases quote <;> decide))

/-- A constant that is read begins an element. -/
theorem solid_of_gives_constValue {value : ConstValue}
    (given : (constValue depth).Gives text value rest) : Solid text := by
  rw [constValue_eq] at given
  obtain name | ⟨-, literal | ⟨-, double | ⟨-, int | ⟨-, list | ⟨-, map | ⟨-, impossible⟩⟩⟩⟩⟩⟩ :=
    gives_alternatives.1 given
  · obtain ⟨name, reads, -⟩ := gives_map.1 name
    exact solid_of_gives_name reads
  · obtain ⟨value, reads, -⟩ := gives_map.1 literal
    exact solid_of_gives_literal reads
  · obtain ⟨value, reads, -⟩ := gives_map.1 double
    exact solid_of_number fun noNumber => (not_gives_of_noNumber noNumber).1 _ _ reads
  · obtain ⟨value, reads, -⟩ := gives_map.1 int
    exact solid_of_number fun noNumber => (not_gives_of_noNumber noNumber).2 _ _ reads
  · obtain ⟨_, after, opening, -⟩ := gives_bind.1 list
    rw [eq_cons_of_gives_character opening]
    exact solid_cons after (.inr (by decide))
  · obtain ⟨_, after, opening, -⟩ := gives_bind.1 map
    rw [eq_cons_of_gives_character opening]
    exact solid_cons after (.inr (by decide))
  · exact impossible.elim

section Elements

variable {value : ConstValue}

/-- A constant that is read by itself is read in a body, if enough levels are left for it. -/
theorem readsAs_constValue (isConstant : IsConstant text value) (shallow : value.depth ≤ depth) :
    ReadsAs (constValue depth) id text value := by
  obtain ⟨limit, read⟩ := isConstant
  have given := readProduction_constValue_iff.1 read
  have solid := solid_of_gives_constValue given
  rw [← solid.skip] at given
  obtain ⟨lexemes, lexes, spelled⟩ := spelled_constValue _ given
  refine ⟨solid, fun rest border => ⟨value, ?_, rfl⟩⟩
  have lexes := lexes.continued border.closed border.foreign
  have spelled := (spelled.within shallow).respelled (respelling_ahead depth rest.length)
  have reads := gives_constValue depth lexes spelled
  rwa [(solid.append rest).skip] at reads

/-- An entry whose key and value are read by themselves is read in a body, if enough levels are left
for both. -/
theorem readsAs_constEntry {entry : ConstValue × ConstValue} (isEntry : IsEntry text entry)
    (shallow : max entry.1.depth entry.2.depth ≤ depth) :
    ReadsAs (constEntry (constValue depth)) id text entry := by
  obtain ⟨key, gap, gap', content, rfl, isKey, filler, filler', isContent⟩ := isEntry
  obtain ⟨solidKey, readsKey⟩ := readsAs_constValue isKey (Nat.max_le.1 shallow).1
  obtain ⟨solidContent, readsContent⟩ := readsAs_constValue isContent (Nat.max_le.1 shallow).2
  refine ⟨solidKey.append _, fun rest border => ⟨entry, ?_, rfl⟩⟩
  obtain ⟨_, givenKey, rfl⟩ := readsKey _ (border_colon filler (gap' ++ content ++ rest))
  obtain ⟨_, givenContent, rfl⟩ := readsContent rest border
  rw [List.append_assoc, List.append_assoc]
  refine givenKey.bind (gives_skipSeparator_bind.2 ?_)
  rw [filler.skip, skip_cons_of_not_opensGap (by decide)]
  refine gives_character_cons.bind (gives_skipSeparator_bind.2 ?_)
  rw [List.append_assoc, filler'.skip, (solidContent.append rest).skip]
  exact givenContent.bind (gives_pure.2 ⟨rfl, rfl⟩)

/-- A value of an enumeration that is read by itself is read in a body. -/
theorem readsAs_enumValue {value : EnumValue Unit} (isEnumValue : IsEnumValue text value) :
    ReadsAs enumValue (EnumValue.map fun _ => ()) text value := by
  obtain ⟨limit, found, read, rfl⟩ := isEnumValue
  obtain ⟨_, reads, same⟩ := readProduction_eq_ok_iff.1 read
  obtain ⟨value, given, rfl⟩ := gives_map.1 reads
  obtain rfl : found = value.map (positionIn text 0) := by
    cases same
    rfl
  have solid : Solid text := by
    have named := gives_here_bind.1 given
    obtain ⟨_, _, opening, -⟩ := gives_bind.1 named
    exact solid_of_gives_name opening
  clear reads
  rw [← solid.skip] at given
  obtain ⟨lexemes, lexes, spelled⟩ := spelled_enumValue given numberStop_nil
  refine ⟨solid, fun rest border => ⟨value.map (· + rest.length), ?_, rfl⟩⟩
  have lexes := lexes.continued border.closed border.foreign
  have spelled := spelled.respelled (respelling_ahead 0 rest.length)
  have reads := gives_enumValue lexes spelled border.faces
  rwa [(solid.append rest).skip] at reads

end Elements

section Brackets

/-- A mark stands as a lexeme where its character does. -/
theorem exists_at_mark (mark : Mark) (rest : List Char) :
    ∃ lexeme : Lexeme, lexeme.At takesExponent (mark.char :: rest) rest ∧ lexeme.IsMark mark := by
  have closed : ¬ opensGap mark.char := by cases mark <;> decide
  obtain ⟨lexeme, here, isMark, -⟩ := (exists_at_iff (.mark mark)).2
    ⟨skip_cons_of_not_opensGap closed rest, (rfl : [mark.char] = [mark.char])⟩
  exact ⟨lexeme, here, isMark⟩

/-- Where a mark stands that opens nothing, no constant is read. -/
theorem refuses_constValue_mark (mark : Mark) (square : mark ≠ .leftSquare)
    (brace : mark ≠ .leftBrace) (rest : List Char) :
    (constValue depth).Refuses (mark.char :: rest) := by
  obtain ⟨lexeme, here, isMark⟩ := exists_at_mark mark rest
  have closed : ¬ opensGap mark.char := by cases mark <;> decide
  rw [constValue_eq, ← skip_cons_of_not_opensGap closed rest]
  exact refuses_constValueOf here isMark square brace

/-- Where a mark stands, no value of an enumeration is read. -/
theorem refuses_enumValue_mark (mark : Mark) (rest : List Char) :
    (enumValue : Reader (List Char) (EnumValue Nat)).Refuses (mark.char :: rest) := by
  obtain ⟨lexeme, here, isMark⟩ := exists_at_mark mark rest
  have closed : ¬ opensGap mark.char := by cases mark <;> decide
  have noName := refuses_name (here.faces (by simp [show _ = _ from isMark]))
  rw [skip_cons_of_not_opensGap closed] at noName
  exact Gives.bind_refuses (gives_here.2 ⟨rfl, rfl⟩) noName.bind

/-- The constants of a list end at its bracket. -/
theorem delimited_constValue (depth : Nat) : Delimited (constValue depth) ']' where
  refuses c rest ends := by
    rcases ends with rfl | rfl | rfl
    · exact refuses_constValue_mark .comma (by decide) (by decide) rest
    · exact refuses_constValue_mark .semicolon (by decide) (by decide) rest
    · exact refuses_constValue_mark .rightSquare (by decide) (by decide) rest
  shrinks _ _ _ := (spelled_constValue depth).length_le
  closes := by decide

/-- The entries of a map end at its brace. -/
theorem delimited_constEntry (depth : Nat) : Delimited (constEntry (constValue depth)) '\x7d' where
  refuses c rest ends := by
    rcases ends with rfl | rfl | rfl
    · exact (refuses_constValue_mark .comma (by decide) (by decide) rest).bind
    · exact (refuses_constValue_mark .semicolon (by decide) (by decide) rest).bind
    · exact (refuses_constValue_mark .rightBrace (by decide) (by decide) rest).bind
  shrinks := shrinks_constEntry fun _ _ _ => (spelled_constValue depth).length_le
  closes := by decide

/-- The values of an enumeration end at its brace. -/
theorem delimited_enumValue :
    Delimited (enumValue : Reader (List Char) (EnumValue Nat)) '\x7d' where
  refuses c rest ends := by
    rcases ends with rfl | rfl | rfl
    · exact refuses_enumValue_mark .comma rest
    · exact refuses_enumValue_mark .semicolon rest
    · exact refuses_enumValue_mark .rightBrace rest
  shrinks := shrinks_enumValue
  closes := by decide

/-- A list leads to its body. -/
theorem leads_constList (depth : Nat) (text : List Char) :
    Leads (constList (depth + 1)) ('[' :: text)
      (bodyOf (constValue depth) ']' "const_list" ConstValue.list) text := by
  change Leads (character '[' "const_list" >>= fun _ =>
    bodyOf (constValue depth) ']' "const_list" ConstValue.list) _ _ _
  exact gives_character_cons.leads (leads_self _ text)

/-- A map leads to its body. -/
theorem leads_constMap (depth : Nat) (text : List Char) :
    Leads (constMap (depth + 1)) ('\x7b' :: text)
      (bodyOf (constEntry (constValue depth)) '\x7d' "const_map" ConstValue.map) text := by
  change Leads (character '\x7b' "const_map" >>= fun _ =>
    bodyOf (constEntry (constValue depth)) '\x7d' "const_map" ConstValue.map) _ _ _
  exact gives_character_cons.leads (leads_self _ text)

/-- An enumeration leads to its body after its name. -/
theorem leads_enumDecl {gap name gap' : List Char} (filler : Filler gap) (some : gap ≠ [])
    (isName : IsName name) (filler' : Filler gap') (text : List Char) :
    ∃ place, Leads (enumDecl : Reader (List Char) (EnumDecl Nat))
      ("enum".toList ++ (gap ++ (name ++ (gap' ++ '\x7b' :: text))))
      (bodyOf enumValue '\x7d' "enum" fun values => ⟨String.ofList name, values, place⟩) text := by
  have closed : Closed (gap' ++ '\x7b' :: text) := by
    by_cases none : gap' = []
    · rw [none]
      exact closed_cons.2 (by decide)
    · exact filler'.closed none _
  have keyword : (keyword "enum" "enum" : Reader (List Char) Unit).Gives
      ("enum".toList ++ (gap ++ (name ++ (gap' ++ '\x7b' :: text)))) ()
      (gap ++ (name ++ (gap' ++ '\x7b' :: text))) := by
    change (Lexical.keyword "enum" "enum").Gives _ () _
    simp only [Lexical.keyword, gives_orFail]
    rw [afterKeyword?_eq_some_iff.2 ⟨rfl, filler.closed some _⟩]
    rfl
  have separated : (separator : Reader (List Char) Unit).Gives
      (gap ++ (name ++ (gap' ++ '\x7b' :: text))) () (name ++ (gap' ++ '\x7b' :: text)) :=
    gives_separator.2 ⟨filler.hasGap some _, by rw [filler.skip, (solid_of_isName isName _).skip]⟩
  have named : (Readable.name : Reader (List Char) String).Gives (name ++ (gap' ++ '\x7b' :: text))
      (String.ofList name) (gap' ++ '\x7b' :: text) := by
    change (Lexical.name).Gives _ _ _
    simp only [Lexical.name, gives_orFail]
    rw [scanName?_eq_some_iff.2 ⟨rfl, isName, closed⟩]
    rfl
  have skipped : (skipSeparator : Reader (List Char) Bool).Gives (gap' ++ '\x7b' :: text)
      (hasGap (gap' ++ '\x7b' :: text)) ('\x7b' :: text) :=
    gives_skipSeparator.2 ⟨rfl, by rw [filler'.skip, skip_cons_of_not_opensGap (by decide)]⟩
  have opened (place : Nat) : Leads (character '\x7b' "enum" >>= fun _ =>
      bodyOf enumValue '\x7d' "enum" fun values => (⟨String.ofList name, values, place⟩ : EnumDecl Nat))
      ('\x7b' :: text) _ text := gives_character_cons.leads (leads_self _ text)
  exact ⟨_, (gives_here.2 ⟨rfl, rfl⟩).leads
    (keyword.leads (separated.leads (named.leads (skipped.leads (opened _)))))⟩

end Brackets
end Reader

section Productions

variable {limit : Int} {lead : List Char} {marks : Nat}

/-- A production that leads to the body of its elements reads it if it is in order, and else
diagnoses it. -/
theorem settles_of_leads {α β γ : Type} {rule : Reader (List Char) α} {view : α → β}
    {closing : Char} {portions : List (Portion β)} {production : Production} {text rest : List Char}
    {bracketed : String} {convert : List α → γ} {change : γ → Reading Nat}
    {isRight : Reading Position → Prop} (delimited : Reader.Delimited rule closing)
    (laid : LaidOut (Reader.ReadsAs rule view) lead marks portions)
    (leads : Reader.Leads (production.reader limit.toNat) text
      (change <$> Reader.bodyOf rule closing bracketed convert)
      (lead ++ laidOut portions (closing :: rest)))
    (right : ∀ values, values.map view = portions.map Portion.value →
      isRight ((change (convert values)).map (positionIn text 0))) :
    Settles production limit text rest (InOrder marks portions) isRight := by
  refine ⟨fun inOrder => ?_, fun disorder => ?_⟩
  · obtain ⟨values, same, given⟩ :=
      Reader.gives_bodyOf delimited laid inOrder bracketed convert rest
    exact ⟨_, readProduction_eq_ok_iff.2 ⟨_, leads.gives (given.map change), rfl⟩, right values same⟩
  · have refused := Reader.refuses_bodyOf delimited laid disorder bracketed convert rest
    exact exists_error_of_refuses (leads.refuses (Reader.refuses_map.2 refused))

/-- A body whose elements are read in one way is one whose elements are read in another. -/
theorem LaidOut.imp {α : Type} {reads reads' : List Char → α → Prop} {portions : List (Portion α)}
    (laid : LaidOut reads lead marks portions)
    (each : ∀ portion ∈ portions, reads portion.text portion.value →
      reads' portion.text portion.value) : LaidOut reads' lead marks portions :=
  ⟨laid.lead, fun portion mem => each portion mem (laid.reads portion mem), laid.joints, laid.apart⟩

/-- A container of constants that is within the limit leaves enough levels for them. -/
theorem exists_levels {depth : Nat} (deep : ((depth + 1 : Nat) : Int) ≤ limit) :
    ∃ inner, depth ≤ inner ∧ limit.toNat = inner + 1 := ⟨limit.toNat - 1, by omega, by omega⟩

/-- A list of constants with joints between them is settled. -/
theorem settles_constList {portions : List (Portion ConstValue)}
    (laid : LaidOut IsConstant lead marks portions)
    (deep : ((ConstValue.list (portions.map Portion.value)).depth : Int) ≤ limit)
    (rest : List Char) :
    Settles .constList limit ('[' :: (lead ++ laidOut portions (']' :: rest))) rest
      (InOrder marks portions) (· = .constant (.list (portions.map Portion.value))) := by
  obtain ⟨depth, shallow, levels⟩ := exists_levels deep
  rw [depthOfValues_le_iff] at shallow
  have laid : LaidOut (Reader.ReadsAs (Reader.constValue depth) id) lead marks portions :=
    laid.imp fun portion mem isConstant =>
      Reader.readsAs_constValue isConstant (shallow _ (List.mem_map_of_mem mem))
  have leads := (Reader.leads_constList depth (lead ++ laidOut portions (']' :: rest))).map
    (Reading.constant : ConstValue → Reading Nat)
  rw [← levels] at leads
  refine settles_of_leads (Reader.delimited_constValue depth) laid leads fun values same => ?_
  rw [← same, List.map_id]
  rfl

/-- A map of entries with joints between them is settled. -/
theorem settles_constMap {portions : List (Portion (ConstValue × ConstValue))}
    (laid : LaidOut IsEntry lead marks portions)
    (deep : ((ConstValue.map (portions.map Portion.value)).depth : Int) ≤ limit)
    (rest : List Char) :
    Settles .constMap limit ('\x7b' :: (lead ++ laidOut portions ('\x7d' :: rest))) rest
      (InOrder marks portions) (· = .constant (.map (portions.map Portion.value))) := by
  obtain ⟨depth, shallow, levels⟩ := exists_levels deep
  rw [depthOfEntries_le_iff] at shallow
  have laid : LaidOut (Reader.ReadsAs (Reader.constEntry (Reader.constValue depth)) id) lead marks
      portions :=
    laid.imp fun portion mem isEntry =>
      Reader.readsAs_constEntry isEntry (Nat.max_le.2 (shallow _ (List.mem_map_of_mem mem)))
  have leads := (Reader.leads_constMap depth (lead ++ laidOut portions ('\x7d' :: rest))).map
    (Reading.constant : ConstValue → Reading Nat)
  rw [← levels] at leads
  refine settles_of_leads (Reader.delimited_constEntry depth) laid leads fun entries same => ?_
  rw [← same, List.map_id]
  rfl

/-- The body of an enumeration with joints between its values is settled. -/
theorem settles_enum {portions : List (Portion (EnumValue Unit))} {gap name gap' : List Char}
    (filler : Filler gap) (some : gap ≠ []) (isName : IsName name) (filler' : Filler gap')
    (laid : LaidOut IsEnumValue lead marks portions) (rest : List Char) :
    Settles .enum limit ("enum".toList ++ (gap ++ (name ++ (gap' ++ '\x7b' ::
        (lead ++ laidOut portions ('\x7d' :: rest)))))) rest (InOrder marks portions)
      fun reading => ∃ decl, reading = .definition (.enum decl) ∧ decl.name = String.ofList name ∧
        decl.values.map (·.map fun _ => ()) = portions.map Portion.value := by
  have laid : LaidOut (Reader.ReadsAs Reader.enumValue (EnumValue.map fun _ => ())) lead marks
      portions := laid.imp fun _ _ => Reader.readsAs_enumValue
  obtain ⟨place, leads⟩ := Reader.leads_enumDecl filler some isName filler'
    (lead ++ laidOut portions ('\x7d' :: rest))
  have leads := leads.map fun decl => Reading.definition (.enum decl)
  refine settles_of_leads Reader.delimited_enumValue laid leads fun values same => ?_
  refine ⟨_, rfl, rfl, ?_⟩
  rw [← same]
  simp [EnumDecl.map, EnumValue.map]

/-- Texts of elements that are read by themselves make up a body with joints between them and after
the last, and perhaps with one before the first. If each joint has at most one list separator and the
first has none, a list, a map or an enumeration with that body is read up to its bracket and has the
values of the elements. Otherwise it is diagnosed, and not for nesting. -/
theorem readProduction_laidOut (limit : Int) (lead rest : List Char) (marks : Nat) :
    (∀ portions, LaidOut IsConstant lead marks portions →
      ((ConstValue.list (portions.map Portion.value)).depth : Int) ≤ limit →
      Settles .constList limit ('[' :: (lead ++ laidOut portions (']' :: rest))) rest
        (InOrder marks portions) (· = .constant (.list (portions.map Portion.value)))) ∧
    (∀ portions, LaidOut IsEntry lead marks portions →
      ((ConstValue.map (portions.map Portion.value)).depth : Int) ≤ limit →
      Settles .constMap limit ('\x7b' :: (lead ++ laidOut portions ('\x7d' :: rest))) rest
        (InOrder marks portions) (· = .constant (.map (portions.map Portion.value)))) ∧
    (∀ gap name gap' portions, Filler gap → gap ≠ [] → IsName name → Filler gap' →
      LaidOut IsEnumValue lead marks portions →
      Settles .enum limit ("enum".toList ++ (gap ++ (name ++ (gap' ++ '\x7b' ::
          (lead ++ laidOut portions ('\x7d' :: rest)))))) rest (InOrder marks portions)
        fun reading => ∃ decl, reading = .definition (.enum decl) ∧
          decl.name = String.ofList name ∧
            decl.values.map (·.map fun _ => ()) = portions.map Portion.value) :=
  ⟨fun _ laid deep => settles_constList laid deep rest,
    fun _ laid deep => settles_constMap laid deep rest,
    fun _ _ _ _ filler some isName filler' laid =>
      settles_enum filler some isName filler' laid rest⟩

/-- A list of two elements with a list separator after each, a map of one entry, and an enumeration
with two list separators between its values. -/
theorem readProduction_laidOut_examples :
    readProduction .constList 1 "[1, a;]".toList =
        .ok ([], .constant (.list [.int 1, .name "a"])) ∧
      readProduction .constMap 1 "\x7b1 :2\x7d".toList =
        .ok ([], .constant (.map [(.int 1, .int 2)])) ∧
      ∃ diagnosis,
        readProduction .enum 1 "enum E\x7bA,, B\x7d".toList = .error (.diagnosis diagnosis) ∧
          diagnosis.kind ≠ .nesting := by
  have blank : Filler [' '] := .blank rfl .nil
  have values : LaidOut IsConstant [] 0
      [⟨['1'], .int 1, [',', ' '], 1⟩, ⟨['a'], .name "a", [';'], 1⟩] :=
    { lead := .filler .nil
      reads := by simpa using ⟨⟨0, rfl⟩, ⟨0, rfl⟩⟩
      joints := by
        simpa using ⟨.separator .nil (.inl rfl) (.filler blank),
          .separator .nil (.inr rfl) (.filler .nil)⟩
      apart := by simp }
  have entries : LaidOut IsEntry [] 0 [⟨['1', ' ', ':', '2'], (.int 1, .int 2), [], 0⟩] :=
    { lead := .filler .nil
      reads := by
        simpa using ⟨['1'], [' '], [], ['2'], rfl, ⟨0, rfl⟩, blank, .nil, ⟨0, rfl⟩⟩
      joints := by simpa using .filler .nil
      apart := by simp }
  have members : LaidOut IsEnumValue [] 0
      [⟨['A'], ⟨"A", none, ()⟩, [',', ',', ' '], 2⟩, ⟨['B'], ⟨"B", none, ()⟩, [], 0⟩] :=
    { lead := .filler .nil
      reads := by simpa using ⟨⟨0, _, rfl, rfl⟩, ⟨0, _, rfl, rfl⟩⟩
      joints := by
        simpa using ⟨.separator .nil (.inl rfl) (.separator .nil (.inl rfl) (.filler blank)),
          .filler .nil⟩
      apart := by simp }
  obtain ⟨list, map, enum⟩ := readProduction_laidOut 1 [] [] 0
  obtain ⟨_, read, rfl⟩ := (list _ values (by decide)).1 (by simp [InOrder])
  obtain ⟨_, read', rfl⟩ := (map _ entries (by decide)).1 (by simp [InOrder])
  have diagnosed :=
    (enum [' '] ['E'] [] _ blank (by simp) (by decide) .nil members).2 (by simp [InOrder])
  exact ⟨read, read', diagnosed⟩

end Productions
end ThriftIdl
