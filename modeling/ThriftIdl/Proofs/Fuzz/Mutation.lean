import ThriftIdl.Fuzz.Mutation
import ThriftIdl.Proofs.Fuzz.Generator

/-!
# Mutations never fail

A draw is impossible if there is no number between its bounds, or nothing to choose from; a use of
what was drawn is impossible if there is no character at a place, or none with a code. Mutations are
written here with all of this checked (`Attempt`), over whole numbers that may be negative, and they
are seen to be what they are without the checks, whatever the numbers are (`makes_mutate`). Main
statement: `mutate_never_fails`.
-/
namespace ThriftIdl.Fuzz

/-- What is impossible. -/
inductive Mishap where
  /-- There is no number between the bounds. -/
  | noNumber (low high : Int)
  /-- There is nothing to choose from. -/
  | noChoice
  /-- A text has no character at a place. -/
  | noPlace (place : Int)
  /-- No character has a code: it is too large or one half of a pair. -/
  | noCharacter (code : Nat)
deriving DecidableEq, Repr

/-- Draws that may be impossible. -/
abbrev Attempt := StateT Draws (Except Mishap)

namespace Attempt

variable {α β γ δ : Type}

/-! ### Mutations with checks -/

/-- A draw that cannot fail. -/
def certain (draw : Draw α) : Attempt α := fun draws => .ok (draw.run draws)

/-- A number between two bounds, if there is one. -/
def between (low high : Int) : Attempt Int :=
  if low ≤ high then do
    let above ← certain (Draw.upTo (high - low).toNat)
    return low + (above.val : Int)
  else throw (.noNumber low high)

/-- One of several things, if there are any. -/
def oneOf (things : List α) : Attempt α :=
  if some : 0 < things.length then certain (Draw.oneOf things some) else throw .noChoice

/-- The character of a text at a place, if there is one. -/
def charAt (text : List Char) (place : Int) : Attempt Char :=
  match if 0 ≤ place then text[place.toNat]? else none with
  | some c => return c
  | none => throw (.noPlace place)

/-- The character with a code, if there is one. -/
def character (code : Nat) : Attempt Char :=
  if valid : code.isValidChar then return Char.ofNatAux code valid else throw (.noCharacter code)

/-- A list of a given number of things. -/
def times : Nat → Attempt α → Attempt (List α)
  | 0, _ => return []
  | count + 1, attempt => do
    let first ← attempt
    let rest ← times count attempt
    return first :: rest

/-- A name. -/
def name : Attempt String := do
  if ← certain (Draw.chance 700) then oneOf commonNames
  else
    let size ← between 1 20
    let first ← oneOf letters
    let rest ← times (size - 1).toNat (oneOf nameChars)
    return String.ofList (first :: rest)

/-- An integer. -/
def integer : Attempt String := do
  if ← certain (Draw.chance 800) then
    let value ← between (-1000) 1000
    return String.ofList (Text.integer value)
  else oneOf ["0", "-0", "+7", "9223372036854775807", "-9223372036854775808"]

/-- A number. -/
def number : Attempt String := do
  if ← certain (Draw.chance 500) then integer
  else if ← certain (Draw.chance 500) then
    let (negative, magnitude) ← certain withinHundred
    return String.ofList (placesText negative magnitude)
  else oneOf ["0.0", ".5", "-.5", "1e10", "1.5E-3", "+2.0e+2"]

/-- Insert a token or blanks. -/
def insertToken (text : List Char) : Attempt (List Char) := do
  let offset ← between 0 text.length
  let keyword ← oneOf Keyword.structural
  let punctuation ← oneOf [",", ";", ":", "=", "<", ">", "*"]
  let bracket ← oneOf ["(", ")", "[", "]", "\x7b", "\x7d"]
  let comment ← oneOf ["// note\n", "# note\n", "/* note */", "/**/"]
  let name ← name
  let number ← number
  let blanks ← between 1 5
  let insertion ← oneOf [
    keyword.text, punctuation, bracket, comment, name, number,
    String.ofList (List.replicate blanks.toNat ' '), "\n", "\t"]
  return inserted text offset.toNat insertion.toList

/-- The bounds of a chunk of at most so many characters. -/
def chunk (text : List Char) (most : Int) : Attempt (Int × Int) := do
  let start ← between 0 (text.length - 1)
  let stop ← between (start + 1) (min (start + most) text.length)
  return (start, stop)

/-- Take a chunk of at most twenty characters away. -/
def deleteChunk (text : List Char) : Attempt (List Char) :=
  if text.length < 2 then return text
  else do
    let (start, stop) ← chunk text 20
    return text.take start.toNat ++ text.drop stop.toNat

/-- Repeat a chunk of at most ten characters up to five times. -/
def repeatChunk (text : List Char) : Attempt (List Char) :=
  if text.length < 2 then return text ++ text
  else do
    let (start, stop) ← chunk text 10
    let count ← between 1 5
    let repeated := (List.replicate count.toNat ((text.take stop.toNat).drop start.toNat)).flatten
    return text.take stop.toNat ++ repeated ++ text.drop stop.toNat

/-- Change a character. -/
def flipChar (text : List Char) : Attempt (List Char) :=
  if text = [] then return text
  else do
    let offset ← between 0 (text.length - 1)
    let c ← charAt text offset
    let mask ← between 1 127
    let changed ← character (c.toNat ^^^ mask.toNat)
    return text.take offset.toNat ++ [changed] ++ text.drop (offset.toNat + 1)

/-- Insert what is likely to do harm. -/
def insertSpecial (text : List Char) : Attempt (List Char) := do
  let offset ← between 0 text.length
  let special ← oneOf [
    ['\x00'], ['\xff'], ['\r', '\n'], ['\x0c'], ['α'], ['\x22'], ['\x27'], ['/', '*'],
    List.replicate 100 '[', (List.replicate 100 "list<".toList).flatten]
  return inserted text offset.toNat special

/-- Replace a number, as often as not, by one at a bound. -/
def replacePiece : Piece → Attempt (List Char)
  | .other c => return [c]
  | .number text => do
    if ← certain (Draw.chance 500) then
      return (← oneOf [
        "0", "-1", "1", "9223372036854775807", "-9223372036854775808", "9223372036854775808",
        "99999999999999999999999", "1e9999", "0.0000000001"]).toList
    else return text

/-- Replace numbers by others at a bound. -/
def boundaryNumbers (text : List Char) : Attempt (List Char) := do
  return (← (pieces 0 text).mapM replacePiece).flatten

/-- Change a text in a given way. -/
def apply (text : List Char) : Mutation → Attempt (List Char)
  | .insertToken => insertToken text
  | .deleteChunk => deleteChunk text
  | .swapHalves => return swapHalves text
  | .repeatChunk => repeatChunk text
  | .flipChar => flipChar text
  | .insertSpecial => insertSpecial text
  | .boundaryNumbers => boundaryNumbers text

/-- Change a text in a way drawn at random. -/
def mutate (text : List Char) : Attempt (List Char) := do
  let mutation ← oneOf Mutation.all
  apply text mutation

/-- Change a text several times. -/
def mutateTimes : Nat → List Char → Attempt (List Char)
  | 0, text => return text
  | count + 1, text => do mutateTimes count (← mutate text)

/-! ### What never fails -/

variable {attempt : Attempt β} {draw : Draw α} {view : α → β} {next : β → Attempt δ}
  {next' : α → Draw γ} {view' : γ → δ}

/-- An attempt never fails, whatever the numbers are, and gives what is drawn, as it is seen. -/
def Makes (attempt : Attempt β) (draw : Draw α) (view : α → β) : Prop :=
  ∀ draws, attempt.run draws = .ok (view (draw.run draws).1, (draw.run draws).2)

/-- What is given without drawing is given. -/
theorem makes_pure (view : α → β) (thing : α) : Makes (pure (view thing)) (pure thing) view :=
  fun _ => rfl

/-- A certain draw is made. -/
theorem makes_certain (draw : Draw α) : Makes (certain draw) draw id := fun _ => rfl

/-- What is made next may depend on what was made before. -/
theorem Makes.bind (first : Makes attempt draw view)
    (second : ∀ thing, Makes (next (view thing)) (next' thing) view') :
    Makes (attempt >>= next) (draw >>= next') view' := by
  intro draws
  rw [StateT.run_bind, first draws]
  exact second (draw.run draws).1 (draw.run draws).2

/-- Of two draws, the one that is taken is made. -/
theorem Makes.ite {decision : Prop} [Decidable decision] {attempt' : Attempt β} {draw' : Draw α}
    (first : decision → Makes attempt draw view) (second : ¬ decision → Makes attempt' draw' view) :
    Makes (if decision then attempt else attempt') (if decision then draw else draw') view := by
  by_cases taken : decision
  · rw [if_pos taken, if_pos taken]
    exact first taken
  · rw [if_neg taken, if_neg taken]
    exact second taken

/-- A number is drawn between bounds that are in order. -/
theorem makes_between_add (low : Int) (most : Nat) :
    Makes (between low (low + most)) (Draw.upTo most) fun above => low + (above.val : Int) := by
  have distance : (low + most - low).toNat = most := by omega
  rw [between, if_pos (by omega), distance]
  intro draws
  rfl

/-- A number is drawn from nought on. -/
theorem makes_upTo (most : Nat) :
    Makes (between 0 most) (Draw.upTo most) fun above => (above.val : Int) := by
  simpa using makes_between_add 0 most

/-- A number is drawn between bounds that are in order and not negative. -/
theorem makes_between {low high : Nat} (ordered : low ≤ high) :
    Makes (between low high) (Draw.between low high ordered) fun n => (n.val : Int) := by
  intro draws
  have made := makes_between_add low (high - low) draws
  rw [show (low : Int) + (high - low : Nat) = high by omega] at made
  exact made

/-- One of several things is chosen, where there are any. -/
theorem makes_oneOf {things : List α} {some : 0 < things.length} :
    Makes (oneOf things) (Draw.oneOf things some) id := by
  rw [oneOf, dif_pos some]
  exact makes_certain _

/-- A text has a character at each place before its end. -/
theorem charAt_eq {text : List Char} {place : Nat} (within : place < text.length) :
    charAt text place = pure text[place] := by
  rw [charAt, if_pos (by omega), Int.toNat_natCast, List.getElem?_eq_getElem within]

/-- There is a character with the code of a character in which low bits are turned. -/
theorem character_xor {mask : Nat} (low : mask < 128) (c : Char) :
    character (c.toNat ^^^ mask) = pure (flipped mask c) := by
  have code := flipped_toNat low c
  have valid : (c.toNat ^^^ mask).isValidChar := code ▸ (flipped mask c).valid
  rw [character, dif_pos valid]
  exact congrArg pure (Char.toNat_inj.1 code.symm)

/-- Things that never fail one by one do not fail in a list. -/
theorem makes_times (each : Makes attempt draw view) (count : Nat) :
    Makes (times count attempt) (Draw.times count draw) (List.map view) := by
  induction count with
  | zero => exact makes_pure (List.map view) []
  | succ count ih =>
    exact each.bind fun first => ih.bind fun rest => makes_pure (List.map view) (first :: rest)

/-- A list is gone through without a failure if that can be done with each member. -/
theorem makes_mapM {things : List δ} {attempt : δ → Attempt β} {draw : δ → Draw α}
    (each : ∀ thing, Makes (attempt thing) (draw thing) view) :
    Makes (things.mapM attempt) (things.mapM draw) (List.map view) := by
  induction things with
  | nil => exact makes_pure (List.map view) []
  | cons thing things ih =>
    rw [List.mapM_cons, List.mapM_cons]
    exact (each thing).bind fun first => ih.bind fun rest => makes_pure (List.map view) (first :: rest)

/-! ### Mutations never fail -/

/-- Names never fail. -/
theorem makes_name : Makes name Fuzz.name id := by
  refine (makes_certain _).bind fun common => .ite (fun _ => makes_oneOf) fun _ => ?_
  refine (makes_between (by decide)).bind fun size => makes_oneOf.bind fun first => ?_
  have count : ((size.val : Int) - 1).toNat = size.val - 1 := by omega
  rw [count]
  refine (makes_times makes_oneOf _).bind fun rest => ?_
  rw [List.map_id]
  exact makes_pure id _

/-- Integers never fail. -/
theorem makes_integer : Makes integer Fuzz.integer id := by
  refine (makes_certain _).bind fun small => .ite (fun _ => ?_) fun _ => makes_oneOf
  refine (makes_between_add (-1000) 2000).bind fun above => ?_
  rw [Int.add_comm]
  exact makes_pure id _

/-- Numbers never fail. -/
theorem makes_number : Makes number Fuzz.number id := by
  refine (makes_certain _).bind fun whole => .ite (fun _ => makes_integer) fun _ => ?_
  refine (makes_certain _).bind fun small => .ite (fun _ => ?_) fun _ => makes_oneOf
  exact (makes_certain _).bind fun found => makes_pure id _

/-- A token can be inserted in every text. -/
theorem makes_insertToken (text : List Char) : Makes (insertToken text) (Fuzz.insertToken text) id := by
  refine (makes_upTo _).bind fun offset => makes_oneOf.bind fun keyword => ?_
  refine makes_oneOf.bind fun punctuation => makes_oneOf.bind fun bracket => ?_
  refine makes_oneOf.bind fun comment => makes_name.bind fun name => makes_number.bind fun number => ?_
  exact (makes_between (by decide)).bind fun blanks => makes_oneOf.bind fun insertion => makes_pure id _

/-- The bounds of a chunk can be drawn in a text of two or more characters. -/
theorem makes_chunk {text : List Char} {most : Nat} (long : 2 ≤ text.length) (some : 0 < most) :
    Makes (chunk text most) (Fuzz.chunk text most long some)
      fun bounds => ((bounds.1 : Int), (bounds.2 : Int)) := by
  have last : ((text.length : Int) - 1) = (text.length - 1 : Nat) := by omega
  rw [chunk, last]
  refine (makes_upTo _).bind fun ⟨start, bound⟩ => ?_
  have above : (start : Int) + 1 = (start + 1 : Nat) := by omega
  have below : min ((start : Int) + most) text.length = (min (start + most) text.length : Nat) := by omega
  simp only [above, below]
  exact (makes_between (by omega)).bind fun stop => makes_pure (fun bounds : Nat × Nat => _) _

/-- A chunk can be taken away from every text. -/
theorem makes_deleteChunk (text : List Char) : Makes (deleteChunk text) (Fuzz.deleteChunk text) id := by
  by_cases long : 2 ≤ text.length
  · rw [deleteChunk, Fuzz.deleteChunk, if_neg (by omega), dif_pos long]
    exact (makes_chunk long (by decide)).bind fun bounds => makes_pure id _
  · rw [deleteChunk, Fuzz.deleteChunk, if_pos (by omega), dif_neg long]
    exact makes_pure id _

/-- A chunk of every text can be repeated. -/
theorem makes_repeatChunk (text : List Char) : Makes (repeatChunk text) (Fuzz.repeatChunk text) id := by
  by_cases long : 2 ≤ text.length
  · rw [repeatChunk, Fuzz.repeatChunk, if_neg (by omega), dif_pos long]
    refine (makes_chunk long (by decide)).bind fun bounds => ?_
    exact (makes_between (by decide)).bind fun count => makes_pure id _
  · rw [repeatChunk, Fuzz.repeatChunk, if_pos (by omega), dif_neg long]
    exact makes_pure id _

/-- A character of every text can be changed. -/
theorem makes_flipChar (text : List Char) : Makes (flipChar text) (Fuzz.flipChar text) id := by
  cases text with
  | nil => exact makes_pure id []
  | cons c rest =>
    have last : (((c :: rest).length : Int) - 1) = rest.length := by simp
    rw [flipChar, if_neg (by simp), last]
    refine (makes_upTo _).bind fun ⟨offset, bound⟩ => ?_
    have within : offset < (c :: rest).length := Nat.lt_succ_of_le bound
    simp only [charAt_eq within, pure_bind]
    refine (makes_between (by decide)).bind fun ⟨mask, _, low⟩ => ?_
    simp only [Int.toNat_natCast, character_xor (Nat.lt_succ_of_le low), pure_bind]
    have changed : (c :: rest).take offset ++ [flipped mask (c :: rest)[offset]] ++
        (c :: rest).drop (offset + 1) = (c :: rest).modify offset (flipped mask) := by
      rw [List.modify_eq_take_cons_drop within, List.append_assoc]
      rfl
    rw [changed]
    exact makes_pure id _

/-- What is likely to do harm can be inserted in every text. -/
theorem makes_insertSpecial (text : List Char) : Makes (insertSpecial text) (Fuzz.insertSpecial text) id :=
  (makes_upTo _).bind fun _ => makes_oneOf.bind fun _ => makes_pure id _

/-- Every piece of a text can be replaced. -/
theorem makes_replacePiece (piece : Piece) : Makes (replacePiece piece) (Fuzz.replacePiece piece) id := by
  cases piece with
  | other c => exact makes_pure id _
  | number text =>
    refine (makes_certain _).bind fun replaced => .ite (fun _ => ?_) fun _ => makes_pure id _
    exact makes_oneOf.bind fun number => makes_pure id _

/-- The numbers of every text can be replaced. -/
theorem makes_boundaryNumbers (text : List Char) :
    Makes (boundaryNumbers text) (Fuzz.boundaryNumbers text) id := by
  refine (makes_mapM makes_replacePiece).bind fun replaced => ?_
  rw [List.map_id]
  exact makes_pure id _

/-- Every text can be changed in every way. -/
theorem makes_apply (text : List Char) (mutation : Mutation) :
    Makes (apply text mutation) (mutation.apply text) id := by
  cases mutation with
  | insertToken => exact makes_insertToken text
  | deleteChunk => exact makes_deleteChunk text
  | swapHalves => exact makes_pure id _
  | repeatChunk => exact makes_repeatChunk text
  | flipChar => exact makes_flipChar text
  | insertSpecial => exact makes_insertSpecial text
  | boundaryNumbers => exact makes_boundaryNumbers text

/-- Every text can be changed. -/
theorem makes_mutate (text : List Char) : Makes (mutate text) (Fuzz.mutate text) id :=
  makes_oneOf.bind fun mutation => makes_apply text mutation

/-- Every text can be changed any number of times. -/
theorem makes_mutateTimes (count : Nat) (text : List Char) :
    Makes (mutateTimes count text) (Fuzz.mutateTimes count text) id := by
  induction count generalizing text with
  | zero => exact makes_pure id text
  | succ count ih => exact (makes_mutate text).bind ih

end Attempt

section Yielded

open Draw Text

variable {text : List Char}

/-- A chunk has a character at least, and as many at most as it may have. -/
theorem yields_chunk {most : Nat} (long : 2 ≤ text.length) (some : 0 < most) :
    Yields (chunk text most long some) fun bounds =>
      bounds.1 < bounds.2 ∧ bounds.2 ≤ bounds.1 + most ∧ bounds.2 ≤ text.length := by
  refine .after _ fun ⟨start, bound⟩ => .after _ fun ⟨stop, low, high⟩ => .pure ?_
  exact ⟨low, high.trans (Nat.min_le_left _ _), high.trans (Nat.min_le_right _ _)⟩

/-- A chunk of up to twenty characters is taken away. -/
theorem yields_deleteChunk (long : 2 ≤ text.length) :
    Yields (deleteChunk text) fun left => ∃ before chunk after, text = before ++ chunk ++ after ∧
      chunk ≠ [] ∧ chunk.length ≤ 20 ∧ left = before ++ after := by
  rw [deleteChunk, dif_pos long]
  refine (yields_chunk long (by decide)).bind fun ⟨start, stop⟩ ⟨ordered, short, within⟩ => .pure ?_
  have size : ((text.take stop).drop start).length = stop - start := by
    rw [List.length_drop, List.length_take, Nat.min_eq_left within]
  refine ⟨text.take start, (text.take stop).drop start, text.drop stop, ?_, ?_, by omega, rfl⟩
  · have front : text.take start = (text.take stop).take start := by
      rw [List.take_take, Nat.min_eq_left (by omega)]
    rw [front, List.take_append_drop, List.take_append_drop]
  · exact List.length_pos_iff.1 (by omega)

/-- Swapping the halves changes the order of the characters only. -/
theorem swapHalves_perm (text : List Char) : (swapHalves text).Perm text := by
  rw [swapHalves]
  split
  · exact .refl text
  · exact List.perm_append_comm.trans (.of_eq (List.take_append_drop _ text))

/-- Swapping halves of one length once more gives the text back. -/
theorem swapHalves_swapHalves (even : Even text.length ∨ text.length < 4) :
    swapHalves (swapHalves text) = text := by
  by_cases short : text.length < 4
  · rw [swapHalves.eq_1 text, if_pos short, swapHalves, if_pos short]
  · obtain ⟨half, size⟩ := even.resolve_right short
    have middle : text.length / 2 = half := by omega
    have back : (text.drop half).length = half := by rw [List.length_drop]; omega
    have whole : (text.drop half ++ text.take half).length = text.length := by
      rw [List.length_append, List.length_drop, List.length_take]; omega
    rw [swapHalves.eq_1 text, if_neg short, middle, swapHalves, whole, if_neg short, middle,
      List.drop_left' back, List.take_left' back, List.take_append_drop]

/-- A text is another one with something inserted between two parts of it. -/
def HasInserted (text longer : List Char) : Prop :=
  ∃ before insertion after, text = before ++ after ∧ insertion ≠ [] ∧
    longer = before ++ insertion ++ after

/-- What is inserted at an offset stands between two parts of the text. -/
theorem hasInserted (offset : Nat) {insertion : List Char} (some : insertion ≠ []) :
    HasInserted text (inserted text offset insertion) :=
  ⟨_, _, _, (List.take_append_drop offset text).symm, some, rfl⟩

/-- A number is not empty. -/
theorem IsNumeral.ne_nil (isNumeral : IsNumeral text) : text ≠ [] := by
  rcases isNumeral with ⟨⟨sign, digits, rfl, -, some, -⟩, -⟩ | whole
  · exact List.append_ne_nil_of_right_ne_nil _ some
  · exact (whole.before closed_nil).ne_nil

/-- A token or blanks are inserted between two parts of a text. -/
theorem yields_insertToken (text : List Char) : Yields (insertToken text) (HasInserted text) := by
  have keywords : ∀ keyword ∈ Keyword.structural, keyword.text.toList ≠ [] := by decide
  have marks : ∀ mark ∈ [",", ";", ":", "=", "<", ">", "*"], mark.toList ≠ [] := by decide
  have brackets : ∀ bracket ∈ ["(", ")", "[", "]", "\x7b", "\x7d"], bracket.toList ≠ [] := by decide
  have comments : ∀ comment ∈ ["// note\n", "# note\n", "/* note */", "/**/"], comment.toList ≠ [] := by
    decide
  refine .after _ fun offset => (yields_oneOf keywords).bind fun keyword keyword_some => ?_
  refine (yields_oneOf marks).bind fun mark mark_some => ?_
  refine (yields_oneOf brackets).bind fun bracket bracket_some => ?_
  refine (yields_oneOf comments).bind fun comment comment_some => ?_
  refine yields_name.bind fun name isName => yields_number.bind fun number isNumeral => ?_
  refine .after _ fun ⟨blanks, positive, _⟩ => ?_
  have each : ∀ insertion ∈ [keyword.text, mark, bracket, comment, name, number,
      String.ofList (List.replicate blanks ' '), "\n", "\t"], insertion.toList ≠ [] := by
    obtain ⟨first, rest, name_eq, -⟩ := isName.exists_cons
    simp only [List.forall_mem_cons, name_eq]
    refine ⟨keyword_some, mark_some, bracket_some, comment_some, List.cons_ne_nil _ _,
      isNumeral.ne_nil, ?_,
      by decide, by decide, fun _ none => by cases none⟩
    rw [String.toList_ofList, Ne, List.replicate_eq_nil_iff]
    exact Nat.ne_of_gt positive
  exact (yields_oneOf each).bind fun insertion insertion_some => .pure (hasInserted _ insertion_some)

/-- What is likely to do harm is inserted between two parts of a text. -/
theorem yields_insertSpecial (text : List Char) : Yields (insertSpecial text) (HasInserted text) := by
  refine .after _ fun offset => ?_
  refine (@yields_oneOf _ (· ≠ []) _ _ (by decide)).bind fun special special_some => ?_
  exact .pure (hasInserted _ special_some)

end Yielded

/-- Every text can be changed, once or any number of times, whatever the numbers are: each number is
drawn between bounds that are in order, each choice is one of some things, each place is one of the text,
and each code is one of a character. A chunk of up to twenty characters is taken away, halves are swapped
without a loss, and what is inserted stands between two parts of the text. -/
theorem mutate_never_fails (text : List Char) :
    (∀ draws, (Attempt.mutate text).run draws = .ok ((mutate text).run draws)) ∧
    (∀ count draws,
      (Attempt.mutateTimes count text).run draws = .ok ((mutateTimes count text).run draws)) ∧
    (2 ≤ text.length → (deleteChunk text).Yields fun left => ∃ before chunk after,
      text = before ++ chunk ++ after ∧ chunk ≠ [] ∧ chunk.length ≤ 20 ∧ left = before ++ after) ∧
    (swapHalves text).Perm text ∧
    (Even text.length ∨ text.length < 4 → swapHalves (swapHalves text) = text) ∧
    (insertToken text).Yields (HasInserted text) ∧ (insertSpecial text).Yields (HasInserted text) :=
  ⟨Attempt.makes_mutate text, fun count => Attempt.makes_mutateTimes count text, yields_deleteChunk,
    swapHalves_perm text, swapHalves_swapHalves, yields_insertToken text, yields_insertSpecial text⟩

/-- Of a text of four characters, a chunk is taken away and the halves are swapped. -/
theorem mutate_never_fails_four :
    ((deleteChunk "a1-2".toList).Yields fun left => ∃ before chunk after,
      "a1-2".toList = before ++ chunk ++ after ∧ chunk ≠ [] ∧ chunk.length ≤ 20 ∧
        left = before ++ after) ∧
    swapHalves (swapHalves "a1-2".toList) = "a1-2".toList :=
  ⟨(mutate_never_fails "a1-2".toList).2.2.1 (by decide),
    (mutate_never_fails "a1-2".toList).2.2.2.2.1 (.inl (by decide))⟩

end ThriftIdl.Fuzz
