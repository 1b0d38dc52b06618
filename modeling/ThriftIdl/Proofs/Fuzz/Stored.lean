import ThriftIdl.Fuzz.Finding
import Mathlib.Data.List.Basic

/-!
# Where findings are stored

A finding is stored in the folder of the findings under a name that is made of its kind, of the time
and of eight digits of the digest of its input. Every time that is written in digits makes a name that
can be stored (`Finding.storedName?_eq`), and whatever the times are, equal names have equal digits of
digests (`Finding.digest_eq_of_fileName_eq`).
-/
namespace ThriftIdl

/-! ### Digests -/

namespace Digest

/-- A digest has sixteen bytes. -/
theorem digest_length (message : List UInt8) : (digest message).length = 16 := by
  simp only [digest, List.flatMap_cons, List.flatMap_nil, List.length_append, littleEndian_length,
    List.length_nil]

/-- A digest has thirty-two hexadecimal digits. -/
theorem hexDigest_length (text : String) : (hexDigest text).toList.length = 32 := by
  have two : ∀ bytes : List UInt8, (bytes.flatMap hexByte).length = 2 * bytes.length := fun bytes => by
    induction bytes with
    | nil => rfl
    | cons byte bytes ih =>
      rw [List.flatMap_cons, List.length_append, ih, List.length_cons]
      simp only [hexByte, List.length_cons, List.length_nil]
      omega
  rw [hexDigest, String.toList_ofList, two, digest_length]

/-- The digits of a digest are hexadecimal. -/
theorem mem_hexDigest {text : String} {c : Char} (mem : c ∈ (hexDigest text).toList) :
    ∃ digit < 16, c = Nat.digitChar digit := by
  rw [hexDigest, String.toList_ofList, List.mem_flatMap] at mem
  obtain ⟨byte, -, mem⟩ := mem
  have small : byte.toNat < 256 := byte.toNat_lt
  simp only [hexByte, List.mem_cons, List.not_mem_nil, or_false] at mem
  obtain rfl | rfl := mem
  · exact ⟨byte.toNat / 16, by omega, rfl⟩
  · exact ⟨byte.toNat % 16, by omega, rfl⟩

end Digest

/-! ### Paths of one name -/

/-- A text without slashes is one name. -/
theorem segments_of_not_mem {text : List Char} (plain : '/' ∉ text) : segments text = [text] := by
  induction text with
  | nil => rfl
  | cons c text ih =>
    have other : c ≠ '/' := fun same => plain (same ▸ List.mem_cons_self)
    rw [segments, if_neg other, ih fun mem => plain (List.mem_cons_of_mem c mem)]

/-- A text without slashes is a path that starts in the folder. -/
theorem PathRoot.ofText_of_not_mem {text : List Char} (plain : '/' ∉ text) : ofText text = .here := by
  unfold ofText
  split <;> first | rfl | exact absurd List.mem_cons_self plain

/-- The name of a file: it leads on, and no character in it has a meaning in paths. -/
structure IsFileName (name : List Char) : Prop where
  /-- It leads on. -/
  leads : leadsOn name = true
  /-- It has no slash in it. -/
  plain : '/' ∉ name
  /-- It has no null character in it. -/
  speakable : '\x00' ∉ name
  /-- It is not too long. -/
  short : byteLength name ≤ nameBound

/-- The name of a file is a path. -/
theorem IsFileName.path_eq {name : List Char} (is : IsFileName name) :
    Path.ofText name = ⟨.here, [name]⟩ := by
  rw [Path.ofText, PathRoot.ofText_of_not_mem is.plain, segments_of_not_mem is.plain,
    List.filter_cons_of_pos is.leads, List.filter_nil]

/-- The bytes of two texts in a row. -/
theorem byteLength_append (text more : List Char) :
    byteLength (text ++ more) = byteLength text + byteLength more := by
  rw [byteLength, String.ofList_append, String.utf8ByteSize_append]
  rfl

/-- A character has at most four bytes. -/
theorem byteLength_le (text : List Char) : byteLength text ≤ 4 * text.length := by
  induction text with
  | nil => exact Nat.le_refl 0
  | cons c text ih =>
    have few : c.utf8Size ≤ 4 := c.utf8Size_le_four
    have first : byteLength [c] = c.utf8Size := String.utf8ByteSize_singleton
    rw [← List.singleton_append, byteLength_append, first, List.length_append, List.length_singleton]
    omega

namespace Fuzz

/-! ### Names of findings -/

/-- The digits that tell an input from others. -/
def digestOf (input : List Char) : String :=
  ((Digest.hexDigest (String.ofList input)).take 8).toString

/-- The digits of a finding are those of its input. -/
theorem Finding.digest_eq (finding : Finding) : finding.digest = digestOf finding.input := rfl

/-- A time in digits, with marks between them. -/
structure IsStamp (time : String) : Prop where
  /-- There are not many of them. -/
  short : time.toList.length ≤ 15
  /-- There is nothing else in it. -/
  digits : ∀ c ∈ time.toList, Text.isDigit c = true ∨ c = '_'

namespace Finding

variable {finding finding' : Finding} {time time' : String}

/-- The digits of a finding are the first ones of the digest of its input. -/
theorem toList_digest (finding : Finding) :
    finding.digest.toList = (Digest.hexDigest (String.ofList finding.input)).toList.take 8 := by
  rw [digest, String.Slice.toString_eq, String.toList_copy_take]

/-- There are eight digits. -/
theorem digest_length (finding : Finding) : finding.digest.toList.length = 8 := by
  rw [toList_digest, List.length_take, Digest.hexDigest_length]
  rfl

/-- The name of a finding in one list of characters. -/
theorem toList_fileName (time : String) (finding : Finding) :
    (finding.fileName time).toList =
      (finding.category.toList ++ '_' :: time.toList ++ ['_']) ++
        (finding.digest.toList ++ ".txt".toList) := by
  simp [fileName]

/-- Findings whose files have one name, at whatever times, have the same digits. -/
theorem digest_eq_of_fileName_eq (same : finding.fileName time = finding'.fileName time') :
    finding.digest = finding'.digest := by
  have texts := congrArg String.toList same
  rw [toList_fileName, toList_fileName] at texts
  have tails : finding.digest.toList ++ ".txt".toList = finding'.digest.toList ++ ".txt".toList :=
    (List.append_inj' texts (by
      rw [List.length_append, List.length_append, digest_length, digest_length])).2
  exact String.toList_inj.1 (List.append_cancel_right tails)

/-- What is in the name of a finding. -/
theorem mem_fileName {c : Char} (stamp : IsStamp time) (mem : c ∈ (finding.fileName time).toList) :
    c ∈ finding.category.toList ∨ Text.isDigit c = true ∨ c = '_' ∨
      (∃ digit < 16, c = Nat.digitChar digit) ∨ c ∈ ".txt".toList := by
  rw [toList_fileName] at mem
  simp only [List.mem_append, List.mem_cons, List.not_mem_nil, or_false] at mem
  obtain ((kind | mark | stamped) | mark) | digits | ending := mem
  · exact .inl kind
  · exact .inr (.inr (.inl mark))
  · obtain digit | mark := stamp.digits c stamped
    · exact .inr (.inl digit)
    · exact .inr (.inr (.inl mark))
  · exact .inr (.inr (.inl mark))
  · have whole : c ∈ (Digest.hexDigest (String.ofList finding.input)).toList := by
      rw [toList_digest] at digits
      exact List.mem_of_mem_take digits
    exact .inr (.inr (.inr (.inl (Digest.mem_hexDigest whole))))
  · exact .inr (.inr (.inr (.inr ending)))

/-- A time in digits makes a name of every kind of finding that can be stored. -/
theorem isFileName (stamp : IsStamp time) (short : finding.category.toList.length ≤ 8)
    (plain : '/' ∉ finding.category.toList) (speakable : '\x00' ∉ finding.category.toList) :
    IsFileName (finding.fileName time).toList := by
  have length : (finding.fileName time).toList.length ≤ 37 := by
    have days := stamp.short
    rw [toList_fileName]
    simp only [List.length_append, List.length_cons, List.length_nil, digest_length]
    have ending : ".txt".toList.length = 4 := by decide
    omega
  have absent : ∀ c : Char, c ∉ finding.category.toList → Text.isDigit c = false → c ≠ '_' →
      (∀ digit < 16, c ≠ Nat.digitChar digit) → c ∉ ".txt".toList →
      c ∉ (finding.fileName time).toList := by
    intro c kind digit mark hex ending mem
    obtain mem | mem | mem | ⟨number, bound, mem⟩ | mem := mem_fileName stamp mem
    · exact kind mem
    · rw [digit] at mem
      cases mem
    · exact mark mem
    · exact hex number bound mem
    · exact ending mem
  refine ⟨?_, ?_, ?_, ?_⟩
  · have long : 2 ≤ (finding.fileName time).toList.length := by
      rw [toList_fileName]
      simp only [List.length_append, List.length_cons, List.length_nil, digest_length]
      omega
    unfold leadsOn
    generalize (finding.fileName time).toList = name at long
    match name, long with
    | _ :: _ :: _, _ => simp
  · exact absent '/' plain (by decide) (by decide) (by decide) (by decide)
  · exact absent '\x00' speakable (by decide) (by decide) (by decide) (by decide)
  · have bytes := byteLength_le (finding.fileName time).toList
    unfold nameBound
    omega

/-- A finding whose file has a name lies in the folder of the findings under that name. -/
theorem storedName?_of_isFileName (is : IsFileName (finding.fileName time).toList) :
    finding.storedName? time = some (finding.fileName time).toList := by
  have path : finding.path time =
      ⟨.here, [findingsFolder.toList, (finding.fileName time).toList]⟩ := by
    have folder : Path.ofText findingsFolder.toList = ⟨.here, [findingsFolder.toList]⟩ := by decide
    rw [Finding.path, folder, is.path_eq]
    rfl
  have text : (finding.path time).text =
      (findingsFolder.toList ++ ['/']) ++ (finding.fileName time).toList := by
    rw [path]
    simp [Path.text, PathRoot.text, List.intercalate]
  have obstacle : (finding.path time).obstacle? = none := by
    have named := is.short
    have null : '\x00' ∉ findingsFolder.toList ++ ['/'] := by decide
    have folder : byteLength (findingsFolder.toList ++ ['/']) = 14 := by decide
    have speakable : (finding.path time).text.contains '\x00' = false := by
      rw [text, List.contains_eq_mem, decide_eq_false_iff_not, List.mem_append]
      exact not_or.2 ⟨null, is.speakable⟩
    have short : ¬ pathBound < byteLength (finding.path time).text := by
      unfold nameBound at named
      unfold pathBound
      rw [text, byteLength_append, folder]
      omega
    rw [Path.obstacle?, speakable, if_neg Bool.false_ne_true, if_neg short]
  have folder : (Folder.mk [] [[findingsFolder.toList]]).follow (.within [])
      [findingsFolder.toList] = .ok (.within [findingsFolder.toList]) := by decide
  have seat : finding.seat time =
      .ok (.within [findingsFolder.toList], (finding.fileName time).toList) := by
    rw [Finding.seat, Folder.seat, obstacle, path]
    simp only [List.getLast?_cons_cons, List.getLast?_singleton, List.dropLast_cons_cons,
      List.dropLast_singleton, PathRoot.place]
    rw [folder]
    simp only [bind, Except.bind, if_neg (Nat.not_lt.2 is.short)]
    rfl
  rw [storedName?, seat]
  exact if_pos rfl

/-- There are two kinds of findings. -/
theorem category_eq {input : List Char} {verdict : Verdict}
    (found : verdict.finding? input = some finding) :
    finding.category = "peg_only" ∨ finding.category = "mismatch" := by
  cases verdict with
  | refused | disagreement | agreement => cases found
  | tokensOnly =>
    obtain rfl := Option.some.inj found
    exact .inl rfl
  | mismatch direct overTokens =>
    obtain rfl := Option.some.inj found
    exact .inr rfl

/-- A time in digits makes a name of every finding of a verdict, and its file lies under it in the
folder of the findings. -/
theorem storedName?_eq {input : List Char} {verdict : Verdict} (stamp : IsStamp time)
    (found : verdict.finding? input = some finding) :
    finding.storedName? time = some (finding.fileName time).toList := by
  apply storedName?_of_isFileName
  obtain kind | kind := category_eq found
  all_goals
    apply isFileName stamp
    all_goals
      rw [kind]
      decide

end Finding
end Fuzz
end ThriftIdl
