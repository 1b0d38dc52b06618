import ThriftIdl.Proofs.Reader.Productions
import ThriftIdl.Proofs.SoftStop

/-!
# Where the nodes of a document lie

The position of a node leads to the place in the text where the node lies: the place is inside what was
consumed, and the production of the node gives an equal node there, whatever stands before. In each list
of a document, and of each of its declarations, the nodes follow each other
(`SoftStop.faithful_of_readDefinitions`).
-/
namespace ThriftIdl

variable {limit : Int} {source : List Char} {stop : SoftStop}

/-- A node of a document that is found again in a text, in the part of it that was consumed. -/
structure Node.Found (limit : Int) (source consumed : List Char) (node : Node Position) : Prop where
  /-- The position of the node lies inside what was consumed. -/
  inside : (LineTable.ofText source).offset node.place < consumed.length
  /-- It is the position of the offset to which it leads. -/
  position : (LineTable.ofText source).position ((LineTable.ofText source).offset node.place) =
    node.place
  /-- The production of the node gives an equal node there. -/
  again : ∃ rest reading, readProduction node.production limit
      (source.drop ((LineTable.ofText source).offset node.place)) = .ok (rest, reading) ∧
    reading.map content = node.reading.map content

/-- The positions in the document that is read from a text are those of its nodes. -/
structure SoftStop.Faithful (limit : Int) (source consumed : List Char) (stop : SoftStop) : Prop where
  /-- What is consumed and what is left make up the text. -/
  parts : source = consumed ++ stop.rest
  /-- Each node is found at its position. -/
  found : ∀ node ∈ stop.document.nodes, node.Found limit source consumed
  /-- In each list the nodes follow each other. -/
  follow : ∀ row ∈ stop.document.rows, (row.map (LineTable.ofText source).offset).Pairwise (· < ·)

/-- What is read on an end of a text is given by its production there. -/
theorem Node.ReadIn.exists_readProduction {node : Node Nat} (read : node.ReadIn limit.toNat source) :
    ∃ rest reading, readProduction node.production limit
        (source.drop (source.length - node.place)) = .ok (rest, reading) ∧
      reading.map content = node.reading.map content := by
  obtain ⟨text, rest, suffix, place, noted, given⟩ := read
  obtain rfl : text = source.drop (source.length - node.place) :=
    place ▸ List.suffix_iff_eq_drop.1 suffix
  exact ⟨rest, _, by rw [readProduction, given], Reading.map_map _ _ _⟩

/-- A node that is read in a text is found again at its position. -/
theorem Node.ReadIn.found {node : Node Nat} (read : node.ReadIn limit.toNat source)
    {consumed rest : List Char} (parts : source = consumed ++ rest) (inside : rest.length < node.place) :
    (node.map (positionIn source 0)).Found limit source consumed := by
  have fewer := read.place_le
  have offset : (LineTable.ofText source).offset (node.map (positionIn source 0)).place =
      source.length - node.place := by
    rw [Node.place_map]
    exact offset_positionIn (Nat.zero_le _) fewer
  obtain ⟨left, reading, again, same⟩ := read.exists_readProduction
  have length := congrArg List.length parts
  rw [List.length_append] at length
  refine ⟨by omega, ?_, left, reading, ?_, ?_⟩
  · rw [offset, Node.place_map]
    exact (positionIn_eq_position (Nat.zero_le _) fewer).symm
  · rw [offset, Node.production_map, again]
  · rw [same, Node.reading_map, Reading.map_map]
    rfl

/-- Wherever reading definitions stops, the positions in the document are those of its nodes. -/
theorem SoftStop.faithful_of_readDefinitions (read : readDefinitions limit source = .ok stop) :
    ∃ consumed, stop.Faithful limit source consumed := by
  obtain ⟨document, rest, noted⟩ := stop
  obtain ⟨definitions, given, rfl⟩ := exists_readDefinitions_iff.1 ⟨noted, read⟩
  obtain ⟨consumed, parts, -, placed⟩ := Reader.exists_gives_consumed given
  obtain ⟨lexemes, after, lexes, spelled, -⟩ := Reader.spelled_definitions given
  obtain ⟨-, -, reads⟩ := (Reader.confined_document limit.toNat).of_gives List.suffix_rfl
    (given.map Document.ofDefinitions)
  refine ⟨consumed, parts, ?_, ?_⟩
  · rw [Document.nodes_map]
    refine List.forall_mem_map.2 fun node mem => ?_
    exact (reads node mem).found parts (Document.placed_iff.1 placed node mem).1
  · rw [Document.rows_map]
    refine List.forall_mem_map.2 fun row mem => ?_
    have among := spelled.rows row mem
    have fewer : ∀ place ∈ row, place ≤ source.length := by
      intro place mem
      obtain ⟨lexeme, within, rfl⟩ := List.mem_map.1 (among.subset mem)
      exact (lexes.left_bounds lexeme within).2
    have offset : ∀ place ∈ row,
        (LineTable.ofText source).offset (positionIn source 0 place) = source.length - place :=
      fun place mem => offset_positionIn (Nat.zero_le _) (fewer place mem)
    rw [List.map_map, List.pairwise_map]
    refine (lexes.falling.sublist among).imp_of_mem fun {place later} mem mem' less => ?_
    have inside := fewer place mem
    rw [Function.comp_apply, Function.comp_apply, offset place mem, offset later mem']
    omega

/-- The nodes of a service lie where their positions say, on two lines. -/
theorem SoftStop.faithful_of_readDefinitions_service : ∃ stop consumed,
    readDefinitions 1 "service S \x7b\n  void f(1: i8 a, i8 b) throws (i8 c);\n\x7d ?".toList = .ok stop ∧
      stop.document.nodes.map Node.place = [⟨1, 1⟩, ⟨2, 3⟩, ⟨2, 10⟩, ⟨2, 19⟩, ⟨2, 33⟩] ∧
      stop.Faithful 1 "service S \x7b\n  void f(1: i8 a, i8 b) throws (i8 c);\n\x7d ?".toList consumed := by
  have places : (readDefinitions 1
      "service S \x7b\n  void f(1: i8 a, i8 b) throws (i8 c);\n\x7d ?".toList).toOption.map
        (fun stop => stop.document.nodes.map Node.place) =
      some [⟨1, 1⟩, ⟨2, 3⟩, ⟨2, 10⟩, ⟨2, 19⟩, ⟨2, 33⟩] := by
    decide +kernel
  cases read : readDefinitions 1
      "service S \x7b\n  void f(1: i8 a, i8 b) throws (i8 c);\n\x7d ?".toList with
  | error diagnosis =>
    rw [read] at places
    cases places
  | ok stop =>
    rw [read] at places
    obtain ⟨consumed, faithful⟩ := faithful_of_readDefinitions read
    exact ⟨stop, consumed, rfl, Option.some.inj places, faithful⟩

end ThriftIdl
