import ThriftIdl.Reader.Definition

/-!
# Reading a whole text

A text is read under a nesting limit, which may be any integer; a negative one allows as little
as nought. Reading stops softly, at the first place where no definition matches, with what is
left (`readDefinitions`), or strictly, with a diagnosis unless all of the text is consumed but
blanks and comments (`readStrictly`). The diagnosis is the best fault noted, if it lies beyond the
place where reading stopped or says more than that no definition begins there.
-/
namespace ThriftIdl

/-- The position of a place in a text that is read from an offset on; the place is told by the
number of characters left. -/
def positionIn (source : List Char) (start : Int) : Nat → Position :=
  let table := LineTable.ofText source
  fun left => table.position (Text.ending source start - left)

/-- What reading as many definitions as there are gives. -/
structure SoftStop where
  /-- The document of the definitions. -/
  document : Document Position
  /-- The text from the place on where reading stopped. -/
  rest : List Char
  /-- The best fault noted. -/
  noted : Option Fault

/-- Read definitions until none matches. Only nesting beyond the limit is a failure. -/
def readDefinitions (limit : Int) (source : List Char) : Except Raised SoftStop :=
  match Reader.document limit.toNat source with
  | .ok document rest noted => .ok ⟨document.map (positionIn source 0), rest, noted⟩
  | .fail failure _ _ => .error (.ofFault source limit 0 failure.head)

/-- The diagnosis at an offset where reading stopped: the best one so far, if its place is further
on, or is this one and its kind is specific; and else that a definition was expected. -/
def Diagnosis.ofRemainder (source : List Char) (limit : Int) (offset : Int)
    (furthest : Option Diagnosis) : Diagnosis :=
  let unexpected := ofFault source limit offset
    ⟨.definitionExpected (Text.excerptAt source offset), (Text.ending source offset - offset).toNat⟩
  match furthest with
  | none => unexpected
  | some best =>
    if offset < best.offset || (best.offset = offset && best.kind.isSpecific) then best
    else unexpected

/-- Read a text that consists of definitions. -/
def readStrictly (limit : Int) (source : List Char) : Except Raised (Document Position) :=
  match readDefinitions limit source with
  | .error raised => .error raised
  | .ok stop =>
    match Lexical.skipSeparator stop.rest with
    | .fail failure _ _ => .error (.ofFault source limit 0 failure.head)
    | .ok _ rest noted =>
      if rest.all Text.isBlank then .ok stop.document
      else
        .error (.diagnosis (.ofRemainder source limit (source.length - rest.length : Nat)
          ((Fault.best stop.noted noted).map (.ofFault source limit 0))))

/-- Whether something other than blanks is left. -/
def SoftStop.isPartial (stop : SoftStop) : Bool := !stop.rest.all Text.isBlank

end ThriftIdl
