import ThriftIdl.Failure
import ThriftIdl.Text.Utf8

/-!
# Files of a folder

A file is found by a path, which leads from the folder or from the root through names; empty names
and single points in it say nothing, and two points lead back. Outside of the folder nothing is
known but the folders around it. A file holds bytes, and its text is what they encode, with line
feeds as the only line ends.
-/
namespace ThriftIdl

/-- The names between the slashes of a text. -/
def segments : List Char → List (List Char)
  | [] => [[]]
  | c :: text =>
    if c = '/' then [] :: segments text
    else
      match segments text with
      | [] => [[c]]
      | segment :: rest => (c :: segment) :: rest

/-- Whether a name on a path leads somewhere else. -/
def leadsOn (segment : List Char) : Bool := segment ≠ [] && segment ≠ ['.']

/-- Where a path starts. -/
inductive PathRoot where
  /-- The folder. -/
  | here
  /-- The root of all folders. -/
  | root
  /-- The other root, which two slashes stand for. -/
  | double
deriving DecidableEq, Repr

/-- The slashes at the start of a path. -/
def PathRoot.text : PathRoot → List Char
  | .here => []
  | .root => ['/']
  | .double => ['/', '/']

/-- The start of a path: two slashes and no third stand for a root of their own. -/
def PathRoot.ofText : List Char → PathRoot
  | '/' :: '/' :: '/' :: _ => .root
  | '/' :: '/' :: _ => .double
  | '/' :: _ => .root
  | _ => .here

/-- A path to a file. -/
structure Path where
  /-- Where it starts. -/
  root : PathRoot
  /-- The names that it leads through. -/
  names : List (List Char)
deriving DecidableEq, Repr

namespace Path

/-- The path that a text stands for. -/
def ofText (text : List Char) : Path := ⟨.ofText text, (segments text).filter leadsOn⟩

/-- The text of a path; the folder itself is a single point. -/
def text (path : Path) : List Char :=
  if path.root = .here && path.names.isEmpty then ['.']
  else path.root.text ++ ['/'].intercalate path.names

/-- A path that goes on from where another leads, unless it starts at a root. -/
def join (path next : Path) : Path :=
  if next.root = .here then ⟨path.root, path.names ++ next.names⟩ else next

end Path

/-- What a path leads to. -/
inductive Entry where
  /-- A file with its bytes. -/
  | file (bytes : List UInt8)
  /-- Nothing. -/
  | missing
  /-- A folder. -/
  | folder
  /-- Something beyond a file, as if the file were a folder. -/
  | beyondFile
  /-- A name or a path that is longer than names and paths may be. -/
  | tooLong
  /-- A path with a null character in it. -/
  | unspeakable
deriving DecidableEq, Repr

/-- The number of bytes of a text. -/
def byteLength (text : List Char) : Nat := (String.ofList text).utf8ByteSize

/-- The greatest number of bytes of a name. -/
def nameBound : Nat := 255

/-- The greatest number of bytes of a path. -/
def pathBound : Nat := 4095

/-- What a path is said to lead to for its text alone. -/
def Path.obstacle? (path : Path) : Option Entry :=
  if path.text.contains '\x00' then some .unspeakable
  else if pathBound < byteLength path.text then some .tooLong
  else none

/-- A folder that a path has led to. -/
inductive Place where
  /-- A folder within the folder, by the names that lead back to it, the last one first. -/
  | within (names : List (List Char))
  /-- A folder around the folder, one level up or more. -/
  | above (more : Nat)
  /-- The root of all folders. -/
  | root
deriving DecidableEq, Repr

/-- The folder around a folder. The root has none but itself. -/
def Place.parent : Place → Place
  | .within [] => .above 0
  | .within (_ :: names) => .within names
  | .above more => .above (more + 1)
  | .root => .root

/-- The place where a path starts. -/
def PathRoot.place : PathRoot → Place
  | .here => .within []
  | .root | .double => .root

/-- The files in a folder and below it, by the names that lead to them. -/
structure Folder where
  /-- The names with the bytes. -/
  files : List (List (List Char) × List UInt8)
  /-- The names of folders that may be empty. -/
  folders : List (List (List Char))

namespace Folder

variable (folder : Folder)

/-- Whether there is a folder at the end of some names. -/
def hasFolder (names : List (List Char)) : Bool :=
  folder.folders.contains names || folder.files.any fun file => names.isPrefixOf file.1

/-- The folder that some names lead to from a place on, or what they lead to instead. -/
def follow (place : Place) : List (List Char) → Except Entry Place
  | [] => .ok place
  | ['.', '.'] :: names => follow place.parent names
  | name :: names =>
    if nameBound < byteLength name then .error .tooLong
    else
      match place with
      | .above _ | .root => .error .missing
      | .within passed =>
        let path := (name :: passed).reverse
        match folder.files.lookup path, names with
        | some bytes, [] => .error (.file bytes)
        | some _, _ :: _ => .error .beyondFile
        | none, _ =>
          if folder.hasFolder path then follow (.within (name :: passed)) names
          else .error .missing

/-- What a path leads to. -/
def entry (path : Path) : Entry :=
  match path.obstacle? with
  | some entry => entry
  | none =>
    match folder.follow path.root.place path.names with
    | .ok _ => .folder
    | .error entry => entry

/-- The folder and the name under which a new file lies that is stored at a path, or what stands
in its way. -/
def seat (path : Path) : Except Entry (Place × List Char) :=
  match path.obstacle?, path.names.getLast? with
  | some entry, _ => .error entry
  | none, none => .error .folder
  | none, some name => do
    let place ← folder.follow path.root.place path.names.dropLast
    if nameBound < byteLength name then throw .tooLong
    return (place, name)

end Folder

/-- Why the text of a file cannot be had. -/
inductive Unreadable where
  /-- There is no file. -/
  | missing
  /-- The bytes are not UTF-8. -/
  | notUtf8 (fault : Text.Utf8Fault)
  /-- The path leads to a folder. -/
  | folder (path : List Char)
  /-- The path leads beyond a file. -/
  | beyondFile (path : List Char)
  /-- The path or a name on it is too long. -/
  | tooLong (path : List Char)
  /-- The path holds a null character. -/
  | unspeakable
deriving DecidableEq, Repr

/-- The reason in words. -/
def Unreadable.message : Unreadable → String
  | .missing => "file not found"
  | .notUtf8 fault => fault.message
  | .folder path => "[Errno 21] Is a directory: " ++ shown path
  | .beyondFile path => "[Errno 20] Not a directory: " ++ shown path
  | .tooLong path => "[Errno 36] File name too long: " ++ shown path
  | .unspeakable => "embedded null byte"

/-- Why a new file cannot be stored. -/
inductive Unstorable where
  /-- The folder that it would lie in is missing. -/
  | noFolder (path : List Char)
  /-- The path leads nowhere, whatever it is used for. -/
  | badPath (reason : Unreadable)
deriving DecidableEq, Repr

/-- The reason in words. -/
def Unstorable.message : Unstorable → String
  | .noFolder path => "[Errno 2] No such file or directory: " ++ shown path
  | .badPath reason => reason.message

/-- Why no new file can be stored at a path that leads elsewhere. -/
def Entry.unstorable (path : Path) : Entry → Unstorable
  | .missing => .noFolder path.text
  | .folder => .badPath (.folder path.text)
  | .file _ | .beyondFile => .badPath (.beyondFile path.text)
  | .tooLong => .badPath (.tooLong path.text)
  | .unspeakable => .badPath .unspeakable

/-- The text that a path leads to. -/
def Entry.source (path : Path) : Entry → Except Unreadable (List Char)
  | .missing => .error .missing
  | .folder => .error (.folder path.text)
  | .beyondFile => .error (.beyondFile path.text)
  | .tooLong => .error (.tooLong path.text)
  | .unspeakable => .error .unspeakable
  | .file bytes =>
    match Text.decode bytes with
    | .ok text => .ok (Text.unixLines text)
    | .error fault => .error (.notUtf8 fault)

end ThriftIdl
