import Vault.Common.Values
import Vault.Lib.Blocks
import Vault.Lib.Table
import Vault.Storage.Names

/-! What a storage node finds under the directory of an object version, whoever put it there. A JSON
document is kept as the value that `json.load` returns. A file may fail to be inspected or read: reading
yields its content, and then an error if there is one. -/

namespace Vault.Storage

open Vault.Common Vault.Lib

abbrev Bytes := List UInt8

structure Key where
  objectId : String
  versionId : String
  deriving DecidableEq, Repr

instance : ToString Key where
  toString k := s!"{k.objectId}/{k.versionId}"

def Key.Valid (k : Key) : Prop := ValidId k.objectId ∧ ValidId k.versionId

instance (k : Key) : Decidable k.Valid := inferInstanceAs (Decidable (_ ∧ _))

inductive Item
  | str (s : String)
  | int (n : ℤ)
  | other
  deriving DecidableEq, Repr

/-- A JSON value. Of a number that is no integer only its integer part is read. -/
inductive Value
  | null
  | bool (b : Bool)
  | int (n : ℤ)
  | float (truncated : ℤ)
  | nan
  | infinite
  | str (s : String)
  | list (items : List Item)
  | dict
  deriving DecidableEq, Repr

abbrev Fields := List (String × Value)

def Fields.get (fields : Fields) (key : String) : Option Value := fields.lookup key

inductive Document
  | dict (fields : Fields)
  | other
  deriving DecidableEq, Repr

/-- What opening `metadata.json` shows. It is `unreadable` when the file cannot be read or is no JSON;
`undecodable` when Python raises another `ValueError` (the text is no UTF-8, or a number is too long);
`failing` when an error comes that is neither (the path may not be inspected, the nesting is too deep). -/
inductive MetadataFile
  | absent
  | symlink
  | unreadable
  | undecodable
  | failing
  | document (d : Document)
  deriving DecidableEq, Repr

inductive Entry
  | file (content : Bytes) (size : ℕ) (fault : Option String)
  | unstatable (error : String)
  | symlink
  | inaccessible
  | other
  deriving DecidableEq, Repr

def Entry.plain (content : Bytes) : Entry := .file content content.length none

/-- A version directory: whether it or its parent is a symbolic link, its metadata file, its other
entries, and the error of listing it. -/
structure Dir where
  linked : Bool := false
  metadata : MetadataFile := .absent
  entries : List (Text × Entry) := []
  listing : Option String := none
  deriving DecidableEq, Repr

def Dir.entryAt? (d : Dir) (name : Text) : Option Entry := (Table.lookup Prod.fst name d.entries).map Prod.snd

/-- `(path / "metadata.json").is_file()` where no path is a link and none may fail to be inspected. -/
def MetadataFile.isFile : MetadataFile → Bool
  | .unreadable | .undecodable | .document _ => true
  | .absent | .symlink | .failing => false

/-- The exceptions that a call of the engine raises. -/
inductive EngineError
  | value (message : String)
  | type (message : String)
  | objectNotFound (message : String)
  | objectAlreadyExists (message : String)
  | storageFull (message : String)
  | storage (message : String)
  | other
  deriving DecidableEq, Repr

def validateIds (k : Key) : Except EngineError Unit :=
  if ¬ValidId k.objectId then .error (.value "Invalid object_id")
  else if ¬ValidId k.versionId then .error (.value "Invalid version_id")
  else .ok ()

lemma validateIds_ok {k : Key} : validateIds k = .ok () ↔ k.Valid := by
  unfold validateIds Key.Valid
  split_ifs with ho hv <;> simp_all

def readMetadata (k : Key) : Option Dir → Except EngineError Fields
  | none => .error (.objectNotFound s!"Object version not found: {k}")
  | some d =>
    if d.linked then .error (.storage s!"Object storage path is a symlink: {k}")
    else
      match d.metadata with
      | .symlink => .error (.storage s!"Object metadata is a symlink: {k}")
      | .absent => .error (.objectNotFound s!"Object version not found: {k}")
      | .unreadable => .error (.storage s!"Object metadata is unreadable: {k}")
      | .undecodable => .error (.value "metadata text cannot be decoded")
      | .failing => .error .other
      | .document .other => .error (.storage s!"Object metadata is not a JSON object: {k}")
      | .document (.dict fields) => .ok fields

end Vault.Storage
