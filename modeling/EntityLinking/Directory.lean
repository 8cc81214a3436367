import EntityLinking.FileReader

/-!
# Directories held in memory

A tree of files by their paths.  A path is followed one name after the other; every name but the
last must lead to a folder.  A path may leave the directory: outside it there are folders, of
which nothing else is known.
-/

namespace EntityLinking

/-- What stands under a name. -/
inductive DirectoryEntry where
  | file (content : List UInt8)
  | folder
deriving DecidableEq

/-- The names on the way from the root of the directory. -/
abbrev Location := List String

/-- Where a path has led. -/
inductive Place where
  | within (location : Location)
  /-- To a folder around the directory. -/
  | outside
deriving DecidableEq

namespace Place

/-- The place under a name; `none` if nothing is known to stand there. -/
def step? (p : Place) (name : String) : Option Place :=
  if name = "" ∨ name = "." then some p
  else
    match p with
    | within location =>
      if name ≠ ".." then some (within (location ++ [name]))
      else if location = [] then some outside
      else some (within location.dropLast)
    | outside => if name = ".." then some outside else none

end Place

/-- Entries by their locations.  A location on the way to an entry is a folder. -/
structure Directory where
  entries : List (Location × DirectoryEntry) := []

namespace Directory

def names (path : String) : List String :=
  (path.toList.splitOn '/').map String.ofList

/-- The location that a path spells. -/
def location (path : String) : Location :=
  (names path).filter fun name => name ≠ "" ∧ name ≠ "."

/-- The directory of some entries by their paths. -/
def ofEntries (entries : List (String × DirectoryEntry)) : Directory :=
  ⟨entries.map fun entry => (location entry.1, entry.2)⟩

/-- What stands at a place. -/
def find? (d : Directory) : Place → Option DirectoryEntry
  | .outside => some .folder
  | .within location =>
    match d.entries.lookup location with
    | some entry => some entry
    | none =>
      if location.isEmpty || d.entries.any fun entry => location.isPrefixOf entry.1 then
        some .folder
      else none

/-- The most octets of a name. -/
def nameLimit : Nat := 255

/-- The most octets of a path. -/
def pathLimit : Nat := 4095

/-- Follows names from a place. -/
def follow (d : Directory) (p : Place) : List String → Except ReadFault DirectoryEntry
  | [] =>
    match d.find? p with
    | some entry => .ok entry
    | none => .error .absent
  | name :: rest =>
    match d.find? p with
    | none => .error .absent
    | some (.file _) => .error .throughFile
    | some .folder =>
      if nameLimit < name.utf8ByteSize then .error .tooLong
      else
        match p.step? name with
        | some p' => d.follow p' rest
        | none => .error .absent

/-- The octets of a file.  The empty path leads nowhere, and a path that begins with a slash begins
outside. -/
def read (d : Directory) (path : String) : Except ReadFault (List UInt8) :=
  if path.toList.contains '\x00' then .error .noPath
  else if pathLimit < path.utf8ByteSize then .error .tooLong
  else if path = "" then .error .absent
  else
    let start := if path.toList.head? = some '/' then Place.outside else .within []
    match d.follow start (names path) with
    | .ok (.file content) => .ok content
    | .ok .folder => .error .folder
    | .error fault => .error fault

def reader (d : Directory) : FileReader := fun path =>
  (d.read path).mapError ReadFault.message

end Directory
end EntityLinking
