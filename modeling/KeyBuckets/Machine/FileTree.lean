import KeyBuckets.Error
import KeyBuckets.Text.Pieces

/-!
# File trees — directories, files and symbolic links

A tree maps locations to entries, and a location is the list of names from the root.
Paths are texts; `FileTree.walk` follows one name by name, through symbolic links,
to a location. Whatever a path walks through has to be a directory, also where the
next step leads nowhere: `file/` and `file/.` are no paths to a file.

The only change is `FileTree.add`. It resolves everything but the last name of a path
and never touches an existing entry. Directories have modes for those who look at the tree
later; the process itself may enter and change every directory, whatever its mode, as one
that is run by root may.
-/

namespace KeyBuckets.Machine

/-- The names from the root to an entry. -/
abbrev Location := List String

inductive Entry where
  | directory (mode : Nat)
  | file (executable : Bool)
  /-- A symbolic link, with the text of the path that it stands for. -/
  | link (target : String)
  deriving DecidableEq, Repr

/-- The entry at a location, by a list of entries. The root is always there; of two
entries for one location the first counts. -/
def entryIn (entries : List (Location × Entry)) (location : Location) : Option Entry :=
  if location = [] then some (.directory 0o755) else entries.lookup location

/-- Whether a list of entries has a directory at a location. -/
def directoryIn (entries : List (Location × Entry)) (location : Location) : Bool :=
  match entryIn entries location with
  | some (.directory _) => true
  | _ => false

/-- The entries below the root. -/
structure FileTree where
  entries : List (Location × Entry) := []
  /-- Every entry is in a directory. -/
  inDirectory : ∀ e ∈ entries, directoryIn entries e.1.dropLast = true := by simp

/-- What is at a location stays there when entries are added at the end. -/
theorem entryIn_append {entries more : List (Location × Entry)} {location : Location}
    {entry : Entry} (h : entryIn entries location = some entry) :
    entryIn (entries ++ more) location = some entry := by
  unfold entryIn at h ⊢
  split
  · next hroot => simpa [hroot] using h
  · next hroot => simpa [hroot, List.lookup_append] using Or.inl h

theorem directoryIn_append {entries more : List (Location × Entry)} {location : Location}
    (h : directoryIn entries location = true) : directoryIn (entries ++ more) location = true := by
  unfold directoryIn at h ⊢
  cases he : entryIn entries location with
  | none => simp [he] at h
  | some entry =>
    rw [entryIn_append he]
    simpa [he] using h

/-! ## Paths as texts -/

/-- The names in a path. Empty ones, from slashes at an end or next to each other,
are among them. -/
def namesOf (path : String) : List String :=
  (Text.pieces (· == '/') path.toList).map String.ofList

def isAbsolute (path : String) : Bool :=
  path.toList.head? == some '/'

/-- Where a path starts for someone in a working directory. -/
def startOf (working : Location) (path : String) : Location :=
  if isAbsolute path then [] else working

/-- A name has at most this many octets. -/
def nameLimit : Nat := 255

/-- A path has fewer octets than this. -/
def pathLimit : Nat := 4096

/-- A path may lead through this many symbolic links. -/
def linkLimit : Nat := 40

/-- What is wrong with a text that cannot be a path of anything. -/
def pathFault? (path : String) : Option IoError :=
  if path.toList.contains '\x00' then some .nulInPath
  else if path = "" then some .notFound
  else if pathLimit ≤ path.utf8ByteSize then some .nameTooLong
  else none

namespace FileTree

def entry? (tree : FileTree) (location : Location) : Option Entry :=
  entryIn tree.entries location

def isDirectory (tree : FileTree) (location : Location) : Bool :=
  directoryIn tree.entries location

/-- Follows names from a location up to the first symbolic link, where `through` goes on with
what the link stands for and the names that are left. -/
def walkUntilLink (tree : FileTree) (through : Location → List String → Except IoError Location)
    (here : Location) : List String → Except IoError Location
  | [] => .ok here
  | name :: rest =>
    if ¬ tree.isDirectory here then .error .notDirectory
    else if name = "" ∨ name = "." then walkUntilLink tree through here rest
    else if name = ".." then walkUntilLink tree through here.dropLast rest
    else if nameLimit < name.utf8ByteSize then .error .nameTooLong
    else match tree.entry? (here ++ [name]) with
      | none => .error .notFound
      | some (.link target) => through (startOf here target) (namesOf target ++ rest)
      | some _ => walkUntilLink tree through (here ++ [name]) rest

/-- Follows names from a location, through at most `links` symbolic links. The answer
is the location of an entry that is no link. -/
def walk (tree : FileTree) (links : Nat) : Location → List String → Except IoError Location :=
  match links with
  | 0 => tree.walkUntilLink fun _ _ => .error .tooManyLinks
  | links + 1 => tree.walkUntilLink (tree.walk links)

def resolve (tree : FileTree) (working : Location) (path : String) : Except IoError Location :=
  match pathFault? path with
  | some fault => .error fault
  | none => tree.walk linkLimit (startOf working path) (namesOf path)

def leadsToDirectory (tree : FileTree) (working : Location) (path : String) : Bool :=
  match tree.resolve working path with
  | .ok location => tree.isDirectory location
  | .error _ => false

/-- The tree with one more entry in a directory. -/
def insert (tree : FileTree) (parent : Location) (name : String) (entry : Entry)
    (h : tree.isDirectory parent = true) : FileTree where
  entries := tree.entries ++ [(parent ++ [name], entry)]
  inDirectory := by
    intro e he
    rcases List.mem_append.mp he with he | he
    · exact directoryIn_append (tree.inDirectory e he)
    · rw [List.mem_singleton.mp he, List.dropLast_concat]
      exact directoryIn_append h

/-- The tree with one more entry where a path leads. The last name of the path is taken
as it is: a symbolic link of that name is not followed, and slashes after it count for
nothing. -/
def add (tree : FileTree) (working : Location) (path : String) (entry : Entry) :
    Except IoError FileTree :=
  match pathFault? path with
  | some fault => .error fault
  | none =>
    match (namesOf path).reverse.dropWhile (· = "") with
    | [] => .error .alreadyExists
    | name :: before =>
      match tree.walk linkLimit (startOf working path) before.reverse with
      | .error e => .error e
      | .ok parent =>
        if h : tree.isDirectory parent = true then
          if name = "." ∨ name = ".." then .error .alreadyExists
          else if nameLimit < name.utf8ByteSize then .error .nameTooLong
          else if (tree.entry? (parent ++ [name])).isSome then .error .alreadyExists
          else .ok (tree.insert parent name entry h)
        else .error .notDirectory

def makeDirectory (tree : FileTree) (working : Location) (path : String) (mode : Nat) :
    Except IoError FileTree :=
  tree.add working path (.directory mode)

/-- Makes a directory unless the path leads to one already. -/
def ensureDirectory (tree : FileTree) (working : Location) (path : String) (mode : Nat) :
    Except IoError FileTree :=
  match tree.makeDirectory working path mode with
  | .ok grown => .ok grown
  | .error .alreadyExists =>
    match tree.resolve working path with
    | .error e => .error e
    | .ok location => if tree.isDirectory location then .ok tree else .error .occupied
  | .error e => .error e

end FileTree

end KeyBuckets.Machine
