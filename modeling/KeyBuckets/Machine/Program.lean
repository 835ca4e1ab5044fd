import KeyBuckets.Machine.FileTree

/-!
# Programs — how a name becomes something that runs

A program named by a path is looked for there. A plain name is looked for in the
directories of the search path, one after the other: a place without it is passed
over, and one where it may not be run is passed over too but remembered.
-/

namespace KeyBuckets.Machine

/-- An argument has fewer octets than this. -/
def argumentLimit : Nat := 131072

def runnable (tree : FileTree) (working : Location) (path : String) : Except IoError Unit :=
  match tree.resolve working path with
  | .error e => .error e
  | .ok location =>
    match tree.entry? location with
    | some (.file true) => .ok ()
    | _ => .error .accessDenied

/-- Tries places in turn. `failure` is what the search ends with if none is left. -/
def firstRunnable (tree : FileTree) (working : Location) (failure : IoError) (denied : Bool) :
    List String → Except IoError Unit
  | [] => .error (if denied then .accessDenied else failure)
  | path :: paths =>
    match runnable tree working path with
    | .ok () => .ok ()
    | .error .accessDenied => firstRunnable tree working .accessDenied true paths
    | .error .notFound => firstRunnable tree working .notFound denied paths
    | .error .notDirectory => firstRunnable tree working .notDirectory denied paths
    | .error e => .error e

/-- The directories of a search path, without those of `pathLimit` octets and more.
Where others follow such a directory, the working directory stands in its place. -/
def searchedDirectories : List (List Char) → List (List Char)
  | [] => []
  | directory :: directories =>
    if (String.ofList directory).utf8ByteSize < pathLimit then
      directory :: searchedDirectories directories
    else if directories = [] then []
    else [] :: searchedDirectories directories

/-- What the search tries for a plain name. A file's name has at most `nameLimit` octets,
so that a beginning of a longer name is enough, and it is no file's name either. -/
def soughtName (name : String) : String :=
  String.ofList (name.toList.take (nameLimit + 2))

/-- The places where a plain name is looked for. An empty directory in the search path
is the working directory. -/
def candidates (searchPath : String) (name : String) : List String :=
  (searchedDirectories (Text.pieces (· == ':') searchPath.toList)).map fun directory =>
    if directory = [] then soughtName name else String.ofList directory ++ "/" ++ soughtName name

/-- Whether a program can be started with some arguments. A search that looks nowhere
finds nothing at fault, and fails because no child process came of it. -/
def startable (tree : FileTree) (working : Location) (searchPath program : String)
    (arguments : List String) : Except IoError Unit :=
  if (program :: arguments).any (·.toList.contains '\x00') then .error .nulInCommand
  else
    let found :=
      if program.toList.contains '/' then runnable tree working program
      else if program = "" then .error .notFound
      else firstRunnable tree working .noChildProcesses false (candidates searchPath program)
    match found with
    | .error e => .error e
    | .ok () =>
      if arguments.any (argumentLimit ≤ ·.utf8ByteSize) then .error .argumentsTooLong else .ok ()

end KeyBuckets.Machine
