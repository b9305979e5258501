set_option autoImplicit false

/-!
Places for an output. A path is followed name by name, and starts at the root or in an empty folder
among the temporary files. Of what lies around, only the usual folders and devices are known.
-/

namespace AvroSchemata.Command

inductive PlaceFailure where
  | missing
  | fault
  | noDevice
  | denied
  | notFolder
  | folder
  | invalid
  | busy
  | noSpace
  | nameTooLong
  deriving DecidableEq, Repr

def PlaceFailure.message : PlaceFailure → String
  | .missing => "No such file or directory (os error 2)"
  | .fault => "Input/output error (os error 5)"
  | .noDevice => "No such device or address (os error 6)"
  | .denied => "Permission denied (os error 13)"
  | .notFolder => "Not a directory (os error 20)"
  | .folder => "Is a directory (os error 21)"
  | .invalid => "Invalid argument (os error 22)"
  | .busy => "Text file busy (os error 26)"
  | .noSpace => "No space left on device (os error 28)"
  | .nameTooLong => "File name too long (os error 36)"

/-- A folder, by the names that lead from it back to the root. -/
abbrev Folder := List String

/-- The folder where paths start. No path can spell its name. -/
def Folder.start : Folder := ["", "tmp"]

def Folder.process : Folder := ["self", "proc"]

def Folder.openFiles : Folder := "fd" :: Folder.process

inductive Place where
  | file (folder : Folder) (name : String)
  | output
  | nowhere
  deriving DecidableEq, Repr

inductive Entry where
  | folder (there : Folder)
  | place (there : Place)
  | closed (reason : PlaceFailure)
  deriving DecidableEq, Repr

def Folder.folders (here : Folder) (names : List String) : List (String × Entry) :=
  names.map fun name => (name, .folder (name :: here))

def Folder.files (here : Folder) (names : List String) : List (String × Entry) :=
  names.map fun name => (name, .place (.file here name))

def closedFiles (reason : PlaceFailure) (names : List String) : List (String × Entry) :=
  names.map fun name => (name, .closed reason)

/-- What is known to be in a folder. A link stands for what it leads to. -/
def Folder.entries : Folder → List (String × Entry)
  | [] => Folder.folders [] ["bin", "boot", "dev", "etc", "home", "lib", "lib64", "media",
      "mnt", "opt", "proc", "root", "run", "sbin", "srv", "sys", "tmp", "usr", "var"]
  | ["dev"] => [("null", .place .nowhere), ("zero", .place .nowhere), ("random", .place .nowhere),
      ("urandom", .place .nowhere), ("full", .closed .noSpace), ("tty", .closed .noDevice),
      ("stdin", .place .nowhere), ("stdout", .place .output), ("stderr", .place .nowhere),
      ("fd", .folder Folder.openFiles)] ++ Folder.folders ["dev"] ["pts", "shm"]
  | ["proc"] => [("self", .folder Folder.process), ("thread-self", .folder Folder.process)] ++
      Folder.folders ["proc"] ["1", "sys"] ++
      closedFiles .fault ["cpuinfo", "loadavg", "meminfo", "uptime", "version"]
  | ["self", "proc"] => [("fd", .folder Folder.openFiles), ("cwd", .folder Folder.start),
      ("root", .folder []), ("exe", .closed .busy)] ++
      Folder.folders Folder.process ["fdinfo", "net", "task"] ++
      closedFiles .invalid ["cmdline", "environ", "maps", "stat", "status"]
  | ["fd", "self", "proc"] => [("0", .place .nowhere), ("1", .place .output), ("2", .place .nowhere)]
  | ["etc"] => Folder.files ["etc"] ["group", "hostname", "hosts", "passwd", "resolv.conf"]
  | ["usr"] => Folder.folders ["usr"] ["bin", "include", "lib", "local", "sbin", "share", "src"]
  | ["var"] => Folder.folders ["var"] ["cache", "lib", "lock", "log", "run", "spool", "tmp"]
  | _ => []

def maxPathBytes : Nat := 4095

def maxNameBytes : Nat := 255

def Folder.lookupFailure? (here : Folder) (name : String) : Option PlaceFailure :=
  if here.getLast? = some "proc" then some .missing
  else if maxNameBytes < name.utf8ByteSize then some .nameTooLong
  else none

/-- Why a name that stands for nothing cannot be given to a new file, if it cannot. What tells of
processes, of terminals and of the system has no room for files. -/
def Folder.refusal? (here : Folder) (name : String) : Option PlaceFailure :=
  match here.lookupFailure? name with
  | some reason => some reason
  | none => if here = ["pts", "dev"] ∨ here.getLast? = some "sys" then some .denied else none

def Folder.enter (here : Folder) (name : String) : Except PlaceFailure Folder :=
  if name = "." then .ok here
  else if name = ".." then .ok here.tail
  else
    match here.entries.lookup name with
    | some (.folder there) => .ok there
    | some (.place _) | some (.closed _) => .error .notFolder
    | none => .error ((here.lookupFailure? name).getD .missing)

def Folder.place (here : Folder) (name : String) : Except PlaceFailure Place :=
  if name = "." ∨ name = ".." then .error .folder
  else
    match here.entries.lookup name, here.refusal? name with
    | some (.folder _), _ => .error .folder
    | some (.place there), _ => .ok there
    | some (.closed reason), _ => .error reason
    | none, some reason => .error reason
    | none, none => .ok (.file here name)

/-- Follows the names of a path. Where it ends with a slash, or has no names, it leads to a
folder. -/
def Folder.follow (slash : Bool) (here : Folder) : List String → Except PlaceFailure Place
  | [] => .error .folder
  | [name] => if slash then .error .folder else here.place name
  | name :: next :: rest => here.enter name >>= fun there => there.follow slash (next :: rest)

def Place.ofPath (path : String) : Except PlaceFailure Place :=
  if maxPathBytes < path.utf8ByteSize then .error .nameTooLong
  else
    Folder.follow (path.endsWith "/") (if path.startsWith "/" then [] else Folder.start)
      ((path.splitOn "/").filter (· ≠ ""))

end AvroSchemata.Command
