/-!
# Files of a session

A session touches two files: the text it reads its settings from, and the log it creates. What can go wrong
with them is a `FileFault`. Whether a log can be created is decided on a `FileSystem`, a table of what the
well-known absolute paths lead to; every other name is taken to be unused.
-/

namespace ExprCalculus

inductive FileFault where
  | missing
  | notADirectory
  | isADirectory
  | nameTooLong
  | denied
  | nulInName
  | notUnicode
  deriving DecidableEq

namespace FileFault

/-- A fault that the system reports, with its number. -/
def reported (text : String) (number : Nat) : String :=
  text ++ " (os error " ++ toString number ++ ")"

def message : FileFault → String
  | missing => reported "No such file or directory" 2
  | denied => reported "Permission denied" 13
  | notADirectory => reported "Not a directory" 20
  | isADirectory => reported "Is a directory" 21
  | nameTooLong => reported "File name too long" 36
  | nulInName => "file name contained an unexpected NUL byte"
  | notUnicode => "stream did not contain valid UTF-8"

end FileFault

abbrev FileContent := Option ByteArray

def FileContent.text : FileContent → Except FileFault String
  | none => .error .missing
  | some bytes =>
    match String.fromUTF8? bytes with
    | some text => .ok text
    | none => .error .notUnicode

inductive FileEntry where
  | file
  | directory
  /-- A directory to which no names can be added, and what is said of a try. -/
  | sealed (fault : FileFault)
  deriving DecidableEq

/-- What absolute paths lead to, and where relative ones begin. A path is a list of names. -/
structure FileSystem where
  entry? : List String → Option FileEntry
  workingDirectory : List String

namespace FileSystem

def maxName : Nat := 255

def maxPath : Nat := 4095

def enter (fs : FileSystem) (here : List String) (name : String) :
    Except FileFault (List String) :=
  if name == "." then .ok here
  else if name == ".." then .ok here.dropLast
  else if maxName < name.utf8ByteSize then .error .nameTooLong
  else
    match fs.entry? (here ++ [name]) with
    | none => .error .missing
    | some .file => .error .notADirectory
    | some _ => .ok (here ++ [name])

/-- Creates a file of this name, or opens the one that is there, for writing. -/
def createIn (fs : FileSystem) (here : List String) (name : String) : Except FileFault Unit :=
  if name == "." || name == ".." then .error .isADirectory
  else if maxName < name.utf8ByteSize then .error .nameTooLong
  else
    match fs.entry? (here ++ [name]), fs.entry? here with
    | some .file, _ => .ok ()
    | some _, _ => .error .isADirectory
    | none, some (.sealed fault) => .error fault
    | none, _ => .ok ()

/-- Creates a file at a path. The names before the last one have to be directories, and a slash at the end
asks for a directory. -/
def create (fs : FileSystem) (path : String) : Except FileFault Unit := do
  if path.toList.contains '\x00' then throw .nulInName
  if path.isEmpty then throw .missing
  if maxPath < path.utf8ByteSize then throw .nameTooLong
  let names := (path.splitOn "/").filter (· != "")
  let start := if path.toList.head? == some '/' then [] else fs.workingDirectory
  match names.getLast? with
  | none => throw .isADirectory
  | some last =>
    let here ← names.dropLast.foldlM fs.enter start
    if path.toList.getLast? == some '/' then throw .isADirectory
    fs.createIn here last

def commonDirectories : List (List String) :=
  [[], ["bin"], ["boot"], ["dev"], ["dev", "pts"], ["dev", "shm"], ["etc"], ["home"], ["lib"], ["media"],
    ["mnt"], ["opt"], ["root"], ["run"], ["sbin"], ["srv"], ["tmp"], ["usr"], ["usr", "bin"],
    ["usr", "include"], ["usr", "lib"], ["usr", "local"], ["usr", "local", "bin"], ["usr", "sbin"],
    ["usr", "share"], ["usr", "src"], ["var"], ["var", "cache"], ["var", "lib"], ["var", "log"], ["var", "run"],
    ["var", "tmp"]]

def commonFiles : List (List String) :=
  [["bin", "cat"], ["bin", "ls"], ["bin", "sh"], ["dev", "full"], ["dev", "null"], ["dev", "random"],
    ["dev", "stderr"], ["dev", "stdin"], ["dev", "stdout"], ["dev", "tty"], ["dev", "urandom"],
    ["dev", "zero"], ["etc", "fstab"], ["etc", "group"], ["etc", "hostname"], ["etc", "hosts"],
    ["etc", "os-release"], ["etc", "passwd"], ["etc", "resolv.conf"], ["etc", "shadow"],
    ["proc", "cpuinfo"], ["proc", "meminfo"], ["proc", "version"], ["usr", "bin", "env"]]

/-- A system with the well-known entries and an empty working directory. This fixed table stands for the directories of
the operating system under a program that is run. Nothing else depends on it: what is defined here works on any
`FileSystem`, and no statement is about this one. -/
def common : FileSystem where
  entry? path :=
    if commonDirectories.contains path || path == ["work"] then some .directory
    else if commonFiles.contains path then some .file
    else if path == ["proc"] || path == ["proc", "self"] then some (.sealed .missing)
    else if path == ["sys"] then some (.sealed .denied)
    else none
  workingDirectory := ["work"]

end FileSystem
end ExprCalculus
