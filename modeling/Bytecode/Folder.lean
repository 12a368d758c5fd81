import Bytecode.System

/-!
# Folders

A folder of files and empty directories, and what opening a file by a path gives. Directories open,
but reading them fails. Of the directories around the folder only their existence is known.

* `openFile`: a path as it is used inside the folder;
* `openBelow`: a path that is appended to the one of the folder.
-/

namespace Bytecode

/-- What is under a name: a file with these bytes, or an empty directory. -/
inductive Folder.Item where
  | file (bytes : List UInt8)
  | directory
  deriving DecidableEq, Repr

structure Folder where
  items : List (String × Folder.Item)
  deriving DecidableEq, Repr

namespace Folder

/-- Where the resolution of a path stands. -/
inductive Place where
  /-- The folder itself. -/
  | root
  /-- A directory in the folder. -/
  | inside
  /-- A directory around the folder. -/
  | outside
  | file (bytes : List UInt8)
  deriving DecidableEq, Repr

/-- The longest name that the system takes, in bytes. -/
def nameLimit : Nat := 255

/-- The longest path that the system takes, in bytes. It is looked at before any step is taken. -/
def pathLimit : Nat := 4095

/-- What a name other than `.` and `..` leads to. -/
def enter (folder : Folder) (place : Place) (name : String) : Except SystemError Place :=
  if nameLimit < name.utf8ByteSize then .error .nameTooLong
  else
    match place, folder.items.lookup name with
    | .root, some (.file bytes) => .ok (.file bytes)
    | .root, some .directory => .ok .inside
    | _, _ => .error .noSuchFile

/-- One step of a path. Where two slashes meet, and after a last one, the step stays in place. -/
def step (folder : Folder) (place : Place) (name : String) : Except SystemError Place :=
  match place with
  | .file _ => .error .notADirectory
  | _ =>
    if name = "" ∨ name = "." then .ok place
    else if name = ".." then .ok (if place = .inside then .root else .outside)
    else folder.enter place name

/-- All steps of a path. -/
def walk (folder : Folder) : Place → List String → Except SystemError Place
  | place, [] => .ok place
  | place, name :: names =>
    match folder.step place name with
    | .ok place => folder.walk place names
    | .error e => .error e

/-- Opens what a path leads to from the folder; one that starts with a slash starts outside, and an
empty one leads nowhere. -/
def openFile (folder : Folder) : Opener := fun path =>
  if path.contains '\x00' then .error .nulInName
  else if path = "" then .error .noSuchFile
  else if pathLimit < path.utf8ByteSize then .error .nameTooLong
  else
    match folder.walk (if path.startsWith "/" then .outside else .root) (path.splitOn "/") with
    | .ok (.file bytes) => .ok ⟨bytes, .complete⟩
    | .ok _ => .ok ⟨[], .broken .isADirectory⟩
    | .error e => .error e

/-- Opens a path that is appended to the path of the folder. It may be empty, which leads to the
folder itself; one that starts with a slash still starts outside. -/
def openBelow (folder : Folder) : Opener := fun path =>
  folder.openFile (if path = "" then "." else path)

end Folder

end Bytecode
