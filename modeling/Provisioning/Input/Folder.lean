import Provisioning.Input.Stream

/-!
# Folders

A folder in which paths are looked up step by step, as a file system does. A folder can be opened like a file; that it
is none shows when it is read. Nothing is known of what lies outside of the folder.
-/

namespace Provisioning

namespace IoFailure

/-- No file is there. -/
def missing : IoFailure := ⟨.notFound, "No such file or directory (os error 2)"⟩

/-- A path goes on below a file. -/
def notFolder : IoFailure := ⟨.other, "Not a directory (os error 20)"⟩

/-- What is read is no file. -/
def isFolder : IoFailure := ⟨.other, "Is a directory (os error 21)"⟩

/-- A path, or a name in it, is too long. -/
def nameTooLong : IoFailure := ⟨.other, "File name too long (os error 36)"⟩

/-- A path holds the NUL character. -/
def holdsNul : IoFailure := ⟨.other, "file name contained an unexpected NUL byte"⟩

end IoFailure

/-- What opening a path gives. -/
abbrev Files := String → Except IoFailure Stream

/-- Files under their names. -/
structure Folder where
  files : List (String × Stream)

namespace Folder

/-- The longest name, in octets. -/
def maxName : Nat := 255

/-- The longest path, in octets. -/
def maxPath : Nat := 4095

/-- Where the steps of a path have led. -/
inductive Place
  | here
  | elsewhere
  | file (content : Stream)

/-- Takes the steps of a path. A point stays in a folder, two points leave it. -/
def walk (f : Folder) : Place → List String → Except IoFailure Place
  | place, [] => .ok place
  | .file _, _ :: _ => .error .notFolder
  | place, step :: steps =>
    if step = "." then f.walk place steps
    else if step = ".." then f.walk .elsewhere steps
    else if maxName < step.utf8ByteSize then .error .nameTooLong
    else match place, f.files.lookup step with
      | .here, some content => f.walk (.file content) steps
      | _, _ => .error .missing

/-- The steps of a path. Slashes in a row are one; after a slash at the end there is still a step to take. -/
def steps (path : String) : List String :=
  let names := (path.splitOn "/").filter (· ≠ "")
  if path.endsWith "/" then names ++ ["."] else names

/-- Opens a path. -/
def openPath (f : Folder) : Files := fun path =>
  if path.toList.contains '\x00' then .error .holdsNul
  else if path = "" then .error .missing
  else if maxPath < path.utf8ByteSize then .error .nameTooLong
  else do
    let place ← f.walk (if path.startsWith "/" then .elsewhere else .here) (steps path)
    match place with
    | .file content => .ok content
    | _ => .ok { octets := [], failure := some .isFolder }

end Folder

end Provisioning
