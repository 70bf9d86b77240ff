import RaisingEffects.Text.Quoted

/-!
# Paths and folders

A path is a list of names. Empty names and `.` are left out, so a path has one text.

* `Path.ofText` and `Path.text` read and write a path.
* `Folder.find` follows a path from a folder.
* `Found.bytes?` reads what is found.
-/

namespace RaisingEffects

/-- A path: the slashes in front of it and the names in it. -/
structure Path where
  root : String := ""
  names : List String
deriving DecidableEq, Repr

namespace Path

/-- The slashes that a text starts with. Two slashes stay two, and any other number is one. -/
def rootOf (cs : List Char) : String :=
  match (cs.takeWhile (· == '/')).length with
  | 0 => ""
  | 2 => "//"
  | _ => "/"

def ofText (text : String) : Path :=
  { root := rootOf text.toList
    names := (text.toList.splitOn '/').filterMap fun name =>
      if name.isEmpty ∨ name = ['.'] then none else some (String.ofList name) }

def text (p : Path) : String :=
  if p.root.isEmpty ∧ p.names.isEmpty then "." else p.root ++ "/".intercalate p.names

/-- A path without its steps back, as far as there is a name in front of them. -/
def collapsed (p : Path) : Path :=
  { p with
    names := p.names.foldl (fun names name =>
      if name = ".." && !names.isEmpty && names.getLast? ≠ some ".." then names.dropLast
      else names ++ [name]) [] }

end Path

def maxNameSize : Nat := 255

def maxPathSize : Nat := 4095

inductive Found where
  | nothing
  | directory
  | file (bytes : List UInt8)
  | tooLong

inductive PathFault where
  | directory (path : Path)
  | tooLong (path : Path)
deriving DecidableEq, Repr

def PathFault.message : PathFault → String
  | directory path => s!"[Errno 21] Is a directory: {quoted path.text}"
  | tooLong path => s!"[Errno 36] File name too long: {quoted path.text}"

def Found.bytes? (path : Path) : Found → Except PathFault (Option (List UInt8))
  | .nothing => .ok none
  | .file bytes => .ok (some bytes)
  | .directory => .error (.directory path)
  | .tooLong => .error (.tooLong path)

/-- The files in a folder and in the folders in it, by the names that lead to them. -/
abbrev Folder := List (List String × List UInt8)

namespace Folder

/-- A place that can be gone on from. -/
inductive Place where
  /-- In the folder, at the end of the given names. -/
  | inside (names : List String)
  | above
  /-- Somewhere else, at the end of the given names. -/
  | outside (names : List String)
deriving DecidableEq, Repr

/-- What stands at a list of names, without steps back. -/
def entry (folder : Folder) (names : List String) : Found :=
  match folder.find? fun f => f.1 = names with
  | some (_, bytes) => .file bytes
  | none =>
    if names.isEmpty || folder.any fun f => names.isPrefixOf f.1 then .directory else .nothing

/-- The directories that every system has at its top. -/
def systemDirectories : List String :=
  ["bin", "boot", "dev", "etc", "home", "lib", "media", "mnt", "opt", "proc", "root", "run",
    "sbin", "srv", "sys", "tmp", "usr", "var"]

def systemEntry : List String → Found
  | [] => .directory
  | [name] => if systemDirectories.contains name then .directory else .nothing
  | names => if names = ["dev", "null"] then .file [] else .nothing

def back : Place → Place
  | .inside [] | .above => .above
  | .inside names => .inside names.dropLast
  | .outside names => .outside names.dropLast

def step (folder : Folder) (here : Place) (name : String) : Place × Found :=
  match here with
  | .inside names => (.inside (names ++ [name]), folder.entry (names ++ [name]))
  | .above => (.above, .nothing)
  | .outside names => (.outside (names ++ [name]), systemEntry (names ++ [name]))

/-- Follows names from a place, which is a directory. -/
def follow (folder : Folder) (here : Place) : List String → Found
  | [] => .directory
  | ".." :: names => follow folder (back here) names
  | name :: names =>
    if maxNameSize < name.utf8ByteSize then .tooLong
    else
      match folder.step here name with
      | (place, .directory) => follow folder place names
      | (_, .file bytes) => if names.isEmpty then .file bytes else .nothing
      | (_, found) => found

/-- What a path leads to from a folder. Above the folder there are directories, and of the rest of
the system only what every system has is known. -/
def find (folder : Folder) (p : Path) : Found :=
  if p.text.toList.contains '\x00' then .nothing
  else if maxPathSize < p.text.utf8ByteSize then .tooLong
  else folder.follow (if p.root.isEmpty then .inside [] else .outside []) p.names

end Folder

end RaisingEffects
