import MailRules.Text.Quoted

/-!
# Folders

Text files by their paths, and the directories that hold them.

* `normalPath` is the form in which a path is shown and looked up.
* `Folder.read` is the text at a path, `Folder.target` is where one can be written.
* `FileFault` says why no text can be read or written at a path.
-/

namespace MailRules

/-! ### Paths -/

/-- The names that a path goes through. -/
def pathNames (path : String) : List String :=
  ((splitAtChar '/' path.toList).map String.ofList).filter fun n => n ≠ "" && n ≠ "."

/-- A path without empty names and without names of the same directory. -/
def normalPath (path : String) : String :=
  let names := "/".intercalate (pathNames path)
  if path.toList.head? = some '/' then "/" ++ names else if names = "" then "." else names

/-- The directory of a path in normal form. -/
def parentPath (path : String) : String :=
  normalPath ((if path.toList.head? = some '/' then "/" else "") ++
    "/".intercalate (pathNames path).dropLast)

/-- The ending of a path's last name, from its last dot on.  A dot at the beginning or the end of
the name begins no ending. -/
def pathEnding (path : String) : String :=
  let name := ((pathNames path).getLast?.getD "").toList
  let ending := name.reverse.takeWhile (· ≠ '.')
  if ending.isEmpty || name.length ≤ ending.length + 1 then ""
  else String.ofList ('.' :: ending.reverse)

/-! ### Files -/

/-- Why there is no text at a path. -/
inductive FileFault where
  | missing | directory | notDirectory
  deriving DecidableEq

/-- The text of the fault at a path. -/
def FileFault.message (path : String) (f : FileFault) : String :=
  let (code, text) := match f with
    | .missing => ("2", "No such file or directory")
    | .notDirectory => ("20", "Not a directory")
    | .directory => ("21", "Is a directory")
  "[Errno " ++ code ++ "] " ++ text ++ ": " ++ quoted path

/-- Text files and directories, and the place among them that other paths start from. -/
structure Folder where
  /-- The directory that relative paths start from. -/
  place : String := "/"
  /-- The files, each with its text. -/
  files : List (String × String) := []
  /-- The directories. -/
  directories : List String := []

namespace Folder

/-- The names that lead to a path from the outermost directory. -/
def names (d : Folder) (path : String) : List String :=
  if path.startsWith "/" || path.startsWith (d.place ++ "/") then pathNames path
  else pathNames d.place ++ pathNames path

/-- The path that some names lead to, from the folder's place if they go through it. -/
def pathTo (d : Folder) (names : List String) : String :=
  let here := pathNames d.place
  if names.take here.length = here then "/".intercalate (names.drop here.length)
  else "/" ++ "/".intercalate names

/-- The path from the outermost directory to another, in which no name leads upwards. -/
def straightPath (d : Folder) (path : String) : String :=
  let step := fun (before : List String) (n : String) =>
    if n = ".." then before.dropLast else before ++ [n]
  "/" ++ "/".intercalate ((d.names path).foldl step [])

/-- The file at some names. -/
def file? (d : Folder) (names : List String) : Option String :=
  (d.files.find? fun f => d.names f.1 = names).map (·.2)

/-- Whether there is a directory at some names: one that is given, or one that the folder's place
or a file lies below. -/
def hasDirectory (d : Folder) (names : List String) : Bool :=
  let leadsTo := fun (path : List String) => path.take names.length = names
  leadsTo (pathNames d.place) || d.directories.any (fun p => leadsTo (d.names p)) ||
    d.files.any fun f => leadsTo (d.names f.1).dropLast

/-- Follows names from a directory to where they lead. -/
def follow (d : Folder) (directory : List String) : List String →
    Except FileFault (List String)
  | [] => .ok directory
  | n :: rest =>
    if d.hasDirectory directory then
      if n = ".." then d.follow directory.dropLast rest else d.follow (directory ++ [n]) rest
    else if (d.file? directory).isSome then .error .notDirectory
    else .error .missing

/-- The text at a path. -/
def read (d : Folder) (path : String) : Except FileFault String :=
  match d.follow [] (d.names path) with
  | .error f => .error f
  | .ok names => match d.file? names with
    | some text => .ok text
    | none => if d.hasDirectory names then .error .directory else .error .missing

/-- Whether there is a file or a directory at a path. -/
def contains (d : Folder) (path : String) : Bool :=
  match d.read path with
  | .ok _ | .error .directory => true
  | .error _ => false

/-- Where a text can be written for a path.  The directory of the path has to be there. -/
def target (d : Folder) (path : String) : Except FileFault String :=
  match d.follow [] (d.names path) with
  | .error f => .error f
  | .ok names =>
    if d.hasDirectory names then .error .directory
    else if !d.hasDirectory names.dropLast then
      .error (if (d.file? names.dropLast).isSome then .notDirectory else .missing)
    else .ok (d.pathTo names)

end Folder

end MailRules
