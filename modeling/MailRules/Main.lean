import MailRules.Cli.Run

/-!
# The program

Reads the files that a command needs, runs the command, and shows and writes what comes of it.
-/

namespace MailRules

namespace Main

/-! ### Files -/

/-- The text of a file, if it can be read. -/
def readText? (path : String) : IO (Option String) :=
  try
    return some (← IO.FS.readFile path)
  catch _ => return none

/-- The paths that the text of a file may import. -/
def importsOf (searched : List String) (path text : String) : List String :=
  let directories := Jsonnet.directoryOf path :: searched.map Jsonnet.asDirectory
  (Jsonnet.importedPaths text).flatMap fun p =>
    if p.startsWith "/" then [p] else directories.map (· ++ p)

/-- The files at some paths, and those that they import. -/
partial def collect (searched : List String) (files : List (String × String)) :
    List String → IO (List (String × String))
  | [] => return files
  | path :: rest => do
    if files.any (·.1 = path) then return ← collect searched files rest
    match ← readText? path with
    | none => collect searched files rest
    | some text =>
      let files := files ++ [(path, text)]
      collect searched files (rest ++ importsOf searched path text)

/-- The paths that a command reads or writes, given the directory of the program's own files. -/
def pathsOf (home : String) (c : Command) : List String :=
  let config := fun (path : Option String) => match path with
    | some p => [normalPath p]
    | none => [home ++ "/config.jsonnet", home ++ "/config.yaml"]
  let token := fun (path : Option String) => [normalPath (path.getD (home ++ "/token.json"))]
  match c with
  | .diff o | .apply o _ _ => config o.config ++ token o.token
  | .debug path => config path
  | .download output path => (output.map normalPath).toList ++ token path

/-- Those of some paths that are directories. -/
def directoriesAmong (paths : List String) : IO (List String) := do
  let here ← IO.currentDir
  paths.filterM fun p => (here / p).isDir

/-- What a command works on, as it is on the disk. -/
def sceneFor (c : Command) : IO Cli.Scene := do
  let place := toString (← IO.currentDir)
  let configHome := (← IO.getEnv "XDG_CONFIG_HOME").getD
    ((← IO.getEnv "HOME").getD "" ++ "/.config")
  let paths := pathsOf (Cli.homeOf { configHome }) c
  let files ← collect (paths.map parentPath) [] (paths ++ paths.map parentPath)
  let directories ← directoriesAmong (paths ++ paths.map parentPath)
  let straight := Folder.straightPath { place }
  return {
    folder := {
      place
      files := files.map fun f => (straight f.1, f.2)
      directories := directories.map straight }
    configHome }

/-! ### Running -/

/-- Shows what a command has shown, writes what it has written, and reports how it ended. -/
def finish (o : Cli.Outcome) : IO UInt32 := do
  IO.print o.scene.out
  IO.eprint o.scene.err
  for (path, text) in o.scene.written do
    IO.FS.writeFile path text
  match o.crash with
  | some c => IO.eprintln c.message
  | none => pure ()
  return o.exit.toUInt32

/-- Asks until an answer is understood. -/
partial def ask : IO (Option Bool) := do
  IO.print Cli.question
  (← IO.getStdout).flush
  let line ← (← IO.getStdin).getLine
  if line.isEmpty then return none
  match Cli.answer? line with
  | some b => return some b
  | none =>
    IO.print Cli.badAnswer
    ask

/-- Applies the config, with the question asked where it stands in the output. -/
def applyAsking (o : ReviewOptions) (removeLabels : Bool) (scene : Cli.Scene) : IO UInt32 := do
  let (reviewed, scene) := (Cli.review o removeLabels).run.run scene
  match reviewed with
  | .error stop => finish (Cli.outcome false (.error stop, scene))
  | .ok none => finish (Cli.outcome false (.ok (), scene))
  | .ok (some p) =>
    IO.print scene.out
    let scene := { scene with out := "" }
    finish <| Cli.outcome false <| match ← ask with
      | none => (.error .aborted, scene)
      | some true => (Cli.carryOut removeLabels p).run.run scene
      | some false => (Cli.put Cli.cancelled).run.run scene

/-- What the command line may look like. -/
def usage : String :=
  "Usage: gmail-filters [-v] diff|apply|download|debug [OPTIONS]"

end Main

end MailRules

open MailRules in
/-- The program. -/
def main (args : List String) : IO UInt32 := do
  match Command.ofArgs? args with
  | none =>
    IO.eprintln Main.usage
    return 2
  | some (.apply o false removeLabels) =>
    Main.applyAsking o removeLabels (← Main.sceneFor (.apply o false removeLabels))
  | some c => Main.finish (Cli.run args [] (← Main.sceneFor c))
