import MailRules.Account.Apply
import MailRules.Cli.Command
import MailRules.Cli.Screen
import MailRules.Config.Describe
import MailRules.Config.Load

/-!
# Running commands

What a command shows and does, in a folder and with an account.

* `Scene` is all that a command works on; `Run` is work that shows texts and may stop.
* `Stop` tells an error that is reported to the user from one that is not.
* `review` is the first part of applying a config, up to the question whether to go on, and
  `carryOut` the second; `confirm` reads the answers between them.
* `run` is a whole command with the lines that are typed while it runs.
-/

namespace MailRules

namespace Cli

/-! ### Scenes -/

/-- What a command works on, with what has been shown and what is to be written. -/
structure Scene where
  /-- The files. -/
  folder : Folder := {}
  /-- The directory that holds the configs of programs. -/
  configHome : String := ""
  /-- Whether there is an account to work on. -/
  connected : Bool := false
  /-- The work on the account. -/
  session : Session := {}
  /-- The files written, each with its text. -/
  written : List (String × String) := []
  /-- What has been shown. -/
  out : String := ""
  /-- What has been shown as an error. -/
  err : String := ""

/-- An error that is not reported to the user as one of the program's own. -/
inductive Crash where
  /-- A document has not the expected form. -/
  | document (problems : List Problem)
  /-- A scalar of a document has no value. -/
  | scalar (e : Yaml.ScalarError)
  /-- A condition cannot be split. -/
  | split (e : SplitError)
  /-- There is no text at a path. -/
  | file (path : String) (fault : FileFault)

/-- The text of the error. -/
def Crash.message : Crash → String
  | .document ps => "\n".intercalate (problemReports ps)
  | .scalar e => e.message
  | .split e => e.message
  | .file path fault => fault.message path

/-- Why a command stops. -/
inductive Stop where
  /-- An error of the program, reported to the user. -/
  | reported (message : String) (details : Option String)
  /-- The user said no. -/
  | aborted
  /-- An error that is none of the program's own. -/
  | crash (c : Crash)

/-- The stop for a config that cannot be loaded. -/
def Stop.ofLoad : LoadError → Stop
  | .scalar e => .crash (.scalar e)
  | .invalid source ps =>
    .reported (LoadError.invalid source ps).message (some ("\n".intercalate (problemReports ps)))
  | e => .reported e.message none

/-- The stop for a config that cannot be compiled. -/
def Stop.ofCompile : CompileError → Stop
  | .rule e => .reported e.message e.details
  | .split e => .crash (.split e)

/-- The stop for work on an account that failed. -/
def Stop.ofSync : SyncError → Stop
  | .malformed ps => .crash (.document ps)
  | e => .reported e.message e.details

/-- The stop for filters that no config declares. -/
def Stop.ofDescribe (e : DescribeError) : Stop :=
  .reported e.message (some e.filter.dump)

/-- Work on a scene. -/
abbrev Run := ExceptT Stop (StateM Scene)

/-- The result of a step, or a stop. -/
def orStop {ε α : Type} (stop : ε → Stop) : Except ε α → Run α
  | .ok a => pure a
  | .error e => throw (stop e)

/-- Shows a text. -/
def put (text : String) : Run Unit :=
  modify fun s => { s with out := s.out ++ text }

/-- Shows a text apart from the output. -/
def putAside (text : String) : Run Unit :=
  modify fun s => { s with err := s.err ++ text }

/-- Work on the account. -/
def onAccount {α : Type} (work : Client α) : Run α := do
  let s ← get
  let (result, session) := work.run.run s.session
  set { s with session }
  orStop .ofSync result

/-! ### Configs and accounts -/

/-- The directory of the program's own files. -/
def homeOf (s : Scene) : String :=
  s.configHome ++ "/gmail-filters"

/-- The config file, unless another is asked for. -/
def defaultConfig (s : Scene) : String :=
  let jsonnet := homeOf s ++ "/config.jsonnet"
  if s.folder.contains jsonnet then jsonnet else homeOf s ++ "/config.yaml"

/-- Loads and compiles the config. -/
def loadConfig (path : Option String) : Run MailConfig := do
  let s ← get
  let config ← orStop .ofLoad (Config.load s.folder (path.getD (defaultConfig s)))
  orStop .ofCompile (config.compile defaultSizeLimit)

/-- Connects to the account, for which a token is needed. -/
def connect (token : Option String) : Run Unit := do
  let s ← get
  if s.connected then pure ()
  else
    let path := normalPath (token.getD (homeOf s ++ "/token.json"))
    let reason := match s.folder.read path with
      | .error fault => fault.message path
      | .ok _ => "no connection to the account"
    throw (.reported ("loading Gmail credentials from " ++ path ++ ": " ++ reason) none)

/-- Computes what has to change. -/
def plan (o : ReviewOptions) : Run Plan := do
  connect o.token
  let declared ← loadConfig o.config
  let existing ← onAccount Client.fetch
  return diff declared existing

/-- How a difference is shown. -/
def diffOptions (o : ReviewOptions) : DiffOptions :=
  { contextLines := o.contextLines, color := o.color, withSearch := o.withSearch }

/-- Shows a plan. -/
def showPlan (o : ReviewOptions) (p : Plan) : Run Unit :=
  put (Screen.echoed (p.render (diffOptions o)) ++ "\n")

/-! ### Commands -/

/-- Shows what would change. -/
def showDiff (o : ReviewOptions) : Run Unit := do
  let p ← plan o
  if p.isEmpty then put "✓ Gmail is in sync with the config. No changes needed.\n"
  else showPlan o p

/-- Shows what is going to change.  There is no plan if nothing has to be done. -/
def review (o : ReviewOptions) (removeLabels : Bool) : Run (Option Plan) := do
  let p ← plan o
  orStop (fun e => .reported e.message none) p.validate
  if p.isEmpty then
    put "No changes have been made.\n"
    return none
  else
    put "You are going to apply the following changes to your settings:\n\n"
    showPlan o p
    if !p.labels.removed.isEmpty && !removeLabels then
      put ("Note: labels not in the config will be kept. " ++
        "Pass --remove-labels to delete them.\n")
    return some p

/-- Carries out a plan. -/
def carryOut (removeLabels : Bool) (p : Plan) : Run Unit := do
  put "Applying the changes...\n"
  onAccount (p.apply removeLabels)
  put "✓ Done.\n"

/-- The question whether to go on. -/
def question : String := "Do you want to apply them? [y/N]: "

/-- What is shown when an answer is neither yes nor no. -/
def badAnswer : String := "Error: invalid input\n"

/-- What is shown when the user does not want to go on. -/
def cancelled : String := "Cancelled\n"

/-- Whether a typed line means yes or no.  An empty line means no. -/
def answer? (line : String) : Option Bool :=
  let word := (String.ofList (trimmed line.toList)).toLower
  if ["y", "yes"].contains word then some true
  else if ["n", "no", ""].contains word then some false
  else none

/-- The lines that a typed text consists of. -/
def typedLines (text : String) : List String :=
  let lines := (splitAtChar '\n' (Config.withLineFeeds text).toList).map String.ofList
  if lines.getLast? = some "" then lines.dropLast else lines

/-- Asks whether to go on, until an answer is understood; typed lines are shown. -/
def confirm : List String → Run Bool
  | [] => do
    put question
    throw .aborted
  | line :: lines => do
    put (question ++ line ++ "\n")
    match answer? line with
    | some b => return b
    | none =>
      put badAnswer
      confirm lines

/-- Applies the config. -/
def applyConfig (typed : List String) (o : ReviewOptions) (yes removeLabels : Bool) :
    Run Unit := do
  match ← review o removeLabels with
  | none => return ()
  | some p =>
    let goOn ← if yes then pure true else confirm typed
    if goOn then carryOut removeLabels p else put cancelled

/-- The note at the beginning of a downloaded config. -/
def downloadHeader : String := "# Auto-imported filters by gmail-filters\n\n"

/-- Writes a config that describes the account. -/
def download (output token : Option String) : Run Unit := do
  connect token
  let labels ← onAccount Client.listLabels
  let s ← get
  let (listed, session) := Client.listFilters.run.run s.session
  set { s with session }
  let filters ← match listed with
    | .ok fs => pure fs
    | .error (.importing e) => do
      putAside (Screen.shown
        ("Warning: " ++ Screen.unmarked e.message ++ ", exporting the rest"))
      putAside (Screen.shown (Screen.unmarked e.details))
      pure e.filters
    | .error e => throw (.ofSync e)
  let config ← orStop .ofDescribe (MailConfig.describe { labels, filters })
  let text := config.text downloadHeader
  match output with
  | none => put (Screen.echoed text)
  | some path => do
    let path := normalPath path
    let s ← get
    match s.folder.target path with
    | .error fault => throw (.crash (.file path fault))
    | .ok target => do
      set { s with written := s.written ++ [(target, text)] }
      putAside (Screen.shown
        s!"✓ Exported {filters.length} filters and {labels.length} labels to {path}")

/-- Shows the filters that the config is compiled to. -/
def debug (path : Option String) : Run Unit := do
  let compiled ← loadConfig path
  let row := fun (f : Filter) (i : Nat) => [
    toString i,
    Screen.unmarked (String.ofList (trimEnd (· = '\n') f.render.toList)),
    Screen.unmarked f.criteria.search ++ "\nopen in Gmail"]
  put (Screen.table s!"{compiled.filters.length} filters"
    [{ title := "#", toRight := true }, { title := "Filter" }, { title := "Search" }]
    (compiled.filters.zipIdx.map fun (f, i) => row f i))

/-- Runs a command. -/
def perform (typed : List String) : Command → Run Unit
  | .diff o => showDiff o
  | .apply o yes removeLabels => applyConfig typed o yes removeLabels
  | .download output token => download output token
  | .debug config => debug config

/-! ### Outcomes -/

/-- Whether a command reports its errors apart from the output. -/
def reportsAside : Command → Bool
  | .download .. => true
  | _ => false

/-- How a command ended. -/
structure Outcome where
  /-- The exit code. -/
  exit : Nat
  /-- What was left. -/
  scene : Scene
  /-- The error that ended the command, if it was none of the program's own. -/
  crash : Option Crash := none

/-- The text of a reported error. -/
def errorText (message : String) (details : Option String) : String :=
  Screen.shown ("Error: " ++ Screen.unmarked message) ++
    match details with
    | none => ""
    | some d => if d = "" then "" else Screen.shown (Screen.unmarked d)

/-- The outcome of a command's work. -/
def outcome (aside : Bool) : Except Stop Unit × Scene → Outcome
  | (.ok (), scene) => { exit := 0, scene }
  | (.error (.reported message details), scene) =>
    let text := errorText message details
    { exit := 1
      scene := if aside then { scene with err := scene.err ++ text }
        else { scene with out := scene.out ++ text } }
  | (.error .aborted, scene) =>
    { exit := 1, scene := { scene with err := scene.err ++ "Aborted.\n" } }
  | (.error (.crash c), scene) => { exit := 1, scene, crash := some c }

/-- Runs the command of a command line.  A line that is not understood ends with exit code 2. -/
def run (args typed : List String) (scene : Scene) : Outcome :=
  match Command.ofArgs? args with
  | none => { exit := 2, scene }
  | some c => outcome (reportsAside c) ((perform typed c).run.run scene)

end Cli

end MailRules
