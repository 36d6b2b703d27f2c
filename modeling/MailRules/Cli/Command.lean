import MailRules.Config.Checked

/-!
# Commands

What a user asks for on the command line.

* `Given` are the options of a command line by their names, with the values of those that take
  one.
* `Command.ofArgs?` reads a command line; there is no command if the line is not understood.
-/

namespace MailRules

/-- An option: its spellings, of which the first is its name, and whether a value follows. -/
structure OptionSpec where
  /-- The spellings, the name first. -/
  spellings : List String
  /-- Whether a value follows. -/
  takesValue : Bool := false

/-- The name of an option. -/
def OptionSpec.name (o : OptionSpec) : String :=
  o.spellings.headD ""

/-- Options by name, in order, with their values.  An option without a value has an empty one. -/
abbrev Given := List (String × String)

namespace Given

/-- Whether an option is given. -/
def has (g : Given) (name : String) : Bool :=
  g.any (·.1 = name)

/-- The value that an option is given last. -/
def last? (g : Given) (name : String) : Option String :=
  (g.reverse.find? (·.1 = name)).map (·.2)

end Given

/-! ### Reading options -/

/-- The option of a spelling. -/
def findOption (specs : List OptionSpec) (spelling : String) : Option OptionSpec :=
  specs.find? (·.spellings.contains spelling)

/-- A group of short options in one word: those after one that takes a value are its value. -/
def shortOptions (specs : List OptionSpec) : List Char → Option (Given × Option String)
  | [] => some ([], none)
  | c :: cs => do
    let o ← findOption specs (String.ofList ['-', c])
    if o.takesValue then
      if cs.isEmpty then return ([], some o.name) else return ([(o.name, String.ofList cs)], none)
    else
      let (given, waiting) ← shortOptions specs cs
      return ((o.name, "") :: given, waiting)

/-- A long option, perhaps with its value behind an equals sign. -/
def longOption (specs : List OptionSpec) (word : String) : Option (Given × Option String) := do
  let cs := word.toList
  let spelling := String.ofList (cs.takeWhile (· ≠ '='))
  let o ← findOption specs spelling
  if spelling.length < cs.length then
    if o.takesValue then return ([(o.name, String.ofList (cs.drop (spelling.length + 1)))], none)
    else none
  else if o.takesValue then return ([], some o.name)
  else return ([(o.name, "")], none)

/-- The options of a word that begins with a dash, and the option that waits for its value. -/
def wordOptions (specs : List OptionSpec) (word : String) : Option (Given × Option String) :=
  if word.startsWith "--" then longOption specs word
  else shortOptions specs (word.toList.drop 1)

/-- The options of a command line that has nothing else, but may end in two dashes. -/
def readOptions (specs : List OptionSpec) : List String → Option Given
  | [] => some []
  | word :: rest =>
    if word = "--" then if rest.isEmpty then some [] else none
    else if word.startsWith "-" && 1 < word.length then do
      match ← wordOptions specs word with
      | (given, none) => return given ++ (← readOptions specs rest)
      | (given, some name) => match rest with
        | value :: rest => return given ++ (name, value) :: (← readOptions specs rest)
        | [] => none
    else none

/-! ### Commands -/

/-- What showing a difference needs. -/
structure ReviewOptions where
  /-- The path of the config, if it is not the usual one. -/
  config : Option String := none
  /-- The path of the token, if it is not the usual one. -/
  token : Option String := none
  /-- How many equal lines are shown around a change. -/
  contextLines : Int := 5
  /-- Whether the difference is colored. -/
  color : Bool := false
  /-- Whether searches are shown. -/
  withSearch : Bool := false

/-- A command. -/
inductive Command where
  /-- Shows what would change. -/
  | diff (o : ReviewOptions)
  /-- Carries out what would change, after a question unless it is answered beforehand. -/
  | apply (o : ReviewOptions) (yes removeLabels : Bool)
  /-- Writes a config that describes the account. -/
  | download (output token : Option String)
  /-- Shows the filters that a config is compiled to, without an account. -/
  | debug (config : Option String)

namespace Command

/-- The option for the config file. -/
def configOption : OptionSpec := ⟨["--config", "-c"], true⟩
/-- The option for the token file. -/
def tokenOption : OptionSpec := ⟨["--token-file", "-t"], true⟩

/-- The options for showing a difference. -/
def reviewSpecs : List OptionSpec := [
  configOption, tokenOption, ⟨["--context"], true⟩, ⟨["--color"], false⟩, ⟨["--no-color"], false⟩,
  ⟨["--debug"], false⟩]

/-- The whole number that a word is. -/
def integer? (word : String) : Option Int :=
  if word.toList.contains '.' then none else integerOfText? word

/-- What showing a difference needs, from the options given. -/
def reviewOptions (g : Given) : Option ReviewOptions := do
  let contextLines ← match g.last? "--context" with
    | none => some 5
    | some word => integer? word
  let color := (g.filter fun o => o.1 = "--color" || o.1 = "--no-color").getLast?
  return {
    config := g.last? "--config"
    token := g.last? "--token-file"
    contextLines
    color := (color.map (·.1)) = some "--color"
    withSearch := g.has "--debug" }

/-- The command of a name with its options. -/
def ofOptions? (name : String) (words : List String) : Option Command := do
  match name with
  | "diff" => return .diff (← reviewOptions (← readOptions reviewSpecs words))
  | "apply" =>
    let g ← readOptions
      (reviewSpecs ++ [⟨["--yes", "-y"], false⟩, ⟨["--remove-labels"], false⟩]) words
    return .apply (← reviewOptions g) (g.has "--yes") (g.has "--remove-labels")
  | "download" =>
    let g ← readOptions [⟨["--output", "-o"], true⟩, tokenOption] words
    return .download (g.last? "--output") (g.last? "--token-file")
  | "debug" =>
    let g ← readOptions [configOption] words
    return .debug (g.last? "--config")
  | _ => none

/-- The options before the name of a command. -/
def commonSpecs : List OptionSpec := [⟨["--verbose", "-v"], false⟩]

/-- The command of a command line. -/
def ofArgs? : List String → Option Command
  | [] => none
  | word :: rest =>
    if word = "--" then match rest with
      | name :: words => ofOptions? name words
      | [] => none
    else if word.startsWith "-" && 1 < word.length then do
      let _ ← wordOptions commonSpecs word
      ofArgs? rest
    else ofOptions? word rest

end Command

end MailRules
