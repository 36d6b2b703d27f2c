import MailRules.Config.Schema
import MailRules.Folder
import MailRules.Jsonnet.Eval
import MailRules.Yaml.Reader

/-!
# Loading configs

From a text or a file to a config.  Files are in YAML, of which JSON is a part, unless their
ending says that they are in Jsonnet.

* `Config.ofDocument` checks a decoded document: that it is a mapping, its version, its shape.
* `Config.ofYaml`, `Config.ofJsonnet` and `Config.load` decode a text or a file first.
-/

namespace MailRules

/-- Why a config cannot be loaded.  The source is what the document was decoded from. -/
inductive LoadError where
  /-- There is no file at the path. -/
  | notFound (path : String)
  /-- The file has no text. -/
  | unreadable (path : String) (fault : FileFault)
  /-- The text is no document. -/
  | malformed (source : String)
  /-- A scalar of the document has no value. -/
  | scalar (e : Yaml.ScalarError)
  /-- The text is no program with a value. -/
  | malformedJsonnet (source : String)
  /-- The document is no mapping. -/
  | notMapping (source : String)
  /-- The version is not known. -/
  | version (found : Value)
  /-- Values of the document are refused. -/
  | invalid (source : String) (problems : List Problem)

/-- The text of the error. -/
def LoadError.message : LoadError → String
  | .notFound path => "config not found: " ++ path
  | .unreadable path fault => "reading config file " ++ path ++ ": " ++ fault.message path
  | .malformed source => "parsing " ++ source
  | .scalar e => e.message
  | .malformedJsonnet source => "parsing jsonnet " ++ source
  | .notMapping source => source ++ ": expected a mapping at the top level"
  | .version found =>
    "unsupported config version: " ++ found.literal ++ " (expected " ++ quoted configVersion ++ ")"
  | .invalid source _ => "invalid config " ++ source

namespace Config

/-- The name of a document that was not read from a file. -/
def unnamedSource : String := "<config>"

/-- The config of a document.  The version is checked before the shape, so that a config of
another version is refused for that reason. -/
def ofDocument (source : String) (v : Value) : Except LoadError Config :=
  match v with
  | .map ms =>
    let version := (Value.member? "version" ms).getD .null
    match version with
    | .scalar (.str s) =>
      if s = configVersion then
        match readConfig v with
        | .ok c => .ok c
        | .refused ps => .error (.invalid source ps)
      else .error (.version version)
    | _ => .error (.version version)
  | _ => .error (.notMapping source)

/-- The config of a YAML text. -/
def ofYaml (source text : String) : Except LoadError Config :=
  match Yaml.read text with
  | .ok v => ofDocument source v
  | .error .malformed => .error (.malformed source)
  | .error (.scalar e) => .error (.scalar e)

/-- The config of a Jsonnet text. -/
def ofJsonnet (lib : Jsonnet.Library) (source text : String) : Except LoadError Config :=
  match Jsonnet.evaluate lib source text with
  | some v => ofDocument source v
  | none => .error (.malformedJsonnet source)

/-- A text with a line feed at the end of every line. -/
def withLineFeeds (text : String) : String :=
  String.ofList (go text.toList)
where
  go : List Char → List Char
    | [] => []
    | '\r' :: '\n' :: cs => '\n' :: go cs
    | '\r' :: cs => '\n' :: go cs
    | c :: cs => c :: go cs

/-- The endings of the paths of Jsonnet files. -/
def jsonnetEndings : List String := [".jsonnet", ".libsonnet"]

/-- The config of a file.  Imports are looked for in the given directory, or else in that of the
file. -/
def load (files : Folder) (path : String) (imports : Option String := none) :
    Except LoadError Config :=
  let path := normalPath path
  match files.read path with
  | .error .missing => .error (.notFound path)
  | .error fault => .error (.unreadable path fault)
  | .ok text =>
    let text := withLineFeeds text
    if jsonnetEndings.contains (pathEnding path) then
      let directory := (imports.map normalPath).getD (parentPath path)
      ofJsonnet { read := fun p => (files.read p).toOption, searched := [directory] } path text
    else ofYaml path text

end Config

end MailRules
