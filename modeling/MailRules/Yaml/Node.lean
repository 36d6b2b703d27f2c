import MailRules.Yaml.Lexer
import MailRules.Yaml.Plain

/-!
# From YAML tokens to nodes

A node is a scalar, a list of nodes or a list of pairs of nodes, with its tag.  An alias stands
for the node that its anchor marks.

* `Node` is the type, `NodeReader` what is known while nodes are read: the tokens that are left,
  the meanings of tag handles, and the anchored nodes.
* `readBlock`, `readFlow` and their companions read the forms of collections.
* `document?` is the one document of a text; a text without a document has none, and a text that
  is not YAML or holds several documents is refused.
-/

namespace MailRules

namespace Yaml

/-- The tag of a node: what a plain scalar is recognised as, the kinds of collections, or any
other tag that is written out. -/
inductive Tag where
  /-- A scalar of a kind. -/
  | scalar (kind : PlainKind)
  /-- A list. -/
  | list
  /-- A mapping. -/
  | map
  /-- A list of pairs. -/
  | pairs
  /-- A tag that is written out. -/
  | other (name : String)
  deriving DecidableEq, Inhabited

/-- A node of a document. -/
inductive Node where
  /-- A scalar with its text. -/
  | scalar (tag : Tag) (text : List Char)
  /-- A list. -/
  | list (tag : Tag) (items : List Node)
  /-- A mapping. -/
  | map (tag : Tag) (members : List (Node × Node))
  deriving Inhabited

/-- The beginning of the standard tags. -/
def standardTags : String := "tag:yaml.org,2002:"

/-- The tag of a written name. -/
def Tag.ofName (name : String) : Tag :=
  let known : List (String × Tag) := [
    ("null", .scalar .null), ("bool", .scalar .bool), ("int", .scalar .int),
    ("float", .scalar .float), ("timestamp", .scalar .timestamp), ("merge", .scalar .merge),
    ("value", .scalar .value), ("str", .scalar .str), ("seq", .list), ("map", .map),
    ("omap", .pairs), ("pairs", .pairs)]
  match known.find? fun k => standardTags ++ k.1 = name with
  | some k => k.2
  | none => .other name

/-- What is known while nodes are read. -/
structure NodeReader where
  /-- The tokens that remain. -/
  tokens : List Token
  /-- The handles of tags, each with what it means. -/
  handles : List (String × String) := []
  /-- The nodes that have a name. -/
  anchors : List (String × Node) := []

/-- The properties of a node: its written tag, with its handle replaced, and its anchor. -/
structure NodeMarks where
  /-- The tag. -/
  tag : Option String := none
  /-- The name. -/
  anchor : Option String := none

/-- Whether no tag is given, or the one that leaves the choice to the form of the node. -/
def NodeMarks.isUntagged (m : NodeMarks) : Bool :=
  m.tag = none || m.tag = some "!"

namespace NodeReader

/-- The token that is next. -/
def head (s : NodeReader) : Token :=
  s.tokens.headD .streamEnd

/-- Takes the next token. -/
def drop (s : NodeReader) : NodeReader :=
  { s with tokens := s.tokens.drop 1 }

/-- Remembers a node under its anchor. -/
def remember (s : NodeReader) (anchor : Option String) (n : Node) : NodeReader :=
  match anchor with
  | some a => { s with anchors := (a, n) :: s.anchors }
  | none => s

/-- The meaning of a written tag. -/
def expandTag? (s : NodeReader) (t : TagText) : Option String :=
  match t.handle with
  | none => some t.suffix
  | some h => (s.handles.find? (·.1 = h)).map fun m => m.2 ++ t.suffix

/-- Reads a tag and an anchor, in either order.  An anchor may be given once. -/
def readMarks (s : NodeReader) : Option (NodeMarks × NodeReader) := do
  let (tag, anchor, s) := match s.tokens with
    | .anchor a :: .tag t :: _ => (some t, some a, s.drop.drop)
    | .tag t :: .anchor a :: _ => (some t, some a, s.drop.drop)
    | .anchor a :: _ => (none, some a, s.drop)
    | .tag t :: _ => (some t, none, s.drop)
    | _ => (none, none, s)
  let tag ← match tag with
    | some t => do pure (some (← s.expandTag? t))
    | none => pure none
  if anchor.any fun a => s.anchors.any (·.1 = a) then none
  else pure ({ tag, anchor }, s)

/-- A scalar node.  `plain` says that its text tells what it stands for. -/
def scalarNode (m : NodeMarks) (plain : Bool) (text : List Char) : Node :=
  let tag := match m.tag with
    | some t => if t = "!" then .scalar (.of text) else Tag.ofName t
    | none => if plain then .scalar (.of text) else .scalar .str
  .scalar tag text

/-- An empty node. -/
def emptyNode : Node :=
  .scalar (.scalar .null) []

/-- The tag of a collection. -/
def collectionTag (m : NodeMarks) (natural : Tag) : Tag :=
  if m.isUntagged then natural else Tag.ofName (m.tag.getD "")

mutual

/-- Reads a node.  `block` permits block collections, and `indentless` also the items of a list
that is not indented. -/
def readNode (block indentless : Bool) : Nat → NodeReader → Option (Node × NodeReader)
  | 0, _ => none
  | fuel + 1, s =>
    match s.head with
    | .alias a => (s.anchors.find? (·.1 = a)).map fun n => (n.2, s.drop)
    | _ => do
      let (m, s) ← s.readMarks
      let finish := fun (n : Node) (s : NodeReader) => some (n, s.remember m.anchor n)
      let list := fun (items : List Node) => Node.list (collectionTag m .list) items
      let map := fun (members : List (Node × Node)) => Node.map (collectionTag m .map) members
      match s.head with
      | .scalar plain text => finish (scalarNode m plain text) s.drop
      | .flowSequenceStart => do
        let (items, s) ← readFlowItems true fuel s.drop
        finish (list items) s
      | .flowMappingStart => do
        let (members, s) ← readFlowMembers true fuel s.drop
        finish (map members) s
      | t =>
        if indentless && t = .blockEntry then do
          let (items, s) ← readBlockItems true fuel s
          finish (list items) s
        else if block && t = .blockSequenceStart then do
          let (items, s) ← readBlockItems false fuel s.drop
          finish (list items) s
        else if block && t = .blockMappingStart then do
          let (members, s) ← readBlockMembers fuel s.drop
          finish (map members) s
        else if m.tag.isSome || m.anchor.isSome then
          finish (scalarNode m true []) s
        else none

/-- Reads the items of a block list; an indentless one ends without a token of its own. -/
def readBlockItems (indentless : Bool) : Nat → NodeReader → Option (List Node × NodeReader)
  | 0, _ => none
  | fuel + 1, s =>
    if s.head = .blockEntry then do
      let s := s.drop
      let ended := s.head = .blockEntry || s.head = .blockEnd ||
        (indentless && (s.head = .key || s.head = .value))
      let (item, s) ← if ended then some (emptyNode, s) else readNode true false fuel s
      let (items, s) ← readBlockItems indentless fuel s
      return (item :: items, s)
    else if indentless then some ([], s)
    else if s.head = .blockEnd then some ([], s.drop)
    else none

/-- Reads the members of a block mapping. -/
def readBlockMembers : Nat → NodeReader → Option (List (Node × Node) × NodeReader)
  | 0, _ => none
  | fuel + 1, s =>
    let ended := fun (s : NodeReader) =>
      s.head = .key || s.head = .value || s.head = .blockEnd
    if s.head = .key then do
      let s := s.drop
      let (name, s) ← if ended s then some (emptyNode, s) else readNode true true fuel s
      let (value, s) ←
        if s.head = .value then
          let s := s.drop
          if ended s then some (emptyNode, s) else readNode true true fuel s
        else some (emptyNode, s)
      let (members, s) ← readBlockMembers fuel s
      return ((name, value) :: members, s)
    else if s.head = .blockEnd then some ([], s.drop)
    else none

/-- Reads the items of a flow list.  A name with a value among them is a mapping of its own. -/
def readFlowItems (first : Bool) : Nat → NodeReader → Option (List Node × NodeReader)
  | 0, _ => none
  | fuel + 1, s =>
    if s.head = .flowSequenceEnd then some ([], s.drop)
    else do
      let s ← if first then some s else if s.head = .flowEntry then some s.drop else none
      if s.head = .flowSequenceEnd then return ([], s.drop)
      else do
        let ended := fun (s : NodeReader) =>
          s.head = .flowEntry || s.head = .flowSequenceEnd
        let (item, s) ←
          if s.head = .key then do
            let s := s.drop
            let (name, s) ← if s.head = .value || ended s then some (emptyNode, s)
              else readNode false false fuel s
            let (value, s) ← if s.head = .value then
                let s := s.drop
                if ended s then some (emptyNode, s) else readNode false false fuel s
              else some (emptyNode, s)
            pure (Node.map .map [(name, value)], s)
          else readNode false false fuel s
        let (items, s) ← readFlowItems false fuel s
        return (item :: items, s)

/-- Reads the members of a flow mapping.  A value may be left out. -/
def readFlowMembers (first : Bool) :
    Nat → NodeReader → Option (List (Node × Node) × NodeReader)
  | 0, _ => none
  | fuel + 1, s =>
    if s.head = .flowMappingEnd then some ([], s.drop)
    else do
      let s ← if first then some s else if s.head = .flowEntry then some s.drop else none
      if s.head = .flowMappingEnd then return ([], s.drop)
      else do
        let ended := fun (s : NodeReader) =>
          s.head = .flowEntry || s.head = .flowMappingEnd
        let ((name, value), s) ←
          if s.head = .key then do
            let s := s.drop
            let (name, s) ← if s.head = .value || ended s then some (emptyNode, s)
              else readNode false false fuel s
            let (value, s) ← if s.head = .value then
                let s := s.drop
                if ended s then some (emptyNode, s) else readNode false false fuel s
              else some (emptyNode, s)
            pure ((name, value), s)
          else do
            let (name, s) ← readNode false false fuel s
            pure ((name, emptyNode), s)
        let (members, s) ← readFlowMembers false fuel s
        return ((name, value) :: members, s)

end

/-- Reads directives.  The version may be given once and has to be 1; a handle may be given
once. -/
def readDirectives (seenVersion : Bool) (handles : List (String × String)) :
    List Token → Option (List (String × String) × List Token)
  | .versionDirective major :: ts =>
    if seenVersion || major ≠ 1 then none else readDirectives true handles ts
  | .tagDirective handle meaning :: ts =>
    if handles.any (·.1 = handle) then none
    else readDirectives seenVersion ((handle, meaning) :: handles) ts
  | .otherDirective :: ts => readDirectives seenVersion handles ts
  | ts => some (handles, ts)

/-- The handles that need no directive. -/
def defaultHandles : List (String × String) := [("!", "!"), ("!!", standardTags)]

/-- Drops the marks that end a document. -/
def dropEnds : List Token → List Token
  | .documentEnd :: ts => dropEnds ts
  | ts => ts

/-- Whether a token cannot begin the content of a document. -/
def endsContent : Token → Bool
  | .versionDirective _ | .tagDirective _ _ | .otherDirective | .documentStart | .documentEnd
  | .streamEnd => true
  | _ => false

/-- Reads what is left after a document: nothing but marks that end it. -/
def readEnd (ts : List Token) : Option Unit :=
  if dropEnds ts = [.streamEnd] then some () else none

/-- The only document of a text, given by its tokens. -/
def readStream (ts : List Token) : Option (Option Node) := do
  let fuel := 2 * ts.length + 4
  let content := fun (handles : List (String × String)) (ts : List Token) => do
    let (n, s) ←
      if endsContent (ts.headD .streamEnd) then some (emptyNode, ({ tokens := ts } : NodeReader))
      else readNode true false fuel { tokens := ts, handles }
    readEnd s.tokens
    return some n
  match ts with
  | [.streamEnd] => return none
  | t :: _ =>
    if endsContent t && t ≠ .documentEnd then do
      let (handles, ts) ← readDirectives false [] ts
      match ts with
      | .documentStart :: ts => content (handles ++ defaultHandles) ts
      | _ => none
    else if t = .documentEnd then none
    else content defaultHandles ts
  | [] => none

end NodeReader

/-- The document of a text, if it holds one; `none` on the outside is a text that is not YAML or
holds several documents. -/
def document? (text : List Char) : Option (Option Node) := do
  NodeReader.readStream (← tokens? text)

end Yaml

end MailRules
