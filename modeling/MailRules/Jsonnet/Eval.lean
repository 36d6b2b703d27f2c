import MailRules.Jsonnet.Reader
import MailRules.Jsonnet.Scope
import MailRules.Value.Basic
import MailRules.Decimal.Shortest

/-!
# Evaluating Jsonnet

Evaluation is lazy: what stands in a list, a field, an argument or a bound name is a `Suspended`
expression and is evaluated where its value is needed.

* `Data` is the value of an expression.  An object is a list of `Layer`s, the topmost first;
  adding objects stacks their layers, and a field is looked up from the top.
* `Env` says what the names at a place stand for, and which objects are around it.
* `eval` is the value of an expression, `manifest` the document value of data, and `evaluate` the
  document value of a text.
* Every step of evaluation uses a unit of the given depth, so that endless recursion fails.
-/

namespace MailRules

namespace Jsonnet

mutual

/-- What the names at a place stand for. -/
inductive Env where
  /-- The names of a file: there are none, and imports start from its directory. -/
  | file (directory : String)
  /-- The parameters of a function, each with its argument. -/
  | args (values : List (String × Suspended)) (outer : Env)
  /-- Local names, which may use each other. -/
  | binds (binds : List Bind) (outer : Env)
  /-- The inside of an object, for the words that mean the object and the one below. -/
  | inside (whole below : List Layer) (outer : Env)

/-- An expression with the names it is evaluated under. -/
inductive Suspended where
  | mk (env : Env) (e : Expr)

/-- One object of the sum that an object is. -/
inductive Layer where
  | mk (fields : List Field) (asserts : List (Env × List Bind × Expr))

/-- A field with what is around its object, and the local names of the object. -/
inductive Field where
  | mk (name : String) (added : Bool) (visibility : Visibility) (env : Env) (binds : List Bind)
    (value : Expr)

end

/-- The value of an expression. -/
inductive Data where
  /-- The null value. -/
  | null
  /-- A truth value. -/
  | bool (b : Bool)
  /-- A number. -/
  | num (x : Float)
  /-- A text. -/
  | str (s : String)
  /-- A list; its items are evaluated when they are asked for. -/
  | list (items : List Suspended)
  /-- An object, the sum of some. -/
  | object (layers : List Layer)
  /-- A function, with the names it was made under. -/
  | fn (params : List (String × Option Expr)) (body : Expr) (env : Env)

/-! ### Names -/

namespace Env

/-- What a variable stands for. -/
def find? (name : String) : Env → Option Suspended
  | .file _ => none
  | .args values outer => match values.find? (·.1 = name) with
    | some v => some v.2
    | none => outer.find? name
  | .binds bs outer => match bs.find? (·.name = name) with
    | some (.mk _ e) => some (.mk (.binds bs outer) e)
    | none => outer.find? name
  | .inside _ _ outer => outer.find? name

/-- The innermost object around a place, with the layers below the one that the place is in. -/
def object? : Env → Option (List Layer × List Layer)
  | .file _ => none
  | .args _ outer | .binds _ outer => outer.object?
  | .inside whole below _ => some (whole, below)

/-- The outermost object around a place. -/
def root? : Env → Option (List Layer)
  | .file _ => none
  | .args _ outer | .binds _ outer => outer.root?
  | .inside whole _ outer => some (outer.root?.getD whole)

/-- The directory of the file that a place is in. -/
def directory : Env → String
  | .file d => d
  | .args _ outer | .binds _ outer | .inside _ _ outer => outer.directory

end Env

/-! ### Objects -/

/-- The name of a field. -/
def Field.name : Field → String
  | .mk n .. => n

/-- The visibility of a field. -/
def Field.visibility : Field → Visibility
  | .mk _ _ v .. => v

/-- The fields of a layer. -/
def Layer.fields : Layer → List Field
  | .mk fs _ => fs

/-- The field of the given name that is nearest to the top, with the layers below its own. -/
def findField (name : String) : List Layer → Option (Field × List Layer)
  | [] => none
  | l :: ls => match l.fields.find? (·.name = name) with
    | some f => some (f, ls)
    | none => findField name ls

/-- The names of all fields, in order. -/
def fieldNames (layers : List Layer) : List String :=
  let all := layers.flatMap fun l => l.fields.map Field.name
  all.eraseDups.mergeSort (· ≤ ·)

/-- Whether a field is part of the output.  The topmost layer that says so decides. -/
def isVisible (layers : List Layer) (name : String) : Bool :=
  let said := layers.filterMap fun l => (l.fields.find? (·.name = name)).map Field.visibility
  (said.find? (· ≠ .standard)) ≠ some .hidden

/-- The names under which the value of a field is evaluated. -/
def envInside (whole below : List Layer) (env : Env) (binds : List Bind) : Env :=
  .binds binds (.inside whole below env)

/-! ### Imports -/

/-- The files that can be imported. -/
structure Library where
  /-- The text at a path, if there is one. -/
  read : String → Option String := fun _ => none
  /-- The directories that imports are looked for in. -/
  searched : List String := []

/-- The part of a path up to its last slash. -/
def directoryOf (path : String) : String :=
  String.ofList (path.toList.reverse.dropWhile (· ≠ '/')).reverse

/-- A path as the name of a directory, with a slash behind it. -/
def asDirectory (path : String) : String :=
  if path = "" || path.toList.getLast? = some '/' then path else path ++ "/"

namespace Library

/-- The file that an import from a directory names, with its path: it is looked for in that
directory, and then where the library says. -/
def find? (lib : Library) (directory path : String) : Option (String × String) :=
  let candidates := if path.toList.head? = some '/' then [path]
    else (directory :: lib.searched.map asDirectory).map (· ++ path)
  candidates.findSome? fun p => (lib.read p).map fun text => (p, text)

end Library

/-! ### Texts of values -/

/-- The text of a number: a whole number without fraction, and seventeen digits otherwise. -/
def numberText (x : Float) : String :=
  match (Scalar.float x).whole? with
  | some i => toString i
  | none => (if x < 0 then "-" else "") ++
      plainNumbers.write ((Binary.ofBits x.abs.toBits).nearest 17)

/-- A text between quotation marks, with escapes. -/
def quotedJson (s : String) : String :=
  let escape := fun (c : Char) =>
    if c = '"' then "\\\""
    else if c = '\\' then "\\\\"
    else if c = '\x08' then "\\b"
    else if c = '\x0c' then "\\f"
    else if c = '\n' then "\\n"
    else if c = '\r' then "\\r"
    else if c = '\t' then "\\t"
    else if c < ' ' || ('\x7f' ≤ c && c ≤ '\u009f') then
      "\\u" ++ String.ofList ((Nat.toDigits 16 (0x10000 + c.toNat)).drop 1)
    else String.singleton c
  "\"" ++ String.join (s.toList.map escape) ++ "\""

/-- The document value of a number. -/
def numberValue (x : Float) : Value :=
  match (Scalar.float x).whole? with
  | some i => if i.natAbs < Nat.pow 10 17 then .int i else .scalar (.float x)
  | none => .scalar (.float x)

mutual

/-- A document value in one line. -/
def inlineJson : Value → String
  | .scalar .null => "null"
  | .scalar (.bool b) => if b then "true" else "false"
  | .scalar (.int i) => toString i
  | .scalar (.float x) => numberText x
  | .scalar (.str s) => quotedJson s
  | .scalar _ => ""
  | .list [] => "[ ]"
  | .list vs => "[" ++ ", ".intercalate (inlineItems vs) ++ "]"
  | .map [] => "\x7b \x7d"
  | .map ms => "\x7b" ++ ", ".intercalate (inlineMembers ms) ++ "\x7d"

/-- The items of a list, each in one line. -/
def inlineItems : List Value → List String
  | [] => []
  | v :: vs => inlineJson v :: inlineItems vs

/-- The members of a mapping, each in one line. -/
def inlineMembers : List (Scalar × Value) → List String
  | [] => []
  | (.str k, v) :: ms => (quotedJson k ++ ": " ++ inlineJson v) :: inlineMembers ms
  | _ :: ms => inlineMembers ms

end

/-! ### Evaluation -/

/-- A number as the result of an operation.  A result that is not finite is an error. -/
def finite (x : Float) : Option Data :=
  if x.isFinite then some (.num x) else none

/-- The remainder of a division, with the sign of the dividend. -/
def remainder (x y : Float) : Option Data :=
  match (Scalar.float x).whole?, (Scalar.float y).whole? with
  | some i, some j => if j = 0 then none else some (.num (Float.ofInt (Int.tmod i j)))
  | _, _ => none

/-- The kind of a value, for comparisons. -/
def Data.kind : Data → Nat
  | .null => 0 | .bool _ => 1 | .num _ => 2 | .str _ => 3 | .list _ => 4 | .object _ => 5
  | .fn .. => 6

/-- The parameters of a call: those that are given, and the defaults of the others.  Positional
arguments come before named ones. -/
def matchArgs (env : Env) (params : List (String × Option Expr))
    (args : List (Option String × Expr)) : Option (List (String × Suspended) × List Bind) := do
  let positional := (args.filter (·.1.isNone)).map (·.2)
  let named := args.filterMap fun a => a.1.map fun n => (n, a.2)
  let names := params.map (·.1)
  let given := names.zip positional ++ named
  if names.length < positional.length then none
  else if !(given.all fun g => names.contains g.1) then none
  else if !distinct (given.map (·.1)) then none
  else
    let rest := params.filter fun p => !(given.map (·.1)).contains p.1
    let defaults ← rest.mapM fun p => p.2.map (Bind.mk p.1)
    return (given.map fun g => (g.1, .mk env g.2), defaults)

section

variable (lib : Library)

mutual

/-- The value of an expression. -/
def eval : Nat → Env → Expr → Option Data
  | 0, _, _ => none
  | _, _, .null => some .null
  | _, _, .bool b => some (.bool b)
  | _, _, .num x => finite x
  | _, _, .str s => some (.str s)
  | depth + 1, env, .var name => do
    let .mk env e ← env.find? name
    eval depth env e
  | _, env, .self => env.object?.map fun o => .object o.1
  | _, _, .super => none
  | _, env, .root => env.root?.map Data.object
  | _, env, .list es => some (.list (es.map (Suspended.mk env)))
  | depth + 1, env, .listFor e cs => do
    return .list ((← each depth cs env).map fun env => .mk env e)
  | depth + 1, env, .object binds members asserts => do
    let fields := (← members.mapM fun
      | .mk name added visibility value => do
        return (← nameOf depth env name).map fun n => .mk n added visibility env binds value)
          |>.filterMap id
    if distinct (fields.map Field.name) then
      return .object [.mk fields (asserts.map fun a => (env, binds, a))]
    else none
  | depth + 1, env, .objectFor name value binds cs => do
    let fields := (← (← each depth cs env).mapM fun env => do
      return (← nameOf depth env name).map fun n => .mk n false .standard env binds value)
        |>.filterMap id
    if distinct (fields.map Field.name) then return .object [.mk fields []] else none
  | depth + 1, env, .index .super i => do
    let (whole, below) ← env.object?
    match ← eval depth env i with
    | .str name => fieldValue depth whole below name
    | _ => none
  | depth + 1, env, .index e i => do
    match ← eval depth env e, ← eval depth env i with
    | .object layers, .str name =>
      match e with
      | .self | .root => fieldValue depth layers layers name
      | _ =>
        let _ ← checkAsserts depth layers layers
        fieldValue depth layers layers name
    | .list items, .num x => do
      let .mk env e ← items[(← (Scalar.float x).whole?).toNat]?
      if x < 0 then none else eval depth env e
    | .str s, .num x => do
      let c ← s.toList[(← (Scalar.float x).whole?).toNat]?
      if x < 0 then none else some (.str (String.singleton c))
    | _, _ => none
  | depth + 1, env, .call f args => do
    match ← eval depth env f with
    | .fn params body closure =>
      let (given, defaults) ← matchArgs env params args
      eval depth (.binds defaults (.args given closure)) body
    | _ => none
  | _, env, .fn params body => some (.fn params body env)
  | depth + 1, env, .bound binds body => eval depth (.binds binds env) body
  | depth + 1, env, .cond test yes no => do
    match ← eval depth env test, no with
    | .bool true, _ => eval depth env yes
    | .bool false, some no => eval depth env no
    | .bool false, none => some .null
    | _, _ => none
  | depth + 1, env, .binary op a b => binary depth env op a b
  | depth + 1, env, .unary op e => do
    match op, ← eval depth env e with
    | .plus, .num x => some (.num x)
    | .minus, .num x => some (.num (-x))
    | .not, .bool b => some (.bool !b)
    | _, _ => none
  | _, _, .error _ => none
  | depth + 1, env, .assert test body => do
    match ← eval depth env test with
    | .bool true => eval depth env body
    | _ => none
  | depth + 1, env, .importFile path => do
    let (found, text) ← lib.find? env.directory path
    let e ← expr? text
    if e.isScoped {} then eval depth (.file (directoryOf found)) e else none
  | _, env, .importText path => (lib.find? env.directory path).map fun f => .str f.2

/-- The value of an operator with its operands.  "And" and "or" need not evaluate the second. -/
def binary : Nat → Env → BinaryOp → Expr → Expr → Option Data
  | 0, _, _, _, _ => none
  | depth + 1, env, .and, a, b => do
    match ← eval depth env a with
    | .bool false => some (.bool false)
    | .bool true => match ← eval depth env b with
      | .bool c => some (.bool c)
      | _ => none
    | _ => none
  | depth + 1, env, .or, a, b => do
    match ← eval depth env a with
    | .bool true => some (.bool true)
    | .bool false => match ← eval depth env b with
      | .bool c => some (.bool c)
      | _ => none
    | _ => none
  | depth + 1, env, .has, a, .super => do
    match ← eval depth env a, env.object? with
    | .str name, some (_, below) => some (.bool (findField name below).isSome)
    | _, _ => none
  | depth + 1, env, op, a, b => do
    let x ← eval depth env a
    let y ← eval depth env b
    match op with
    | .eq => return .bool (← equal depth x y)
    | .ne => return .bool !(← equal depth x y)
    | .lt => return .bool ((← order depth x y) = .lt)
    | .gt => return .bool ((← order depth x y) = .gt)
    | .le => return .bool ((← order depth x y) ≠ .gt)
    | .ge => return .bool ((← order depth x y) ≠ .lt)
    | .has => match x, y with
      | .str name, .object layers => some (.bool (findField name layers).isSome)
      | _, _ => none
    | _ => arithmetic depth op x y

/-- The value of a sum, difference, product, quotient or remainder. -/
def arithmetic : Nat → BinaryOp → Data → Data → Option Data
  | 0, _, _, _ => none
  | depth + 1, op, x, y =>
    match op, x, y with
    | .add, .num x, .num y => finite (x + y)
    | .sub, .num x, .num y => finite (x - y)
    | .mul, .num x, .num y => finite (x * y)
    | .div, .num x, .num y => if y == 0 then none else finite (x / y)
    | .mod, .num x, .num y => remainder x y
    | .add, .str s, .str t => some (.str (s ++ t))
    | .add, .str s, y => (dataText depth y).map fun t => .str (s ++ t)
    | .add, x, .str t => (dataText depth x).map fun s => .str (s ++ t)
    | .add, .list xs, .list ys => some (.list (xs ++ ys))
    | .add, .object xs, .object ys => some (.object (ys ++ xs))
    | _, _, _ => none

/-- The text of a value in a sum with a text. -/
def dataText : Nat → Data → Option String
  | 0, _ => none
  | depth + 1, x => do return inlineJson (← manifest depth x)

/-- The value of a field of an object, looked up in some of its layers. -/
def fieldValue : Nat → List Layer → List Layer → String → Option Data
  | 0, _, _, _ => none
  | depth + 1, whole, layers, name => do
    let (.mk _ added _ env binds e, below) ← findField name layers
    let own ← eval depth (envInside whole below env binds) e
    if added && (findField name below).isSome then
      arithmetic depth .add (← fieldValue depth whole below name) own
    else some own

/-- Checks the assertions of an object. -/
def checkAsserts : Nat → List Layer → List Layer → Option Unit
  | 0, _, _ => none
  | _, _, [] => some ()
  | depth + 1, whole, .mk _ asserts :: below => do
    for (env, binds, e) in asserts do
      match ← eval depth (envInside whole below env binds) e with
      | .bool true => pure ()
      | _ => none
    checkAsserts depth whole below

/-- The name of a field.  A field whose name is null is left out. -/
def nameOf : Nat → Env → Expr → Option (Option String)
  | 0, _, _ => none
  | depth + 1, env, name => do
    match ← eval depth env name with
    | .str n => some (some n)
    | .null => some none
    | _ => none

/-- The ways to bind the variables of clauses. -/
def each : Nat → List Clause → Env → Option (List Env)
  | 0, _, _ => none
  | _, [], env => some [env]
  | depth + 1, .each name items :: cs, env => do
    match ← eval depth env items with
    | .list xs => do
      return (← xs.mapM fun x => each depth cs (.args [(name, x)] env)).flatten
    | _ => none
  | depth + 1, .only test :: cs, env => do
    match ← eval depth env test with
    | .bool true => each depth cs env
    | .bool false => some []
    | _ => none

/-- Whether two values are equal.  Functions cannot be compared. -/
def equal : Nat → Data → Data → Option Bool
  | 0, _, _ => none
  | depth + 1, x, y =>
    match x, y with
    | .fn .., .fn .. => none
    | .object _, .object _ | .list _, .list _ => do
      return inlineJson (← manifest depth x) = inlineJson (← manifest depth y)
    | .null, .null => some true
    | .bool a, .bool b => some (a = b)
    | .num a, .num b => some (a == b)
    | .str a, .str b => some (a = b)
    | _, _ => some false

/-- The order of two values: numbers, texts, or lists of such. -/
def order : Nat → Data → Data → Option Ordering
  | 0, _, _ => none
  | depth + 1, x, y =>
    match x, y with
    | .num a, .num b => some (if a < b then .lt else if a == b then .eq else .gt)
    | .str a, .str b => some (if a < b then .lt else if a = b then .eq else .gt)
    | .list xs, .list ys => orderItems depth xs ys
    | _, _ => none

/-- The order of two lists, by their first items that differ. -/
def orderItems : Nat → List Suspended → List Suspended → Option Ordering
  | 0, _, _ => none
  | _, [], [] => some .eq
  | _, [], _ => some .lt
  | _, _, [] => some .gt
  | depth + 1, .mk env e :: xs, .mk env' e' :: ys => do
    match ← order depth (← eval depth env e) (← eval depth env' e') with
    | .eq => orderItems depth xs ys
    | o => some o

/-- The document value of data.  A function has none. -/
def manifest : Nat → Data → Option Value
  | 0, _ => none
  | _, .null => some .null
  | _, .bool b => some (.bool b)
  | _, .num x => some (numberValue x)
  | _, .str s => some (.str s)
  | depth + 1, .list items => do
    return .list (← items.mapM fun | .mk env e => do manifest depth (← eval depth env e))
  | depth + 1, .object layers => do
    let _ ← checkAsserts depth layers layers
    return .map (← ((fieldNames layers).filter (isVisible layers)).mapM fun n => do
      return (.str n, ← manifest depth (← fieldValue depth layers layers n)))
  | _, .fn .. => none

end

/-- How deep evaluation may go. -/
def maxDepth : Nat := 4000

/-- The document value of the text of a file. -/
def evaluate (path text : String) : Option Value := do
  let e ← expr? text
  if e.isScoped {} then manifest lib maxDepth (← eval lib maxDepth (.file (directoryOf path)) e)
  else none

end

end Jsonnet

end MailRules
