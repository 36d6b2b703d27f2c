import MailRules.Jsonnet.Lexer

/-!
# Reading Jsonnet expressions

Expressions are read by precedence: calls and fields bind strongest, then signs, products, sums,
comparisons, equality, "and" and "or".  Local variables, conditions, functions and the like reach
as far as they can.

* `readExpr` reads an expression, `expr?` a whole text.
* `importedPaths` are the files that a text imports.
-/

namespace MailRules

namespace Jsonnet

/-- A result with the words that are left. -/
abbrev Rest := List Token

/-- Takes a symbol. -/
def expect (s : String) : Rest → Option Rest
  | .symbol t :: ts => if s = t then some ts else none
  | _ => none

/-- Whether a symbol is next. -/
def at? (s : String) (ts : Rest) : Bool :=
  (expect s ts).isSome

/-- The words that are not names. -/
def keywords : List String := [
  "assert", "else", "error", "false", "for", "function", "if", "import", "importstr", "in",
  "local", "null", "tailstrict", "then", "self", "super", "true"]

/-- Takes a word that is spelled so. -/
def expectWord (s : String) : Rest → Option Rest
  | .name t :: ts => if s = t then some ts else none
  | _ => none

/-- Takes a name. -/
def readName : Rest → Option (String × Rest)
  | .name s :: ts => if keywords.contains s then none else some (s, ts)
  | _ => none

/-- The operators by precedence, the weakest first. -/
def levels : List (List (String × BinaryOp)) := [
  [("||", .or)], [("&&", .and)], [("==", .eq), ("!=", .ne)],
  [("<", .lt), (">", .gt), ("<=", .le), (">=", .ge)], [("+", .add), ("-", .sub)],
  [("*", .mul), ("/", .div), ("%", .mod)]]

/-- The operator of a level that is next. -/
def readOperator (level : List (String × BinaryOp)) : Rest → Option (BinaryOp × Rest)
  | .symbol s :: ts => (level.find? (·.1 = s)).map fun o => (o.2, ts)
  | .name "in" :: ts => if level.any (·.2 = .lt) then some (.has, ts) else none
  | _ => none

/-- The mark between the name and the value of a field. -/
def fieldMarks : List (String × Bool × Visibility) := [
  (":", false, .standard), ("::", false, .hidden), (":::", false, .forced),
  ("+:", true, .standard), ("+::", true, .hidden), ("+:::", true, .forced)]

/-- Takes the mark between the name and the value of a field. -/
def readFieldMark : Rest → Option ((Bool × Visibility) × Rest)
  | .symbol s :: ts => (fieldMarks.find? (·.1 = s)).map fun m => (m.2, ts)
  | _ => none

/-- What has been read of an object: local names, fields and assertions. -/
structure ObjectParts where
  /-- The local names. -/
  binds : List Bind := []
  /-- The fields. -/
  fields : List Member := []
  /-- The assertions. -/
  asserts : List Expr := []

mutual

/-- Reads an expression. -/
def readExpr : Nat → Rest → Option (Expr × Rest)
  | 0, _ => none
  | fuel + 1, ts =>
    match ts with
    | .name "local" :: ts => do
      let (binds, ts) ← readBinds fuel ts
      let (body, ts) ← readExpr fuel (← expect ";" ts)
      return (.bound binds body, ts)
    | .name "if" :: ts => do
      let (test, ts) ← readExpr fuel ts
      let (yes, ts) ← readExpr fuel (← expectWord "then" ts)
      match expectWord "else" ts with
      | some ts => do
        let (no, ts) ← readExpr fuel ts
        return (.cond test yes (some no), ts)
      | none => return (.cond test yes none, ts)
    | .name "function" :: ts => do
      let (params, ts) ← readParams fuel (← expect "(" ts)
      let (body, ts) ← readExpr fuel ts
      return (.fn params body, ts)
    | .name "error" :: ts => do
      let (e, ts) ← readExpr fuel ts
      return (.error e, ts)
    | .name "assert" :: ts => do
      let (test, ts) ← readAssert fuel ts
      let (body, ts) ← readExpr fuel (← expect ";" ts)
      return (.assert test body, ts)
    | .name "import" :: .text path :: ts => some (.importFile path, ts)
    | .name "importstr" :: .text path :: ts => some (.importText path, ts)
    | ts => readLevel fuel levels ts

/-- Reads an assertion with an optional message. -/
def readAssert : Nat → Rest → Option (Expr × Rest)
  | 0, _ => none
  | fuel + 1, ts => do
    let (test, ts) ← readExpr fuel ts
    match expect ":" ts with
    | some ts => do
      let (_, ts) ← readExpr fuel ts
      return (test, ts)
    | none => return (test, ts)

/-- Reads operators of some levels of precedence. -/
def readLevel : Nat → List (List (String × BinaryOp)) → Rest → Option (Expr × Rest)
  | 0, _, _ => none
  | fuel + 1, [], ts => readUnary fuel ts
  | fuel + 1, level :: stronger, ts => do
    let (e, ts) ← readLevel fuel stronger ts
    readOperands fuel level stronger e ts

/-- Reads further operands of one level. -/
def readOperands : Nat → List (String × BinaryOp) → List (List (String × BinaryOp)) →
    Expr → Rest → Option (Expr × Rest)
  | 0, _, _, _, _ => none
  | fuel + 1, level, stronger, e, ts =>
    match readOperator level ts with
    | none => some (e, ts)
    | some (op, ts) => do
      let (f, ts) ← readLevel fuel stronger ts
      readOperands fuel level stronger (.binary op e f) ts

/-- Reads an expression with signs before it. -/
def readUnary : Nat → Rest → Option (Expr × Rest)
  | 0, _ => none
  | fuel + 1, ts =>
    let signs := [("-", UnaryOp.minus), ("+", .plus), ("!", .not)]
    match ts with
    | .symbol s :: rest =>
      match signs.find? (·.1 = s) with
      | some op => do
        let (e, ts) ← readUnary fuel rest
        return (.unary op.2 e, ts)
      | none => do
        let (e, ts) ← readAtom fuel ts
        readSuffixes fuel e ts
    | ts => do
      let (e, ts) ← readAtom fuel ts
      readSuffixes fuel e ts

/-- Reads fields, calls and extensions behind an expression. -/
def readSuffixes : Nat → Expr → Rest → Option (Expr × Rest)
  | 0, _, _ => none
  | fuel + 1, e, ts =>
    match ts with
    | .symbol "." :: ts => do
      let (name, ts) ← readName ts
      readSuffixes fuel (.index e (.str name)) ts
    | .symbol "[" :: ts => do
      let (i, ts) ← readExpr fuel ts
      readSuffixes fuel (.index e i) (← expect "]" ts)
    | .symbol "(" :: ts => do
      let (args, ts) ← readArgs fuel ts
      let ts := (expectWord "tailstrict" ts).getD ts
      readSuffixes fuel (.call e args) ts
    | .symbol "\x7b" :: ts => do
      let (o, ts) ← readObject fuel ts
      readSuffixes fuel (.binary .add e o) ts
    | ts => some (e, ts)

/-- Reads an expression that no operator divides. -/
def readAtom : Nat → Rest → Option (Expr × Rest)
  | 0, _ => none
  | fuel + 1, ts =>
    match ts with
    | .number x :: ts => some (.num x, ts)
    | .text s :: ts => some (.str s, ts)
    | .name "null" :: ts => some (.null, ts)
    | .name "true" :: ts => some (.bool true, ts)
    | .name "false" :: ts => some (.bool false, ts)
    | .name "self" :: ts => some (.self, ts)
    | .name "super" :: ts => some (.super, ts)
    | .symbol "$" :: ts => some (.root, ts)
    | .symbol "(" :: ts => do
      let (e, ts) ← readExpr fuel ts
      return (e, ← expect ")" ts)
    | .symbol "[" :: ts => readList fuel ts
    | .symbol "\x7b" :: ts => readObject fuel ts
    | .name s :: ts =>
      if ["local", "if", "function", "error", "assert", "import", "importstr"].contains s then
        readExpr fuel (.name s :: ts)
      else do
        let (name, ts) ← readName (.name s :: ts)
        return (.var name, ts)
    | _ => none

/-- Reads a list or a comprehension, behind its bracket. -/
def readList : Nat → Rest → Option (Expr × Rest)
  | 0, _ => none
  | fuel + 1, ts =>
    match expect "]" ts with
    | some ts => some (.list [], ts)
    | none => do
      let (e, ts) ← readExpr fuel ts
      let after := (expect "," ts).getD ts
      match expectWord "for" after with
      | some _ => do
        let (clauses, ts) ← readClauses fuel after
        return (.listFor e clauses, ← expect "]" ts)
      | none => do
        let (es, ts) ← readItems fuel ts
        return (.list (e :: es), ts)

/-- Reads further items of a list. -/
def readItems : Nat → Rest → Option (List Expr × Rest)
  | 0, _ => none
  | fuel + 1, ts =>
    match expect "]" ts with
    | some ts => some ([], ts)
    | none => do
      let ts ← expect "," ts
      match expect "]" ts with
      | some ts => return ([], ts)
      | none => do
        let (e, ts) ← readExpr fuel ts
        let (es, ts) ← readItems fuel ts
        return (e :: es, ts)

/-- Reads the clauses of a comprehension. -/
def readClauses : Nat → Rest → Option (List Clause × Rest)
  | 0, _ => none
  | fuel + 1, ts =>
    match ts with
    | .name "for" :: ts => do
      let (name, ts) ← readName ts
      let (items, ts) ← readExpr fuel (← expectWord "in" ts)
      let (cs, ts) ← readClauses fuel ts
      return (.each name items :: cs, ts)
    | .name "if" :: ts => do
      let (test, ts) ← readExpr fuel ts
      let (cs, ts) ← readClauses fuel ts
      return (.only test :: cs, ts)
    | ts => some ([], ts)

/-- Reads the arguments of a call, behind its bracket. -/
def readArgs : Nat → Rest → Option (List (Option String × Expr) × Rest)
  | 0, _ => none
  | fuel + 1, ts =>
    match expect ")" ts with
    | some ts => some ([], ts)
    | none => do
      let (name, ts) := match ts with
        | .name n :: .symbol "=" :: ts => (some n, ts)
        | ts => (none, ts)
      let (e, ts) ← readExpr fuel ts
      if at? ")" ts then return ([(name, e)], ts.drop 1)
      else do
        let (args, ts) ← readArgs fuel (← expect "," ts)
        return ((name, e) :: args, ts)

/-- Reads the parameters of a function, behind the bracket. -/
def readParams : Nat → Rest → Option (List (String × Option Expr) × Rest)
  | 0, _ => none
  | fuel + 1, ts =>
    match expect ")" ts with
    | some ts => some ([], ts)
    | none => do
      let (name, ts) ← readName ts
      let (value, ts) ← match expect "=" ts with
        | some ts => do
          let (e, ts) ← readExpr fuel ts
          pure (some e, ts)
        | none => pure (none, ts)
      if at? ")" ts then return ([(name, value)], ts.drop 1)
      else do
        let (params, ts) ← readParams fuel (← expect "," ts)
        return ((name, value) :: params, ts)

/-- Reads a bound name; a name with parameters is a function. -/
def readBind : Nat → Rest → Option (Bind × Rest)
  | 0, _ => none
  | fuel + 1, ts => do
    let (name, ts) ← readName ts
    match expect "(" ts with
    | some ts => do
      let (params, ts) ← readParams fuel ts
      let (e, ts) ← readExpr fuel (← expect "=" ts)
      return (.mk name (.fn params e), ts)
    | none => do
      let (e, ts) ← readExpr fuel (← expect "=" ts)
      return (.mk name e, ts)

/-- Reads bound names. -/
def readBinds : Nat → Rest → Option (List Bind × Rest)
  | 0, _ => none
  | fuel + 1, ts => do
    let (b, ts) ← readBind fuel ts
    match expect "," ts with
    | some ts => do
      let (bs, ts) ← readBinds fuel ts
      return (b :: bs, ts)
    | none => return ([b], ts)

/-- Reads an object, behind its brace. -/
def readObject : Nat → Rest → Option (Expr × Rest)
  | 0, _ => none
  | fuel + 1, ts => do
    let (parts, ts) ← readParts fuel {} ts
    match expect "\x7d" ts with
    | some ts =>
      return (.object parts.binds.reverse parts.fields.reverse parts.asserts.reverse, ts)
    | none => do
      let (clauses, ts) ← readClauses fuel ts
      let ts ← expect "\x7d" ts
      match clauses, parts.fields with
      | .each _ _ :: _, [.mk name false .standard value] =>
        return (.objectFor name value parts.binds.reverse clauses, ts)
      | _, _ => none

/-- Reads the parts of an object up to its end or to a comprehension. -/
def readParts : Nat → ObjectParts → Rest → Option (ObjectParts × Rest)
  | 0, _, _ => none
  | fuel + 1, o, ts =>
    if at? "\x7d" ts || (expectWord "for" ts).isSome then some (o, ts)
    else do
      let (o, ts) ← match ts with
        | .name "local" :: ts => do
          let (b, ts) ← readBind fuel ts
          pure ({ o with binds := b :: o.binds }, ts)
        | .name "assert" :: ts => do
          let (e, ts) ← readAssert fuel ts
          pure ({ o with asserts := e :: o.asserts }, ts)
        | ts => do
          let (m, ts) ← readMember fuel ts
          pure ({ o with fields := m :: o.fields }, ts)
      match expect "," ts with
      | some ts => readParts fuel o ts
      | none => if at? "\x7d" ts || (expectWord "for" ts).isSome then some (o, ts) else none

/-- Reads a field; a field with parameters is a method. -/
def readMember : Nat → Rest → Option (Member × Rest)
  | 0, _ => none
  | fuel + 1, ts => do
    let (name, ts) ← match ts with
      | .text s :: ts => pure (Expr.str s, ts)
      | .symbol "[" :: ts => do
        let (e, ts) ← readExpr fuel ts
        pure (e, ← expect "]" ts)
      | ts => do
        let (s, ts) ← readName ts
        pure (Expr.str s, ts)
    match expect "(" ts with
    | some ts => do
      let (params, ts) ← readParams fuel ts
      let ((added, visibility), ts) ← readFieldMark ts
      let (e, ts) ← readExpr fuel ts
      if added then none else return (.mk name false visibility (.fn params e), ts)
    | none => do
      let ((added, visibility), ts) ← readFieldMark ts
      let (e, ts) ← readExpr fuel ts
      return (.mk name added visibility e, ts)

end

/-- The expression of a text. -/
def expr? (text : String) : Option Expr := do
  let ts ← tokens? text
  match readExpr (20 * ts.length + 40) ts with
  | some (e, []) => return e
  | _ => none

/-- The paths that words import. -/
def importsIn : List Token → List String
  | .name s :: .text path :: ts =>
    if s = "import" || s = "importstr" then path :: importsIn ts else importsIn ts
  | _ :: ts => importsIn ts
  | [] => []

/-- The paths that a text imports. -/
def importedPaths (text : String) : List String :=
  ((tokens? text).map importsIn).getD []

end Jsonnet

end MailRules
