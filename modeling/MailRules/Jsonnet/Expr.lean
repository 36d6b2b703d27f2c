/-!
# Jsonnet expressions

The part of Jsonnet that configs use: literals, local variables and functions, objects with
hidden fields and methods, list comprehensions, imports, and operators.

* `Token` is a word of the text, `Expr` an expression.
-/

namespace MailRules

namespace Jsonnet

/-- A word of a Jsonnet text.  Operators, brackets and separators are symbols. -/
inductive Token where
  /-- A name or keyword. -/
  | name (s : String)
  /-- A number. -/
  | number (x : Float)
  /-- A text, without its quotation marks. -/
  | text (s : String)
  /-- An operator, bracket or separator. -/
  | symbol (s : String)
  deriving Inhabited

/-- Whether a field is part of the output. -/
inductive Visibility where
  /-- It is, unless the field below is hidden. -/
  | standard
  /-- It is not. -/
  | hidden
  /-- It is, whatever the field below is. -/
  | forced
  deriving DecidableEq, Inhabited

/-- An operator between two expressions. -/
inductive BinaryOp where
  | mul | div | mod | add | sub | lt | gt | le | ge | eq | ne | and | or | has
  deriving DecidableEq, Inhabited

/-- An operator before an expression. -/
inductive UnaryOp where
  | plus | minus | not
  deriving DecidableEq, Inhabited

mutual

/-- An expression. -/
inductive Expr where
  /-- The null value. -/
  | null
  /-- A truth value. -/
  | bool (b : Bool)
  /-- A number. -/
  | num (x : Float)
  /-- A text. -/
  | str (s : String)
  /-- A variable. -/
  | var (name : String)
  /-- The object around. -/
  | self
  /-- The object below the one around. -/
  | super
  /-- The outermost object around. -/
  | root
  /-- A list. -/
  | list (items : List Expr)
  /-- A list comprehension. -/
  | listFor (item : Expr) (clauses : List Clause)
  /-- An object with its local names, fields and assertions. -/
  | object (binds : List Bind) (fields : List Member) (asserts : List Expr)
  /-- An object comprehension. -/
  | objectFor (name value : Expr) (binds : List Bind) (clauses : List Clause)
  /-- A member of a list or an object. -/
  | index (e i : Expr)
  /-- A call, with positional and named arguments. -/
  | call (f : Expr) (args : List (Option String × Expr))
  /-- A function; parameters may have defaults. -/
  | fn (params : List (String × Option Expr)) (body : Expr)
  /-- Local names and what they are used in. -/
  | bound (binds : List Bind) (body : Expr)
  /-- A choice; without a second branch it may be null. -/
  | cond (test yes : Expr) (no : Option Expr)
  /-- An operator between two expressions. -/
  | binary (op : BinaryOp) (a b : Expr)
  /-- An operator before an expression. -/
  | unary (op : UnaryOp) (e : Expr)
  /-- An error with a message. -/
  | error (e : Expr)
  /-- An expression that has a value only if a test is true. -/
  | assert (test : Expr) (body : Expr)
  /-- The value of a file. -/
  | importFile (path : String)
  /-- The text of a file. -/
  | importText (path : String)

/-- A part of a comprehension: a variable for the items of a list, or a condition. -/
inductive Clause where
  /-- A variable for the items of a list. -/
  | each (name : String) (items : Expr)
  /-- A condition. -/
  | only (test : Expr)

/-- A name bound to an expression. -/
inductive Bind where
  | mk (name : String) (value : Expr)

/-- A field of an object.  `added` adds to the field of the object below. -/
inductive Member where
  | mk (name : Expr) (added : Bool) (visibility : Visibility) (value : Expr)

end

instance : Inhabited Expr := ⟨.null⟩

end Jsonnet

end MailRules
