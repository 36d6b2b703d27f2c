import MailRules.Jsonnet.Expr

/-!
# Scopes of Jsonnet expressions

What has to hold of an expression before it is evaluated, also of the parts that evaluation never
reaches: every variable is bound, `self`, `super` and `$` stand inside an object, names that are
bound together differ, and positional arguments come before named ones.

* `Expr.isScoped` is the condition.
-/

namespace MailRules

namespace Jsonnet

/-- What may be named at a place: variables, and the object around it if there is one. -/
structure Scope where
  /-- The variables. -/
  names : List String := []
  /-- Whether there is an object around. -/
  inObject : Bool := false

/-- A scope with further variables. -/
def Scope.bind (s : Scope) (names : List String) : Scope :=
  { s with names := names ++ s.names }

/-- Whether no name is given twice. -/
def distinct : List String → Bool
  | [] => true
  | n :: ns => !ns.contains n && distinct ns

/-- The name that is bound. -/
def Bind.name : Bind → String
  | .mk n _ => n

/-- The names of fields that are written as texts. -/
def Member.literalName? : Member → Option String
  | .mk (.str n) _ _ _ => some n
  | _ => none

/-- Whether positional arguments come first, and no name is given twice. -/
def argsInOrder (args : List (Option String × Expr)) : Bool :=
  ((args.dropWhile (·.1.isNone)).all (·.1.isSome)) && distinct (args.filterMap (·.1))

/-- The variables that clauses bind. -/
def clauseNames (cs : List Clause) : List String :=
  cs.filterMap fun
    | .each n _ => some n
    | .only _ => none

mutual

/-- Whether an expression can be evaluated in a scope. -/
def Expr.isScoped (s : Scope) : Expr → Bool
  | .null | .bool _ | .num _ | .str _ | .importFile _ | .importText _ => true
  | .var name => s.names.contains name
  | .self | .root => s.inObject
  | .super => false
  | .list es => allScoped s es
  | .listFor e cs => clausesScoped s cs && e.isScoped (s.bind (clauseNames cs))
  | .object binds fields asserts =>
    let inner := { s.bind (binds.map Bind.name) with inObject := true }
    distinct (binds.map Bind.name) && distinct (fields.filterMap Member.literalName?) &&
      bindsScoped inner binds && membersScoped s inner fields && allScoped inner asserts
  | .objectFor name value binds cs =>
    let each := s.bind (clauseNames cs)
    let inner := { each.bind (binds.map Bind.name) with inObject := true }
    clausesScoped s cs && name.isScoped each && distinct (binds.map Bind.name) &&
      bindsScoped inner binds && value.isScoped inner
  | .index .super i => s.inObject && i.isScoped s
  | .index e i => e.isScoped s && i.isScoped s
  | .call f args => f.isScoped s && argsInOrder args && argsScoped s args
  | .fn params body =>
    let inner := s.bind (params.map (·.1))
    distinct (params.map (·.1)) && paramsScoped inner params && body.isScoped inner
  | .bound binds body =>
    let inner := s.bind (binds.map Bind.name)
    distinct (binds.map Bind.name) && bindsScoped inner binds && body.isScoped inner
  | .cond test yes (some no) => test.isScoped s && yes.isScoped s && no.isScoped s
  | .cond test yes none => test.isScoped s && yes.isScoped s
  | .binary .has a .super => s.inObject && a.isScoped s
  | .binary _ a b => a.isScoped s && b.isScoped s
  | .unary _ e | .error e => e.isScoped s
  | .assert test body => test.isScoped s && body.isScoped s

/-- Whether all expressions of a list can be evaluated. -/
def allScoped (s : Scope) : List Expr → Bool
  | [] => true
  | e :: es => e.isScoped s && allScoped s es

/-- Whether clauses can be evaluated, each with the variables of those before it. -/
def clausesScoped (s : Scope) : List Clause → Bool
  | [] => true
  | .each name items :: cs => items.isScoped s && clausesScoped (s.bind [name]) cs
  | .only test :: cs => test.isScoped s && clausesScoped s cs

/-- Whether bound expressions can be evaluated. -/
def bindsScoped (s : Scope) : List Bind → Bool
  | [] => true
  | .mk _ e :: bs => e.isScoped s && bindsScoped s bs

/-- Whether the fields of an object can be evaluated: their names outside of it, their values
inside. -/
def membersScoped (outer inner : Scope) : List Member → Bool
  | [] => true
  | .mk name _ _ value :: ms =>
    name.isScoped outer && value.isScoped inner && membersScoped outer inner ms

/-- Whether arguments can be evaluated. -/
def argsScoped (s : Scope) : List (Option String × Expr) → Bool
  | [] => true
  | (_, e) :: as => e.isScoped s && argsScoped s as

/-- Whether the defaults of parameters can be evaluated. -/
def paramsScoped (s : Scope) : List (String × Option Expr) → Bool
  | [] => true
  | (_, some e) :: ps => e.isScoped s && paramsScoped s ps
  | (_, none) :: ps => paramsScoped s ps

end

end Jsonnet

end MailRules
