import MailRules.Yaml.Node

/-!
# Reading YAML

The value of a YAML document.  Members of a mapping that are named `<<` are replaced by the
members of the mappings they stand for, which own members override.

* `ReadError` is a text without a value; a scalar may be to blame, with an error of its own.
* `Node.value` is the value of a node, `Yaml.read` the value of a text.
-/

namespace MailRules

namespace Yaml

/-- Why a text has no value. -/
inductive ReadError where
  /-- The text is no document. -/
  | malformed
  /-- A scalar has no value. -/
  | scalar (e : ScalarError)

namespace Node

/-- Whether a node is the mark of a merge. -/
def isMerge : Node → Bool
  | .scalar (.scalar .merge) _ => true
  | _ => false

/-- A name of a mapping, in which the mark of a default value is a text. -/
def asName : Node → Node
  | .scalar (.scalar .value) text => .scalar (.scalar .str) text
  | n => n

mutual

/-- The members of a mapping with its merges carried out: members of merged mappings come first,
and those of a later mapping of a list before those of an earlier one. -/
def mergedMembers : Nat → List (Node × Node) → Except ReadError (List (Node × Node))
  | 0, _ => .error .malformed
  | fuel + 1, ms => do
    let merged ← mergedFrom fuel ms
    return merged ++ (ms.filter fun m => !m.1.isMerge).map fun m => (m.1.asName, m.2)

/-- The members that the merges of a mapping stand for. -/
def mergedFrom : Nat → List (Node × Node) → Except ReadError (List (Node × Node))
  | 0, _ => .error .malformed
  | _, [] => .ok []
  | fuel + 1, (k, v) :: ms => do
    let own ←
      if k.isMerge then
        match v with
        | .map _ members => mergedMembers fuel members
        | .list _ items => mergedList fuel items
        | .scalar _ _ => .error .malformed
      else pure []
    return own ++ (← mergedFrom fuel ms)

/-- The members of a list of mappings to be merged, those of the last first. -/
def mergedList : Nat → List Node → Except ReadError (List (Node × Node))
  | 0, _ => .error .malformed
  | _, [] => .ok []
  | fuel + 1, .map _ members :: ns => do
    let own ← mergedMembers fuel members
    return (← mergedList fuel ns) ++ own
  | _, _ :: _ => .error .malformed

end

/-- The value of a scalar node.  A tag that no scalar has makes the text malformed. -/
def scalarValue (tag : Tag) (text : List Char) : Except ReadError Scalar :=
  match tag with
  | .scalar .merge | .scalar .value => .error .malformed
  | .scalar kind => match readScalar kind text with
    | .ok s => .ok s
    | .error e => .error (.scalar e)
  | _ => .error .malformed

mutual

/-- The number of nodes of a node. -/
def weight : Node → Nat
  | .scalar _ _ => 1
  | .list _ ns => 1 + weightAll ns
  | .map _ ms => 1 + weightMembers ms

/-- The number of nodes of a list. -/
def weightAll : List Node → Nat
  | [] => 1
  | n :: ns => n.weight + weightAll ns

/-- The number of nodes of the members of a mapping. -/
def weightMembers : List (Node × Node) → Nat
  | [] => 1
  | (k, v) :: ms => k.weight + v.weight + weightMembers ms

end

mutual

/-- The value of a node. -/
def value : Nat → Node → Except ReadError Value
  | 0, _ => .error .malformed
  | _, .scalar tag text => return .scalar (← scalarValue tag text)
  | fuel + 1, .list tag ns =>
    match tag with
    | .list => return .list (← values fuel ns)
    | .pairs => return .list (← pairValues fuel ns)
    | _ => .error .malformed
  | fuel + 1, .map tag ms =>
    match tag with
    | .map => do
      let all ← mergedMembers (weightMembers ms + 1) ms
      return .map (← members fuel [] all)
    | _ => .error .malformed

/-- The values of a list of nodes. -/
def values : Nat → List Node → Except ReadError (List Value)
  | 0, _ => .error .malformed
  | _, [] => .ok []
  | fuel + 1, n :: ns => return (← value fuel n) :: (← values fuel ns)

/-- The values of a list of mappings with one member each, as pairs. -/
def pairValues : Nat → List Node → Except ReadError (List Value)
  | 0, _ => .error .malformed
  | _, [] => .ok []
  | fuel + 1, .map _ [(k, v)] :: ns => do
    let pair := Value.list [← value fuel k, ← value fuel v]
    return pair :: (← pairValues fuel ns)
  | _, _ :: _ => .error .malformed

/-- The members of a mapping, added to those before; a name given twice takes the last value. -/
def members : Nat → List (Scalar × Value) → List (Node × Node) →
    Except ReadError (List (Scalar × Value))
  | 0, _, _ => .error .malformed
  | _, done, [] => .ok done
  | fuel + 1, done, (k, v) :: ms => do
    let name ← match k with
      | .scalar tag text => scalarValue tag text
      | _ => .error .malformed
    let v ← value fuel v
    members fuel (Value.putMember name v done) ms

end

end Node

/-- The value of a YAML text.  A text without a document has the absent value. -/
def read (text : String) : Except ReadError Value :=
  match document? text.toList with
  | none => .error .malformed
  | some none => .ok .null
  | some (some n) => n.value (3 * n.weight + 3)

end Yaml

end MailRules
