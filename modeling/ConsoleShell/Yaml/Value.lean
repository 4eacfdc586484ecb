/-
The value of a YAML document.

Scalars are resolved, tags are obeyed, and merged mappings are put together.  A mapping in
which a key occurs twice has no value, nor has one with a collection as a key.
-/
import ConsoleShell.Text.Base64
import ConsoleShell.Yaml.Node

namespace ConsoleShell

namespace Yaml

/-- A value. -/
inductive Value where
  | scalar (value : Scalar)
  | list (items : List Value)
  | map (pairs : List (Scalar × Value))

namespace Value

/-- The short form of a tag that is written out. -/
def shortTag (tag : Bytes) : Bytes :=
  let opening : Bytes := "!<tag:yaml.org,2002:"
  if tag.startsWith opening then ("!!" : Bytes) ++ (tag.drop opening.length).dropLast else tag

/-- A scalar under a tag; none if the text does not fit the tag. -/
def tagged? (tag text : Bytes) : Option Scalar :=
  let plain := Scalar.ofPlain text
  match (shortTag tag).toText, plain with
  | "!!", _ => none
  | "!!binary", _ => (Base64.decode? text).map .string
  | "!!int", .int n => some (.int n)
  | "!!int", _ => none
  | "!!float", .float x => some (.float x)
  | "!!float", .int n => some (.float (.ofInt n))
  | "!!float", _ => none
  | "!!bool", .bool b => some (.bool b)
  | "!!bool", _ => none
  | "!!null", .null => some .null
  | "!!null", _ => none
  | "!!timestamp", _ => if Scalar.isTimestamp text then some (.string text) else none
  | _, _ => some (.string text)

/-- What a scalar stands for. -/
def scalar? (text : Bytes) (plain : Bool) : Option Bytes → Option Scalar
  | some tag => tagged? tag text
  | none => some (if plain then Scalar.ofPlain text else .string text)

/-- Adds pairs to a mapping; none if a key is there already. -/
def insertAll? (pairs : List (Scalar × Value)) :
    List (Scalar × Value) → Option (List (Scalar × Value))
  | [] => some pairs
  | (k, v) :: more =>
    if pairs.any fun p => p.1 == k then none else insertAll? (pairs ++ [(k, v)]) more

/-- The key that merges other mappings. -/
def mergeKey : Bytes := "<<"

mutual

/-- The value of a node. -/
def ofNode? : Node → Option Value
  | .scalar text plain tag => (scalar? text plain tag).map .scalar
  | .sequence items => (ofItems? items).map .list
  | .mapping pairs => (ofPairs? [] pairs).map .map

/-- The values of the items of a sequence. -/
def ofItems? : List Node → Option (List Value)
  | [] => some []
  | n :: ns => do return (← ofNode? n) :: (← ofItems? ns)

/-- The pairs of a mapping after those that are there already. -/
def ofPairs? (done : List (Scalar × Value)) : List (Node × Node) → Option (List (Scalar × Value))
  | [] => some done
  | (.scalar text plain tag, n) :: more => do
    let v ← ofNode? n
    if plain && tag.isNone && text == mergeKey then
      match v with
      | .map pairs => ofPairs? (← insertAll? done pairs) more
      | .list items =>
        let maps ← items.reverse.mapM fun
          | .map pairs => some pairs
          | _ => none
        ofPairs? (← insertAll? done maps.flatten) more
      | .scalar _ => none
    else ofPairs? (← insertAll? done [(← scalar? text plain tag, v)]) more
  | _ :: _ => none

end

/-- The value of the first document of a text, null for an empty one; none if the text is
malformed. -/
def ofBytes? (s : Bytes) : Option Value := do
  match ← Node.ofBytes? s with
  | none => some (.scalar .null)
  | some n => ofNode? n

end Value

end Yaml

end ConsoleShell
