import OutcomeMarket.Data.Yaml.Scalar
import OutcomeMarket.Data.Yaml.Token

/-! The structure of a YAML document: texts, lists and maps, some of them with a name by which others refer
to them. A document is read token by token; a place where nothing stands is an empty plain text. -/
namespace OutcomeMarket
namespace Yaml

inductive Node where
  | text (style : Style) (tag : Option Tag) (content : String)
  | list (items : List Node)
  | map (entries : List (Node × Node))
  /-- A node with a name -/
  | named (number : Nat) (node : Node)
  /-- The node with this name -/
  | reference (number : Nat)
  deriving Inhabited, Repr

namespace Node

def empty : Node := text .plain none ""

/-- What a node may have in front: a name and a tag, in either order. -/
def properties : List Token → Option Nat × Option Tag × List Token
  | .anchor n :: .tag t :: ts => (some n, some t, ts)
  | .tag t :: .anchor n :: ts => (some n, some t, ts)
  | .anchor n :: ts => (some n, none, ts)
  | .tag t :: ts => (none, some t, ts)
  | ts => (none, none, ts)

/-- A node with its name, if it has one. -/
def withName (n : Option Nat) (node : Node) : Node := n.elim node fun n => named n node

/-- A text and its tag. The lone mark says nothing about it. -/
def scalar (style : Style) (t : Option Tag) (s : String) : Node :=
  text style (t.filter fun t => t != .nonspecific) s

/-- Whether the tokens begin with one of the given. -/
def at? (ts : List Token) (stops : List Token) : Bool := ts.head?.any stops.contains

/-- A comma, which all but the first item need in front. -/
def separated? (first : Bool) (ts : List Token) : Option (List Token) :=
  if first then some ts
  else match ts with
    | .comma :: ts => some ts
    | _ => none

mutual

/-- The node in front, and what follows it. A list without indentation of its own is read only where
it is the value or key of a map. -/
def read? (block loose : Bool) : Nat → List Token → Option (Node × List Token)
  | 0, _ => none
  | _ + 1, .reference n :: ts => some (reference n, ts)
  | fuel + 1, ts => do
    let (name, t, ts) := properties ts
    let (node, ts) ← readContent? block loose t name.isSome fuel ts
    return (withName name node, ts)

/-- A node without its name. Where only a name or a tag stands, the node is empty. -/
def readContent? (block loose : Bool) (t : Option Tag) (hasName : Bool) :
    Nat → List Token → Option (Node × List Token)
  | 0, _ => none
  | fuel + 1, ts => do
    let absent := if hasName || t.isSome then some (text .plain t "", ts) else none
    match ts with
    | .text style s :: ts => return (scalar style t s, ts)
    | .openBracket :: ts =>
      let (items, ts) ← readBracket? true fuel ts
      return (list items, ts)
    | .openBrace :: ts =>
      let (entries, ts) ← readBrace? true fuel ts
      return (map entries, ts)
    | .entry :: _ =>
      if !loose then absent
      else
        let (items, ts) ← readLoose? fuel ts
        return (list items, ts)
    | .openList :: ts =>
      if !block then absent
      else
        let (items, ts) ← readList? fuel ts
        return (list items, ts)
    | .openMap :: ts =>
      if !block then absent
      else
        let (entries, ts) ← readMap? fuel ts
        return (map entries, ts)
    | _ => absent

/-- A node, unless one of the given tokens shows that there is none. -/
def readUnless? (stops : List Token) (block loose : Bool) :
    Nat → List Token → Option (Node × List Token)
  | 0, _ => none
  | fuel + 1, ts => if at? ts stops then some (empty, ts) else read? block loose fuel ts

/-- The items of a list, up to the end of its block. -/
def readList? : Nat → List Token → Option (List Node × List Token)
  | 0, _ => none
  | fuel + 1, ts =>
    match ts with
    | .closeBlock :: ts => some ([], ts)
    | .entry :: ts => do
      let (item, ts) ← readUnless? [.entry, .closeBlock] true false fuel ts
      let (items, ts) ← readList? fuel ts
      return (item :: items, ts)
    | _ => none

/-- The items of a list that has no block of its own. -/
def readLoose? : Nat → List Token → Option (List Node × List Token)
  | 0, _ => none
  | fuel + 1, ts =>
    match ts with
    | .entry :: ts => do
      let (item, ts) ← readUnless? [.entry, .key, .value, .closeBlock] true false fuel ts
      let (items, ts) ← readLoose? fuel ts
      return (item :: items, ts)
    | _ => some ([], ts)

/-- The entries of a map, up to the end of its block. -/
def readMap? : Nat → List Token → Option (List (Node × Node) × List Token)
  | 0, _ => none
  | fuel + 1, ts =>
    match ts with
    | .closeBlock :: ts => some ([], ts)
    | .key :: ts => do
      let (key, ts) ← readUnless? [.key, .value, .closeBlock] true true fuel ts
      let (value, ts) ← match ts with
        | .value :: ts => readUnless? [.key, .value, .closeBlock] true true fuel ts
        | ts => some (empty, ts)
      let (entries, ts) ← readMap? fuel ts
      return ((key, value) :: entries, ts)
    | _ => none

/-- The items in brackets. -/
def readBracket? (first : Bool) : Nat → List Token → Option (List Node × List Token)
  | 0, _ => none
  | fuel + 1, ts =>
    match ts with
    | .closeBracket :: ts => some ([], ts)
    | ts => do
      let ts ← separated? first ts
      match ts with
      | .closeBracket :: ts => return ([], ts)
      | .key :: ts =>
        let (pair, ts) ← readPair? fuel ts
        let (items, ts) ← readBracket? false fuel ts
        return (map [pair] :: items, ts)
      | ts =>
        let (item, ts) ← read? false false fuel ts
        let (items, ts) ← readBracket? false fuel ts
        return (item :: items, ts)

/-- A key in brackets and its value. Where no key stands, the token in its place is passed over. -/
def readPair? : Nat → List Token → Option ((Node × Node) × List Token)
  | 0, _ => none
  | fuel + 1, ts => do
    let (key, ts) ←
      if at? ts [.value, .comma, .closeBracket] then some (empty, ts.drop 1)
      else read? false false fuel ts
    let (value, ts) ← match ts with
      | .value :: ts => readUnless? [.comma, .closeBracket] false false fuel ts
      | ts => some (empty, ts)
    return ((key, value), ts)

/-- The entries in braces. A text without a colon is a key without a value. -/
def readBrace? (first : Bool) : Nat → List Token → Option (List (Node × Node) × List Token)
  | 0, _ => none
  | fuel + 1, ts =>
    match ts with
    | .closeBrace :: ts => some ([], ts)
    | ts => do
      let ts ← separated? first ts
      match ts with
      | .closeBrace :: ts => return ([], ts)
      | .key :: ts =>
        let (key, ts) ← readUnless? [.value, .comma, .closeBrace] false false fuel ts
        let (value, ts) ← match ts with
          | .value :: ts => readUnless? [.comma, .closeBrace] false false fuel ts
          | ts => some (empty, ts)
        let (entries, ts) ← readBrace? false fuel ts
        return ((key, value) :: entries, ts)
      | ts =>
        let (key, ts) ← read? false false fuel ts
        let (entries, ts) ← readBrace? false fuel ts
        return ((key, empty) :: entries, ts)

end

/-- One document, with or without a mark at its start and marks at its end. After directives there has
to be a mark. -/
def ofTokens? (ts : List Token) : Option Node := do
  let directed := at? ts [.directive]
  let ts := ts.dropWhile (· == .directive)
  let (marked, ts) := match ts with
    | .documentStart :: ts => (true, ts)
    | ts => (false, ts)
  if directed && !marked then failure
  let (node, rest) ←
    if ts.isEmpty || (marked && at? ts [.documentStart, .documentEnd]) then some (empty, ts)
    else read? true false (4 * ts.length + 4) ts
  if (rest.dropWhile (· == .documentEnd)).isEmpty then some node else none

mutual

/-- The named nodes in a node, in the order of their names in the text. -/
def names : Node → List (Nat × Node)
  | named n node => (n, node) :: node.names
  | list items => namesOfItems items
  | map entries => namesOfEntries entries
  | text .. | reference _ => []

def namesOfItems : List Node → List (Nat × Node)
  | [] => []
  | node :: nodes => node.names ++ namesOfItems nodes

def namesOfEntries : List (Node × Node) → List (Nat × Node)
  | [] => []
  | (key, value) :: entries => key.names ++ value.names ++ namesOfEntries entries

end

/-- The node itself, for a name or a reference. Of several nodes with one number the last one counts. -/
def content (table : List (Nat × Node)) : Node → Node
  | reference n => (table.reverse.lookup n).getD empty
  | named _ node => node
  | node => node

/-- The text of a key. -/
def key? (table : List (Nat × Node)) (node : Node) : Option String :=
  match node.content table with
  | text _ _ s => some s
  | _ => none

/-- What a node stands for, with at most so many records inside each other. No field is a list, and none
has a key that is not a text. -/
def toDatum (table : List (Nat × Node)) (depth : Nat) (node : Node) : Datum :=
  match node.content table, depth with
  | text style t s, _ => ofText style t s
  | map entries, depth + 1 =>
    let field? := fun (key, value) => return (← key? table key, toDatum table depth value)
    match entries.mapM field? with
    | some fields => .record fields
    | none => .unreadable
  | _, _ => .unreadable

end Node

/-- The value of a document. References may make a document endless, so it is read down to the given
number of records inside each other. -/
def read? (depth : Nat) (s : String) : Option Datum := do
  let ts ← Token.ofText? s
  let node ← Node.ofTokens? ts
  return node.toDatum node.names depth

end Yaml
end OutcomeMarket
