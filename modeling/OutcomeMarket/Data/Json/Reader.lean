import OutcomeMarket.Data.Json.Number
import OutcomeMarket.Data.Json.Text

/-! Reading JSON, without any of the extensions that are in use. A text with half a surrogate pair, a
number out of range and a record with such a text for a key are well formed and stand for no value. -/
namespace OutcomeMarket
namespace Json

def isSpace (c : Char) : Bool := c = ' ' || c = '\n' || c = '\t' || c = '\r'

def skipSpace (cs : List Char) : List Char := cs.dropWhile isSpace

/-- The rest of a text behind a word that it begins with. -/
def stripWord? : List Char → List Char → Option (List Char)
  | [], cs => some cs
  | w :: ws, c :: cs => if w = c then stripWord? ws cs else none
  | _ :: _, [] => none

/-- A field with its key, which may be unreadable. -/
abbrev Field := Option String × Datum

/-- A record of fields; one unreadable key makes it unreadable. -/
def recordOf (fs : List Field) : Datum :=
  match fs.mapM (fun f => f.1.map (·, f.2)) with
  | some fields => .record fields
  | none => .unreadable

mutual

/-- The value in front of a text, and what follows it. -/
def readValue? : Nat → List Char → Option (Datum × List Char)
  | 0, _ => none
  | fuel + 1, cs =>
    match skipSpace cs with
    | [] => none
    | '"' :: cs => do
      let (s, cs) ← readText? cs
      return ((s.map Datum.text).getD .unreadable, cs)
    | '[' :: cs =>
      match skipSpace cs with
      | ']' :: cs => some (.list [], cs)
      | cs => do
        let (items, cs) ← readItems? fuel cs
        return (.list items, cs)
    | '\x7b' :: cs =>
      match skipSpace cs with
      | '\x7d' :: cs => some (.record [], cs)
      | cs => do
        let (fields, cs) ← readFields? fuel cs
        return (recordOf fields, cs)
    | 'n' :: cs => (Datum.null, ·) <$> stripWord? ['u', 'l', 'l'] cs
    | 't' :: cs => (Datum.bool true, ·) <$> stripWord? ['r', 'u', 'e'] cs
    | 'f' :: cs => (Datum.bool false, ·) <$> stripWord? ['a', 'l', 's', 'e'] cs
    | cs => do
      let (l, cs) ← Literal.read? cs
      return (l.toDatum, cs)

/-- At least one item, up to the closing bracket. -/
def readItems? : Nat → List Char → Option (List Datum × List Char)
  | 0, _ => none
  | fuel + 1, cs => do
    let (item, cs) ← readValue? fuel cs
    match skipSpace cs with
    | ']' :: cs => return ([item], cs)
    | ',' :: cs =>
      let (items, cs) ← readItems? fuel cs
      return (item :: items, cs)
    | _ => none

/-- At least one field, up to the closing brace. -/
def readFields? : Nat → List Char → Option (List Field × List Char)
  | 0, _ => none
  | fuel + 1, cs =>
    match skipSpace cs with
    | '"' :: cs => do
      let (key, cs) ← readText? cs
      match skipSpace cs with
      | ':' :: cs =>
        let (d, cs) ← readValue? fuel cs
        match skipSpace cs with
        | '\x7d' :: cs => return ([(key, d)], cs)
        | ',' :: cs =>
          let (fields, cs) ← readFields? fuel cs
          return ((key, d) :: fields, cs)
        | _ => none
      | _ => none
    | _ => none

end

/-- The value that a text holds. Nothing but space may follow it. Every two steps read a character. -/
def read? (s : String) : Option Datum := do
  let cs := s.toList
  let (d, rest) ← readValue? (2 * cs.length + 2) cs
  if (skipSpace rest).isEmpty then some d else none

end Json
end OutcomeMarket
