import OutcomeMarket.Data.Json.Text
import OutcomeMarket.Data.Yaml.Cursor

/-! Texts in YAML: plain, in single quotes and in double quotes. All may go on over several lines, whose
breaks are folded. -/
namespace OutcomeMarket
namespace Yaml

/-- How a text is written. -/
inductive Style where
  | plain
  | quoted
  /-- In lines that are taken as they stand -/
  | literal
  /-- In lines that are folded -/
  | folded
  deriving DecidableEq, Repr

/-- What separates the parts of a collection in brackets or braces. -/
def isFlowIndicator (c : Char) : Bool :=
  c = ',' || c = '[' || c = ']' || c = '\x7b' || c = '\x7d'

/-- The longest word in front that a plain text may consist of. It ends at a gap, at a colon before a
gap, and in brackets also where an item ends; there a colon must not stand right before an indicator. -/
def plainWord? (flow : Bool) : List Char → Option (List Char × List Char)
  | [] => some ([], [])
  | c :: cs =>
    if isBlank c || isBreak c || (c = ':' && gapAhead cs) || (flow && isFlowIndicator c) then
      some ([], c :: cs)
    else if flow && c = ':' && cs.head?.any (fun x => x = '?' || isFlowIndicator x) then none
    else do
      let (word, rest) ← plainWord? flow cs
      return (c :: word, rest)

/-- A text, what follows it, and whether a line break lies between. -/
structure Reading where
  text : List Char
  cursor : Cursor
  brokeLine : Bool
  deriving DecidableEq, Repr

/-- Read on in a plain text, of which a part, the last character first, and a gap have been read. -/
def readPlain? (flow : Bool) (indent : Nat) : Nat → List Char → Gap → Cursor → Option Reading
  | 0, _, _, _ => none
  | fuel + 1, text, g, c => do
    let ended := c.atDocumentMark || c.rest.head? == some '#'
    let (word, rest) ← if ended then some ([], c.rest) else plainWord? flow c.rest
    if word.isEmpty then return ⟨text.reverse, c, !g.breaks.isEmpty⟩
    let text := word.reverseAux (g.fold.reverseAux text)
    let c := c.along word.length
    if !gapAhead rest then return ⟨text.reverse, c, false⟩
    let (g, c) ← c.gap? indent
    if !flow && c.column < indent then return ⟨text.reverse, c, !g.breaks.isEmpty⟩
    readPlain? flow indent fuel text g c

/-- The plain text in front. Outside of brackets its lines are indented by as much as given. -/
def plain? (flow : Bool) (indent : Nat) (c : Cursor) : Option Reading :=
  readPlain? flow indent (c.rest.length + 1) [] .none c

/-- The rest of a text in single quotes, in which a quote is written twice. What has been read stands in
reverse. -/
def readSingle? : Nat → List Char → Cursor → Option Reading
  | 0, _, _ => none
  | fuel + 1, text, c =>
    if c.atDocumentMark then none
    else match c.rest with
      | [] => none
      | '\'' :: '\'' :: _ => readSingle? fuel ('\'' :: text) (c.along 2)
      | '\'' :: _ => some ⟨text.reverse, c.next, false⟩
      | x :: _ =>
        if isBlank x || isBreak x then do
          let (g, c) ← c.gap? 0
          readSingle? fuel (g.fold.reverseAux text) c
        else readSingle? fuel (x :: text) c.next

/-- The code point with these hexadecimal digits, if it is a character. -/
def charOfHex? (ds : List Char) : Option Char := do
  let n ← Json.hex? ds
  if n.isValidChar then some (Char.ofNat n) else none

/-- The escape after a backslash: a character, and how long the escape is. -/
def escape? : List Char → Option (Char × Nat)
  | '0' :: _ => some ('\x00', 1)
  | 'a' :: _ => some ('\x07', 1)
  | 'b' :: _ => some ('\x08', 1)
  | 't' :: _ | '\t' :: _ => some ('\t', 1)
  | 'n' :: _ => some ('\n', 1)
  | 'v' :: _ => some ('\x0b', 1)
  | 'f' :: _ => some ('\x0c', 1)
  | 'r' :: _ => some ('\r', 1)
  | 'e' :: _ => some ('\x1b', 1)
  | ' ' :: _ => some (' ', 1)
  | '"' :: _ => some ('"', 1)
  | '/' :: _ => some ('/', 1)
  | '\\' :: _ => some ('\\', 1)
  | 'N' :: _ => some ('\u0085', 1)
  | '_' :: _ => some ('\u00a0', 1)
  | 'L' :: _ => some ('\u2028', 1)
  | 'P' :: _ => some ('\u2029', 1)
  | 'x' :: cs => hexEscape? 2 cs
  | 'u' :: cs => hexEscape? 4 cs
  | 'U' :: cs => hexEscape? 8 cs
  | _ => none
where
  /-- A character by its code point, in so many digits -/
  hexEscape? (n : Nat) (cs : List Char) : Option (Char × Nat) :=
    if cs.length < n then none else (·, n + 1) <$> charOfHex? (cs.take n)

/-- The rest of a text in double quotes. A backslash takes back the line break after it. What has been read
stands in reverse. -/
def readDouble? : Nat → List Char → Cursor → Option Reading
  | 0, _, _ => none
  | fuel + 1, text, c =>
    if c.atDocumentMark then none
    else match c.rest with
      | [] => none
      | '"' :: _ => some ⟨text.reverse, c.next, false⟩
      | '\\' :: cs =>
        if cs.head?.any isBreak then do
          let (g, c) ← c.next.next.gap? 0
          readDouble? fuel (g.breaks.reverseAux text) c
        else do
          let (x, n) ← escape? cs
          readDouble? fuel (x :: text) (c.along (n + 1))
      | x :: _ =>
        if isBlank x || isBreak x then do
          let (g, c) ← c.gap? 0
          readDouble? fuel (g.fold.reverseAux text) c
        else readDouble? fuel (x :: text) c.next

/-- The quoted text in front. -/
def quoted? (c : Cursor) : Option Reading :=
  match c.rest with
  | '\'' :: _ => readSingle? c.rest.length [] c.next
  | '"' :: _ => readDouble? c.rest.length [] c.next
  | _ => none

end Yaml
end OutcomeMarket
