import OutcomeMarket.Data.Json.Text
import OutcomeMarket.Data.Yaml.Cursor

/-! Tags in YAML, which say what kind of value a node is. A tag is written in full, or as a handle and the
rest of its name; a directive may say what a handle stands for. -/
namespace OutcomeMarket
namespace Yaml

/-- What a tag says about a value. -/
inductive Tag where
  /-- The lone exclamation mark, which says nothing -/
  | nonspecific
  | boolean
  | integer
  | real
  | null
  /-- A tag that means something to one program only; it begins with an exclamation mark -/
  | own
  /-- Any other tag -/
  | shared
  deriving DecidableEq, Repr

/-- The names of tags are bytes, as an escape may stand for any of them. -/
abbrev TagName := List UInt8

def tagName (s : String) : TagName := s.toUTF8.toList

/-- What the common tags begin with. -/
def commonTags : String := "tag:yaml.org,2002:"

def Tag.ofName (name : TagName) : Tag :=
  if name = tagName "!" then .nonspecific
  else if name.head? = (tagName "!").head? then .own
  else if name = tagName (commonTags ++ "bool") then .boolean
  else if name = tagName (commonTags ++ "int") then .integer
  else if name = tagName (commonTags ++ "float") then .real
  else if name = tagName (commonTags ++ "null") then .null
  else .shared

/-- What a handle stands for: the handles of the directives, then the two that need none. -/
abbrev Handles := List (List Char × TagName)

def Handles.find? (hs : Handles) (handle : List Char) : Option TagName :=
  (hs ++ [(['!'], tagName "!"), (['!', '!'], tagName commonTags)]).lookup handle

/-- What words in names consist of. -/
def isWordChar (c : Char) : Bool := c.isAlphanum || c = '_' || c = '-'

/-- The characters of a tag. Between pointed brackets some more are allowed. -/
def isTagChar (bracketed : Bool) (c : Char) : Bool :=
  isWordChar c || ";/?:@&=+$.!~*'()".toList.contains c || (bracketed && ",[]".toList.contains c)

/-- How many bytes follow the first byte of a character. -/
def bytesAfter? (b : Nat) : Option Nat :=
  if b < 0x80 then some 0
  else if 0xc0 ≤ b ∧ b < 0xe0 then some 1
  else if 0xe0 ≤ b ∧ b < 0xf0 then some 2
  else if 0xf0 ≤ b ∧ b < 0xf8 then some 3
  else none

/-- The bytes that a tag consists of, and what follows them. A percent sign and two hexadecimal digits
stand for a byte; within a character of several bytes no other character may stand. -/
def readTag? (bracketed : Bool) : Nat → List Char → Option (TagName × List Char)
  | missing, '%' :: a :: b :: cs => do
    let n ← Json.hex? [a, b]
    let missing ← match missing with
      | 0 => bytesAfter? n
      | m + 1 => if n / 64 = 2 then some m else none
    let (name, rest) ← readTag? bracketed missing cs
    return (n.toUInt8 :: name, rest)
  | 0, c :: cs =>
    if c = '%' then none
    else if isTagChar bracketed c then do
      let (name, rest) ← readTag? bracketed 0 cs
      return (c.toNat.toUInt8 :: name, rest)
    else some ([], c :: cs)
  | 0, [] => some ([], [])
  | _ + 1, _ => none

/-- A part of a tag, which must not be empty. -/
def tagPart? (bracketed : Bool) (cs : List Char) : Option (TagName × List Char) :=
  (readTag? bracketed 0 cs).filter fun r => !r.1.isEmpty

/-- The handle in front: an exclamation mark, and a word between this one and another if there is one. -/
def handle? : List Char → Option (List Char × List Char)
  | '!' :: cs =>
    let word := cs.takeWhile isWordChar
    match cs.dropWhile isWordChar with
    | '!' :: rest => some ('!' :: word ++ ['!'], rest)
    | rest => some ('!' :: word, rest)
  | _ => none

/-- Whether a handle has a mark at its end as well. -/
def isClosed (handle : List Char) : Bool := 1 < handle.length && handle.getLast? == some '!'

/-- The tag in front, and what follows it. -/
def tag? (hs : Handles) (cs : List Char) : Option (Tag × List Char) := do
  if let '!' :: '<' :: cs := cs then
    match ← tagPart? true cs with
    | (name, '>' :: rest) => return (.ofName name, rest)
    | _ => failure
  let (handle, rest) ← handle? cs
  if isClosed handle then
    let (name, rest) ← tagPart? false rest
    return (.ofName ((← hs.find? handle) ++ name), rest)
  let (name, rest) ← readTag? false 0 rest
  let name := tagName (String.ofList (handle.drop 1)) ++ name
  if name.isEmpty then return (.nonspecific, rest)
  return (.ofName ((← hs.find? ['!']) ++ name), rest)

end Yaml
end OutcomeMarket
