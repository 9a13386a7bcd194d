import OutcomeMarket.Data.Yaml.Text

/-! Block texts in YAML: lines that are indented further than what surrounds them, taken as they stand or
folded. How far they are indented may be written at their head and shows otherwise at the first line. -/
namespace OutcomeMarket
namespace Yaml

/-- What becomes of the line breaks at the end of a block text. -/
inductive Chomping where
  | strip
  | clip
  | keep
  deriving DecidableEq, Repr

/-- A plus or a minus in front. -/
def takeChomping : List Char → Option Chomping × List Char
  | '+' :: cs => (some .keep, cs)
  | '-' :: cs => (some .strip, cs)
  | cs => (none, cs)

/-- A digit in front, zero if there is none. -/
def takeIndent? : List Char → Option (Nat × List Char)
  | [] => some (0, [])
  | c :: cs =>
    if c = '0' then none
    else if c.isDigit then some (c.toNat - '0'.toNat, cs)
    else some (0, c :: cs)

/-- The head of a block text behind its mark: chomping and indentation, in either order. -/
def blockHead? (cs : List Char) : Option (Chomping × Nat × List Char) := do
  let (before, cs) := takeChomping cs
  let (indent, cs) ← takeIndent? cs
  let (behind, cs) := if before.isSome then (none, cs) else takeChomping cs
  return ((before.or behind).getD .clip, indent, cs)

/-- Line breaks, the greatest column before one of them, and what follows. -/
structure EmptyLines where
  breaks : List Char
  widest : Nat
  cursor : Cursor
  deriving DecidableEq, Repr

/-- Read empty lines and the indentation of the line after them. An indentation of zero is not known
yet, and all spaces belong to it. A tab is no indentation. -/
def emptyLines? (indent : Nat) : Nat → List Char → Nat → Cursor → Option EmptyLines
  | 0, _, _, _ => none
  | fuel + 1, breaks, widest, c =>
    let spaces := (c.rest.takeWhile (· = ' ')).length
    let c := c.along (if indent = 0 then spaces else Nat.min spaces (indent - c.column))
    let widest := Nat.max widest c.column
    match c.rest with
    | [] => some ⟨breaks, widest, c⟩
    | x :: _ =>
      if (indent = 0 ∨ c.column < indent) ∧ x = '\t' then none
      else if isBreak x then emptyLines? indent fuel (breaks ++ [normalBreak x]) widest c.next
      else some ⟨breaks, widest, c⟩

/-- A block text that is read line by line. -/
structure BlockText where
  text : List Char
  /-- The break after the last line -/
  lastBreak : List Char
  /-- The breaks of the empty lines after it -/
  breaks : List Char
  /-- Whether the last line begins with a blank -/
  blankLed : Bool
  cursor : Cursor
  deriving DecidableEq, Repr

namespace BlockText

/-- What stands between the last line and the next one. In a folded text a single break between lines
that do not begin with a blank is a blank, and of several the first one is dropped. -/
def joint (folded : Bool) (b : BlockText) : List Char :=
  if folded && b.lastBreak == ['\n'] && !b.blankLed && !b.cursor.rest.head?.any isBlank then
    if b.breaks.isEmpty then [' '] else b.breaks
  else b.lastBreak ++ b.breaks

/-- Read the lines that have the indentation of the text. -/
def lines? (folded : Bool) (indent : Nat) : Nat → BlockText → Option BlockText
  | 0, _ => none
  | fuel + 1, b =>
    let c := b.cursor
    if c.column ≠ indent ∨ c.rest.isEmpty then some b
    else do
      let line := c.rest.takeWhile fun x => !isBreak x
      let behind := c.along line.length
      let more ← emptyLines? indent (behind.rest.length + 1) [] 0 behind.next
      lines? folded indent fuel {
        text := b.text ++ b.joint folded ++ line
        lastBreak := (behind.rest.take 1).map normalBreak
        breaks := more.breaks
        blankLed := line.head?.any isBlank
        cursor := more.cursor }

/-- The text with as many of its last breaks as are kept. -/
def chomp (b : BlockText) : Chomping → List Char
  | .strip => b.text
  | .clip => b.text ++ b.lastBreak
  | .keep => b.text ++ b.lastBreak ++ b.breaks

end BlockText

/-- The block text whose mark is in front. The block around it is indented by `outer`, -1 outside of
all blocks. -/
def block? (folded : Bool) (outer : Int) (c : Cursor) : Option Reading := do
  let c := c.along 1
  let (chomping, more, rest) ← blockHead? c.rest
  let c ← (c.upTo rest).nextLine?
  let fuel := c.rest.length + 1
  let known := if more = 0 then 0 else outer.toNat + more
  let lead ← emptyLines? known fuel [] 0 c
  let indent := if known = 0 then Nat.max lead.widest (Nat.max (outer + 1).toNat 1) else known
  let b ← BlockText.lines? folded indent fuel ⟨[], [], lead.breaks, false, lead.cursor⟩
  return ⟨b.chomp chomping, b.cursor, true⟩

end Yaml
end OutcomeMarket
