import OutcomeMarket.Data.Json.Number
import OutcomeMarket.Data.Yaml.Block
import OutcomeMarket.Data.Yaml.Tag

/-! The marks and texts that a YAML document consists of. Indentation opens and closes collections, so it
becomes tokens as well. Whether a text is a key shows only at the colon behind it; the tokens that
a key has in front are put there at that point. -/
namespace OutcomeMarket
namespace Yaml

inductive Token where
  | directive
  | documentStart
  | documentEnd
  | openList
  | openMap
  | closeBlock
  | openBracket
  | closeBracket
  | openBrace
  | closeBrace
  | entry
  | comma
  | key
  | value
  /-- The name of a node, by its number -/
  | anchor (number : Nat)
  /-- A reference to the node with that name -/
  | reference (number : Nat)
  | tag (tag : Tag)
  | text (style : Style) (content : String)
  deriving DecidableEq, Repr

/-- A place where a key may have begun. -/
structure Candidate where
  /-- How many tokens stand before it -/
  before : Nat
  index : Nat
  line : Nat
  column : Nat
  /-- Whether it can be nothing but a key -/
  required : Bool
  deriving DecidableEq, Repr

/-- The state of reading tokens. -/
structure Lexer where
  cursor : Cursor
  /-- The tokens so far, the latest first -/
  tokens : List Token
  /-- The column of the innermost block, -1 outside of all -/
  indent : Int
  /-- The columns of the blocks around it -/
  outer : List Int
  /-- The candidate outside of brackets -/
  blockKey : Option Candidate
  /-- The candidates inside of brackets, the innermost first -/
  flowKeys : List (Option Candidate)
  /-- Whether a key may begin here -/
  keyAllowed : Bool
  /-- Whether a version has been named -/
  hasVersion : Bool
  handles : Handles
  /-- The names given so far, each with the number that it had last -/
  anchors : List (List Char × Nat)
  deriving DecidableEq, Repr

/-- Reading that fails on a text that is no document. -/
abbrev LexM := StateT Lexer Option

namespace Lexer

def start (s : String) : Lexer where
  cursor := .start s
  tokens := []
  indent := -1
  outer := []
  blockKey := none
  flowKeys := []
  keyAllowed := true
  hasVersion := false
  handles := []
  anchors := []

def inFlow (l : Lexer) : Bool := !l.flowKeys.isEmpty

/-- The candidate at the innermost level. -/
def candidate (l : Lexer) : Option Candidate := l.flowKeys.head?.getD l.blockKey

def setCandidate (k : Option Candidate) (l : Lexer) : Lexer :=
  match l.flowKeys with
  | [] => { l with blockKey := k }
  | _ :: ks => { l with flowKeys := k :: ks }

def emit (t : Token) : LexM Unit := modify fun l => { l with tokens := t :: l.tokens }

/-- Put a token in front of all but the first n. -/
def emitAfter (n : Nat) (t : Token) : LexM Unit :=
  modify fun l => { l with tokens := l.tokens.insertIdx (l.tokens.length - n) t }

def allowKey (b : Bool) : LexM Unit := modify fun l => { l with keyAllowed := b }

/-- Go on by so many characters. -/
def advance (n : Nat) : LexM Unit := modify fun l => { l with cursor := l.cursor.along n }

/-- Go on to what is left on the line. -/
def advanceTo (rest : List Char) : LexM Unit := modify fun l => { l with cursor := l.cursor.upTo rest }

/-- Skip blanks in front of a token. A tab is none where a key may begin. -/
def isSkipped (l : Lexer) (c : Char) : Bool := c = ' ' || (c = '\t' && (l.inFlow || !l.keyAllowed))

/-- Go on to the next token, past blanks, comments and line breaks. Outside of brackets a key may begin
on a new line. -/
def skipToToken : Nat → Lexer → Lexer
  | 0, l => l
  | fuel + 1, l =>
    match l.cursor.rest with
    | [] => l
    | c :: _ =>
      if isSkipped l c || (c = '\ufeff' && l.cursor.column == 0) then
        skipToToken fuel { l with cursor := l.cursor.next }
      else if c = '#' then
        let n := (l.cursor.rest.takeWhile fun x => !isBreak x).length
        skipToToken fuel { l with cursor := l.cursor.along n }
      else if isBreak c then
        skipToToken fuel { l with cursor := l.cursor.next, keyAllowed := l.keyAllowed || !l.inFlow }
      else l

/-- A key and its colon stand on one line, at most 1024 bytes apart. -/
def isStale (c : Cursor) (k : Candidate) : Bool := k.line < c.line || k.index + 1024 < c.index

/-- Drop a candidate that is too far away; a required one may not be dropped. -/
def expire? (c : Cursor) : Option Candidate → Option (Option Candidate)
  | none => some none
  | some k => if isStale c k then (if k.required then none else some none) else some (some k)

def expireKeys : LexM Unit := do
  let l ← get
  let blockKey ← (expire? l.cursor l.blockKey : Option (Option Candidate))
  let flowKeys ← (l.flowKeys.mapM (expire? l.cursor) : Option (List (Option Candidate)))
  set { l with blockKey := blockKey, flowKeys := flowKeys }

/-- The innermost candidate was none. -/
def forgetKey : LexM Unit := do
  let l ← get
  if l.candidate.any Candidate.required then failure
  set (l.setCandidate none)

/-- A key may begin here. At the column of its block it has to. -/
def offerKey : LexM Unit := do
  let l ← get
  if l.keyAllowed then
    forgetKey
    let c := l.cursor
    modify (setCandidate (some
      ⟨l.tokens.length, c.index, c.line, c.column, !l.inFlow && l.indent == c.column⟩))

/-- Close the blocks that are indented further than the given column. -/
def unwind (column : Int) (tokens : List Token) (indent : Int) : List Int → List Token × Int × List Int
  | [] => (tokens, indent, [])
  | i :: is =>
    if column < indent then unwind column (.closeBlock :: tokens) i is else (tokens, indent, i :: is)

def closeBlocks (column : Int) : LexM Unit := modify fun l =>
  if l.inFlow then l
  else
    let (tokens, indent, outer) := unwind column l.tokens l.indent l.outer
    { l with tokens := tokens, indent := indent, outer := outer }

/-- Open a block at a column, unless there is one. Its token comes after the first n. -/
def openBlock (column n : Nat) (t : Token) : LexM Unit := do
  let l ← get
  if !l.inFlow && l.indent < column then
    set { l with indent := column, outer := l.indent :: l.outer }
    emitAfter n t

def documentMark (t : Token) : LexM Unit := do
  closeBlocks (-1)
  forgetKey
  allowKey false
  advance 3
  emit t

def openFlow (t : Token) : LexM Unit := do
  offerKey
  modify fun l => { l with flowKeys := none :: l.flowKeys }
  allowKey true
  advance 1
  emit t

def closeFlow (t : Token) : LexM Unit := do
  forgetKey
  modify fun l => { l with flowKeys := l.flowKeys.tail }
  allowKey false
  advance 1
  emit t

def comma : LexM Unit := do
  forgetKey
  allowKey true
  advance 1
  emit .comma

/-- A mark that opens a block of its own where a key may begin. -/
def blockMark (opening mark : Token) : LexM Unit := do
  let l ← get
  if !l.inFlow then
    if !l.keyAllowed then failure
    openBlock l.cursor.column l.tokens.length opening
  forgetKey
  advance 1
  emit mark

def entryMark : LexM Unit := do
  blockMark .openList .entry
  allowKey true

def keyMark : LexM Unit := do
  blockMark .openMap .key
  allowKey (!(← get).inFlow)

/-- A colon. What stands before it on the line becomes a key, if it can be one. -/
def valueMark : LexM Unit := do
  let l ← get
  match l.candidate with
  | some k =>
    emitAfter k.before .key
    openBlock k.column k.before .openMap
    modify (setCandidate none)
    allowKey false
  | none =>
    if !l.inFlow then
      if !l.keyAllowed then failure
      openBlock l.cursor.column l.tokens.length .openMap
    allowKey (!l.inFlow)
  advance 1
  emit .value

/-- A number of at most nine digits, and what follows it. -/
def number? (cs : List Char) : Option (Nat × List Char) :=
  let ds := cs.takeWhile Char.isDigit
  if ds.isEmpty || 9 < ds.length then none
  else some (Json.Literal.natOf ds, cs.dropWhile Char.isDigit)

/-- Name the version, which happens once and allows two of them. -/
def versionDirective (cs : List Char) : LexM (List Char) := do
  let (major, cs) ← (number? cs : Option (Nat × List Char))
  let '.' :: cs := cs | failure
  let (minor, cs) ← (number? cs : Option (Nat × List Char))
  if (← get).hasVersion || major ≠ 1 || (minor ≠ 1 && minor ≠ 2) then failure
  modify fun l => { l with hasVersion := true }
  return cs

/-- Say what a handle stands for, which happens once for each. -/
def tagDirective (cs : List Char) : LexM (List Char) := do
  let (handle, cs) ← (handle? cs : Option (List Char × List Char))
  if !(handle == ['!'] || isClosed handle) || !cs.head?.any isBlank then failure
  let (name, cs) ← (tagPart? true (cs.dropWhile isBlank) : Option (TagName × List Char))
  if !gapAhead cs || ((← get).handles.lookup handle).isSome then failure
  modify fun l => { l with handles := (handle, name) :: l.handles }
  return cs

/-- A percent sign at the start of a line, which goes with what comes before the document. -/
def directive : LexM Unit := do
  closeBlocks (-1)
  forgetKey
  allowKey false
  let cs := (← get).cursor.rest.drop 1
  let rest := cs.dropWhile isWordChar
  if !gapAhead rest then failure
  let values := rest.dropWhile isBlank
  let rest ← match String.ofList (cs.takeWhile isWordChar) with
    | "YAML" => versionDirective values
    | "TAG" => tagDirective values
    | _ => failure
  advanceTo rest
  let c ← ((← get).cursor.nextLine? : Option Cursor)
  modify fun l => { l with cursor := c }
  emit .directive

/-- Whether the name of a node ends here. -/
def nameEnds (cs : List Char) : Bool := gapAhead cs || cs.head?.any "?:,]\x7d%@\x60".toList.contains

/-- Read the name of a node behind its mark. -/
def nodeName : LexM (List Char) := do
  offerKey
  allowKey false
  let cs := (← get).cursor.rest.drop 1
  let rest := cs.dropWhile isWordChar
  if rest.length = cs.length || !nameEnds rest then failure
  advanceTo rest
  return cs.takeWhile isWordChar

/-- Names are numbered by how many others there are. A name that is given anew gets another number,
which the next new name may take over. -/
def anchor : LexM Unit := do
  let name ← nodeName
  let n := (← get).anchors.length
  modify fun l => { l with anchors := (name, n) :: l.anchors.filter (·.1 ≠ name) }
  emit (.anchor n)

/-- A reference to a name that has been given. -/
def reference : LexM Unit := do
  let name ← nodeName
  emit (.reference (← ((← get).anchors.lookup name : Option Nat)))

def tag : LexM Unit := do
  offerKey
  allowKey false
  let l ← get
  let (t, rest) ← (tag? l.handles l.cursor.rest : Option (Tag × List Char))
  if !(gapAhead rest || (l.inFlow && rest.head? == some ',')) then failure
  advanceTo rest
  emit (.tag t)

/-- A text that may be a key. After a plain one that ends at a line break a key may begin. -/
def text (style : Style) (read : Lexer → Option Reading) : LexM Unit := do
  offerKey
  let r ← (read (← get) : Option Reading)
  modify fun l => { l with cursor := r.cursor, keyAllowed := r.brokeLine }
  emit (.text style (String.ofList r.text))

/-- A block text, which is no key. -/
def blockText (style : Style) : LexM Unit := do
  forgetKey
  allowKey true
  let l ← get
  let r ← (block? (style == .folded) l.indent l.cursor : Option Reading)
  modify fun l => { l with cursor := r.cursor }
  emit (.text style (String.ofList r.text))

/-- Whether a plain text may begin with these characters. -/
def startsPlain (flow : Bool) : List Char → Bool
  | [] => false
  | '-' :: cs => !cs.head?.any isBlank
  | '?' :: cs | ':' :: cs => !flow && !gapAhead cs
  | c :: _ => !(isBlank c || isBreak c || isFlowIndicator c || "#&*!|>'\"%@\x60".toList.contains c)

/-- Read one token. The answer says whether there is more to read. -/
def token : LexM Bool := do
  modify fun l => skipToToken (2 * l.cursor.rest.length + 1) l
  expireKeys
  let l ← get
  closeBlocks l.cursor.column
  let flow := l.inFlow
  match l.cursor.rest with
  | [] =>
    closeBlocks (-1)
    forgetKey
    return false
  | c :: cs =>
    if l.cursor.column == 0 && c = '%' then directive
    else if l.cursor.atMark '-' then documentMark .documentStart
    else if l.cursor.atMark '.' then documentMark .documentEnd
    else if c = '[' then openFlow .openBracket
    else if c = '\x7b' then openFlow .openBrace
    else if c = ']' then closeFlow .closeBracket
    else if c = '\x7d' then closeFlow .closeBrace
    else if c = ',' then comma
    else if c = '-' && gapAhead cs then entryMark
    else if c = '?' && (flow || gapAhead cs) then keyMark
    else if c = ':' && (flow || gapAhead cs) then valueMark
    else if c = '*' then reference
    else if c = '&' then anchor
    else if c = '!' then tag
    else if c = '|' && !flow then blockText .literal
    else if c = '>' && !flow then blockText .folded
    else if c = '\'' || c = '"' then text .quoted fun l => quoted? l.cursor
    else if startsPlain flow l.cursor.rest then
      text .plain fun l => plain? l.inFlow (l.indent + 1).toNat l.cursor
    else failure
    return true

/-- Read tokens to the end of the text. -/
def run : Nat → LexM Unit
  | 0 => failure
  | fuel + 1 => do
    if ← token then run fuel

end Lexer

/-- The tokens of a text, if it is made of tokens. Each of them takes a character at least. -/
def Token.ofText? (s : String) : Option (List Token) :=
  if s.toList.all isAllowed then do
    let (_, l) ← (Lexer.run (s.length + 1)).run (.start s)
    return l.tokens.reverse
  else none

end Yaml
end OutcomeMarket
