import ForgeNode.Editor.Words
import ForgeNode.Editor.Replacing

/-! What typing puts in: indentation, closers, terminators and line comments. -/

namespace ForgeNode.Editor

open Utf8

inductive Grammar where
  | rust | cLike | prisma | sql | hcl | python | json | keyed | shell | markdown | html | css | nix
  | dockerfile | http | none
  deriving DecidableEq

/-- The whitespace one level of indentation is made of. -/
inductive IndentUnit where
  | tab
  | spaces (width : Nat)
  deriving DecidableEq

namespace IndentUnit

def text : IndentUnit → Str
  | tab => .ofChars ['\t']
  | spaces width => .ofChars (List.replicate width ' ')

/-- Display columns one level is worth. -/
def width : IndentUnit → Nat
  | tab => tabWidth
  | spaces width => width

end IndentUnit

/-- How typing behaves in one buffer. -/
structure InputStyle where
  indent : IndentUnit
  closeBrackets : Bool
  grammar : Grammar
  deriving DecidableEq

namespace Indent

def isBlankByte (byte : UInt8) : Bool := byte == 32 || byte == 9

/-- The leading whitespace of the line `offset` is on. -/
def leading (text : Text) (offset : Nat) : Str :=
  .ofChars (((text.line (text.lineOfOffset offset)).bytes.takeWhile isBlankByte).map fun byte =>
    Char.ofNat byte.toNat)

/-- `before.trim_end().len()` of the text between `start` and an offset. -/
def trimEnd (script : Script) (bytes : List UInt8) (start : Nat) : Nat → Nat → Nat
  | 0, at_ => at_
  | fuel + 1, at_ =>
    if at_ > start && (charBefore bytes at_).any script.isWhitespace then
      trimEnd script bytes start fuel (previousChar bytes at_)
    else at_

/-- Whether the text before `offset` on its line opens a block. -/
def opensBlock (script : Script) (text : Text) (offset : Nat) (grammar : Grammar) : Bool :=
  let start := text.lineStart (text.lineOfOffset offset)
  let trimmed := trimEnd script text.bytes.bytes start text.len offset
  match if trimmed > start then charBefore text.bytes.bytes trimmed else none with
  | some last => last == '\x7b' || last == '[' || last == '(' || (last == ':' && grammar == .python)
  | none => false

/-- The closer an opener wants. -/
def closerFor (opener : Char) : Option Char :=
  if opener = '(' then some ')'
  else if opener = '[' then some ']'
  else if opener = '\x7b' then some '\x7d'
  else if opener = '\x22' then some '\x22'
  else if opener = '\x27' then some '\x27'
  else if opener = '\x60' then some '\x60'
  else none

def isQuote (c : Char) : Bool := c == '\x22' || c == '\x27' || c == '\x60'

/-- Whether an opener typed at `offset` should bring its closer. -/
def wantsCloser (script : Script) (text : Text) (offset : Nat) (opener : Char) : Bool :=
  let free := match charAt text.bytes.bytes offset with
    | none => true
    | some c => script.isWhitespace c || [')', ']', '\x7d', ',', ';', '.'].contains c
  free && !(isQuote opener && Movement.isWord script (charBefore text.bytes.bytes offset))

/-- Whether typing `closer` at `offset` should step over one already there. -/
def skipsCloser (text : Text) (offset : Nat) (closer : Char) : Bool :=
  charAt text.bytes.bytes offset == some closer

end Indent

namespace Document

/-- The terminator a new line should carry. -/
def newlineFor (document : Document) : Str :=
  let here := document.text.lineTerminator (document.text.lineOfOffset document.selection.head)
  if here.len > 0 then here
  else
    let first := document.text.lineTerminator 0
    if first.len = 0 then .ofChars ['\n'] else first

/-- What Tab inserts: the buffer's own indent unit, aligned to its next stop. -/
def indentText (script : Script) (style : InputStyle) (document : Document) : Str :=
  if style.indent = .tab then .ofChars ['\t']
  else
    let position := document.text.lineCol document.selection.head
    let column := displayColumn script (document.text.line position.line) position.column
    let width := max style.indent.width 1
    .ofChars (List.replicate (width - column % width) ' ')

/-- Typing one character, with the bracket and quote rules on top. -/
def insertText (script : Script) (style : InputStyle) (document : Document) (typed : Str) :
    Except EditError (Option Applied) × Document :=
  let plain := document.insert typed .input
  let plainly := (plain.1.map some, plain.2)
  let caret := document.selection.head
  match firstChar typed.bytes with
  | none => plainly
  | some c =>
    if typed.len ≠ c.utf8Size then plainly
    else if !style.closeBrackets || !document.selection.primary.isEmpty then plainly
    else if ([')', ']', '\x7d'].contains c || Indent.isQuote c) && Indent.skipsCloser document.text
      caret c then
      (.ok none, document.setSelection (.caret (caret + c.utf8Size)))
    else match Indent.closerFor c with
      | some closer =>
        if Indent.wantsCloser script document.text caret c then
          let paired := document.insertAround typed (.ofChars [closer]) .input
          (paired.1.map some, paired.2)
        else plainly
      | none => plainly

/-- Enter, carrying the indentation the line already had. -/
def insertNewline (script : Script) (style : InputStyle) (document : Document) :
    Except EditError (Option Applied) × Document :=
  let terminator := document.newlineFor
  let caret := document.selection.head
  let text := document.text
  let here := Indent.leading text (text.lineStart (text.lineOfOffset caret))
  let deeper := Indent.opensBlock script text caret style.grammar
  let opened := terminator ++ here ++ (if deeper then style.indent.text else .empty)
  let closing := deeper && (charAt text.bytes.bytes caret).any fun next =>
    next == '\x7d' || next == ']' || next == ')'
  let inserted := if closing then document.insertAround opened (terminator ++ here) .input
    else document.insert opened .input
  (inserted.1.map some, inserted.2)

/-- Delete the lines of the selection. -/
def deleteLine (document : Document) : Except EditError (Option Applied) × Document :=
  let span := lineSpan document.text document.selection
  if span.1 = span.2 then (.ok none, document)
  else match Transaction.new [.delete (.new span.1 span.2)] .input document.selection with
    | .error error => (.error error, document.breakUndoGroup)
    | .ok transaction =>
      let (result, document) := document.breakUndoGroup.apply (transaction.withSelectionAfter
        (.caret span.1))
      (result.map some, document.breakUndoGroup)

end Document

namespace Comment

/-- The line comment of a grammar, if it has one. -/
def lineComment : Grammar → Option Str
  | .rust | .cLike | .prisma => some (.ofChars ['/', '/'])
  | .sql => some (.ofChars ['-', '-'])
  | .python | .shell | .keyed | .hcl | .nix | .dockerfile | .http => some (.ofChars ['#'])
  | .json | .markdown | .html | .css | .none => none

/-- Whether a caret's selection touches the line; one that ends at column zero leaves that line
out. -/
def touches (text : Text) (line : Nat) (cursor : Cursor) : Bool :=
  let range := cursor.range
  let first := (text.lineCol range.start).line
  let stop := text.lineCol range.stop
  let last := if !range.isEmpty && stop.column == 0 then stop.line - 1 else stop.line
  first ≤ line && line ≤ last

/-- The `BTreeSet` of touched lines, in order. -/
def touchedLines (text : Text) (selection : Selection) : List Nat :=
  (List.range text.lineCount).filter fun line => selection.cursors.any (touches text line)

/-- A line's content behind its blanks and where it starts, unless the line is blank. -/
def target (script : Script) (text : Text) (line : Nat) : Option (Nat × List UInt8) :=
  let body := (text.line line).bytes
  let content := body.dropWhile Indent.isBlankByte
  if Movement.leadingBlank script content content.length 0 = content.length then none
  else some (text.lineStart line + body.length - content.length, content)

/-- The edit of one line. -/
def lineEdit (mark : Str) (uncomment : Bool) (found : Nat × List UInt8) : Edit :=
  if uncomment then
    let space := if found.2[mark.len]? == some 32 then 1 else 0
    .delete (.new found.1 (found.1 + (mark.len + space)))
  else .replace (.emptyAt found.1) (mark ++ .ofChars [' '])

def edits (script : Script) (text : Text) (selection : Selection) (mark : Str) : List Edit :=
  let targets := (touchedLines text selection).filterMap (target script text)
  let uncomment := targets.all fun found => startsWith (· == ·) mark.bytes found.2
  targets.map (lineEdit mark uncomment)

/-- The loop of `map_offset`. -/
def mapOffset (offset : Nat) : Int → List Edit → Nat
  | shift, [] => (offset + shift).toNat
  | shift, edit :: rest =>
    if offset < edit.range.start then (offset + shift).toNat
    else if offset ≤ edit.range.stop then (edit.range.start + shift).toNat + edit.insert.len
    else mapOffset offset (shift + (edit.insert.len - edit.range.len : Int)) rest

/-- Line comments follow the buffer grammar and preserve every selection. -/
def toggle (script : Script) (style : InputStyle) (document : Document) :
    Except EditError (Option Applied) × Document :=
  if document.readOnly then (.error .readOnly, document)
  else match lineComment style.grammar with
    | none => (.ok none, document)
    | some mark =>
      let edits := edits script document.text document.selection mark
      if edits.isEmpty then (.ok none, document)
      else
        let after := document.selection.mapped fun cursor =>
          .new (mapOffset cursor.anchor 0 edits) (mapOffset cursor.head 0 edits)
        match Transaction.new edits .replace document.selection with
        | .error error => (.error error, document)
        | .ok transaction =>
          let (result, document) := document.breakUndoGroup.apply
            (transaction.withSelectionAfter after)
          (result.map some, document)

end Comment

end ForgeNode.Editor
