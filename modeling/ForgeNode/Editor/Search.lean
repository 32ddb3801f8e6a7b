import ForgeNode.Editor.Limits
import ForgeNode.Editor.Text

/-! Literal search over the buffer's bytes, and the ranges a replace-all rewrites. -/

namespace ForgeNode.Editor

open Utf8

structure Query where
  pattern : Str
  caseSensitive : Bool
  wholeWord : Bool
  regex : Bool
  deriving DecidableEq

/-- What the search takes from libraries: the Unicode table behind
`char::is_alphanumeric`, and the matches of a compiled regular expression, none
when it does not compile. -/
structure Engine where
  isAlphanumeric : Char → Bool
  findIter : Query → Str → List (Nat × Nat)

def eqIgnoreAsciiCase (left right : UInt8) : Bool :=
  let lower (byte : UInt8) : UInt8 := if 0x41 ≤ byte && byte ≤ 0x5A then byte + 0x20 else byte
  lower left == lower right

/-- Does `needle` stand at the start of `haystack`? -/
def startsWith (same : UInt8 → UInt8 → Bool) : List UInt8 → List UInt8 → Bool
  | [], _ => true
  | _ :: _, [] => false
  | first :: needle, byte :: haystack => same byte first && startsWith same needle haystack

/-- The first offset at which `needle` stands. -/
def findBytes (same : UInt8 → UInt8 → Bool) (needle : List UInt8) : List UInt8 → Option Nat
  | [] => if needle.isEmpty then some 0 else none
  | byte :: haystack =>
    if startsWith same needle (byte :: haystack) then some 0
    else (findBytes same needle haystack).map (· + 1)

def isWordChar (engine : Engine) (c : Char) : Bool := engine.isAlphanumeric c || c == '_'

def isWordBounded (engine : Engine) (haystack : Str) (start stop : Nat) : Bool :=
  let before := if start = 0 then none
    else firstChar (haystack.bytes.drop (floorBoundary haystack.bytes (start - 1)))
  let after := firstChar (haystack.bytes.drop stop)
  !before.any (isWordChar engine) && !after.any (isWordChar engine)

/-- The iterator of `scan_literal`; every round moves `position` forward. -/
def scanLiteralFrom (engine : Engine) (text : Text) (query : Query) : Nat → Nat → List Range
  | 0, _ => []
  | fuel + 1, position =>
    let same := if query.caseSensitive then (· == ·) else eqIgnoreAsciiCase
    match findBytes same query.pattern.bytes (text.bytes.bytes.drop position) with
    | none => []
    | some offset =>
      let found := position + offset
      let stop := found + query.pattern.len
      if !text.isBoundary found || !text.isBoundary stop then
        scanLiteralFrom engine text query fuel (ceilBoundary text.bytes.bytes text.len (found + 1))
      else
        let rest := scanLiteralFrom engine text query fuel (max stop (found + 1))
        if query.wholeWord && !isWordBounded engine text.bytes found stop then rest
        else .new found stop :: rest

def scanLiteral (engine : Engine) (text : Text) (query : Query) (start : Nat) : List Range :=
  if query.pattern.len = 0 then []
  else scanLiteralFrom engine text query (text.len + 1) (min start text.len)

/-- Regex matches, capped like every other listing. -/
def scanRegex (engine : Engine) (text : Text) (query : Query) : List Range :=
  if query.pattern.len = 0 ∨ query.pattern.len > maxPatternBytes then []
  else (((engine.findIter query text.bytes).filter fun found => decide (found.2 > found.1)).map
    fun found => Range.new found.1 found.2).take maxReplaceMatches

/-- `regex_matches`: the matches in what follows `start`, which is a boundary or past the end. -/
def regexMatches (engine : Engine) (text : Text) (query : Query) (start : Nat) : List Range :=
  if query.pattern.len = 0 ∨ query.pattern.len > maxPatternBytes then []
  else if boundary : text.bytes.IsBoundary (min start text.len) then
    ((engine.findIter query (text.bytes.since _ boundary)).filter fun found =>
      decide (found.2 > found.1)).map fun found =>
        Range.new (min start text.len + found.1) (min start text.len + found.2)
  else []

/-- All matches that a search from `start` comes to. -/
def matchesFrom (engine : Engine) (text : Text) (query : Query) (start : Nat) : List Range :=
  if query.regex then regexMatches engine text query start else scanLiteral engine text query start

/-- Where `find_in` starts: a pattern's length above the window, rounded down to a boundary. -/
def windowStart (text : Text) (query : Query) (window : Range) : Nat :=
  floorBoundary text.bytes.bytes (window.start - query.pattern.len)

def scan (engine : Engine) (text : Text) (query : Query) : List Range :=
  if query.regex then scanRegex engine text query else scanLiteral engine text query 0

/-- Ranges to rewrite for a replace-all, or the refusal: more than `maxReplaceMatches`. -/
def replaceAllRanges (engine : Engine) (text : Text) (query : Query) : Except Nat (List Range) :=
  if query.pattern.len = 0 then .ok []
  else
    let ranges := scan engine text query
    if ranges.length > maxReplaceMatches then .error maxReplaceMatches else .ok ranges

end ForgeNode.Editor
