import Mathlib.Data.List.TakeWhile
import ForgeNode.Lib.Outline
import ForgeNode.Editor.Words

/-! Which lines can be folded away, by indentation. -/

namespace ForgeNode.Editor.Fold

open List Outline Movement Utf8

/-- How many lines are scanned for regions. -/
def maxScanLines : Nat := 100000

/-- What the scan carries: the regions found, the open blocks with the innermost first, and the last
line with content. -/
structure Scan where
  out : List Region
  opened : List Item
  lastContent : Nat

/-- `if last_content > header { out.push(..) }`. -/
def push (last : Nat) (out : List Region) (entry : Item) : List Region :=
  if last > entry.line then out ++ [⟨entry.line, last⟩] else out

/-- A line at or under an open block's indent closes it. -/
def closeBlocks (indent last : Nat) : List Region → List Item → List Region × List Item
  | out, [] => (out, [])
  | out, entry :: below =>
    if indent > entry.depth then (out, entry :: below) else closeBlocks indent last
      (push last out entry) below

/-- The indent of a line; none for a blank one. -/
def content (script : Script) (text : Text) (line : Nat) : Option Nat :=
  let body := text.line line
  let blank := leadingBlank script body.bytes body.len 0
  if blank = body.len then none else some (displayColumn script body blank)

def scanItem (scan : Scan) (entry : Item) : Scan :=
  let closed := closeBlocks entry.depth scan.lastContent scan.out scan.opened
  ⟨closed.1, entry :: closed.2, entry.line⟩

def scanLine (script : Script) (text : Text) (scan : Scan) (line : Nat) : Scan :=
  match content script text line with
  | none => scan
  | some indent => scanItem scan ⟨line, indent⟩

/-- By header, and of one header the longer first. -/
def before (first second : Region) : Bool :=
  decide (first.header < second.header ∨ first.header = second.header ∧ second.last ≤ first.last)

/-- Every foldable region, outermost first, in document order. -/
def regions (script : Script) (text : Text) : List Region :=
  let count := min text.lineCount maxScanLines
  let scan := (List.range count).foldl (scanLine script text) ⟨[], [], 0⟩
  let out := scan.opened.reverse.foldl (push scan.lastContent) scan.out
  out.mergeSort before

/-- How deep a line is that is not blank: the display column of its first character that is no
whitespace. -/
def Depth (script : Script) (text : Text) (line indent : Nat) : Prop :=
  ∃ gap first rest, (text.line line).bytes = encode (gap ++ first :: rest) ∧
    (∀ c ∈ gap, script.isWhitespace c = true) ∧ script.isWhitespace first = false ∧
    indent = displayColumn script (text.line line) (encode gap).length

/-- A line with more than whitespace on it. -/
def Content (script : Script) (text : Text) (line : Nat) : Prop :=
  line < text.lineCount ∧ ∃ chars, (text.line line).bytes = encode chars ∧ ∃ c ∈ chars,
    script.isWhitespace c = false

/-- The first line with content behind `line`. -/
structure Next (script : Script) (text : Text) (line next : Nat) : Prop where
  after : line < next
  content : Content script text next
  blank : ∀ between, line < between → between < next → ¬ Content script text between

/-- Where the block of `header` is over: the next line with content that is no deeper, else the end
of the text. -/
structure Closing (script : Script) (text : Text) (header indent stop : Nat) : Prop where
  after : header < stop
  shallow : stop = text.lineCount ∨ stop < text.lineCount ∧ ∃ level, Depth script text stop level ∧
    level ≤ indent
  deeper : ∀ between level, header < between → between < stop → Depth script text between level →
    indent < level

/-- What a region is for: a line with content, a deeper one next, and all up to the last line with
content before one that is no deeper. -/
def IsRegion (script : Script) (text : Text) (region : Region) : Prop :=
  ∃ indent, region.header < text.lineCount ∧ Depth script text region.header indent ∧
    (∃ next level, Next script text region.header next ∧ Depth script text next level ∧
      indent < level) ∧
    ∃ stop, Closing script text region.header indent stop ∧ region.last < stop ∧
      Content script text region.last ∧ ∀ between, region.last < between → between < stop →
        ¬ Content script text between

section Pass

variable {rest : List Item} {stack : List Item} {out : List Region} {indent last line : Nat}

theorem push_eq (last : Nat) (out : List Region) (entry : Item) :
    push last out entry = out ++ (block last [] entry).toList := by
  unfold push block reach
  split_ifs with more
  · rfl
  · simp

theorem pushAll_eq (last : Nat) (out : List Region) (stack : List Item) :
    stack.foldl (push last) out = out ++ stack.filterMap (block last []) := by
  induction stack generalizing out with
  | nil => simp
  | cons entry below ih =>
    rw [foldl_cons, ih, push_eq, filterMap_cons]
    cases block last [] entry <;> simp

/-- The blocks on the stack, deeper towards its top. -/
def Nested (stack : List Item) : Prop := stack.Pairwise fun upper lower => lower.depth < upper.depth

/-- A line takes off the stack what it closes, and what it leaves there reaches on behind it. -/
theorem closeBlocks_blocks (nested : Nested stack) :
    (closeBlocks indent last out stack).1 ++ (closeBlocks indent last out stack).2.filterMap
    (block line rest) =
      out ++ stack.filterMap (block last (⟨line, indent⟩ :: rest)) := by
  induction stack generalizing out with
  | nil => rfl
  | cons entry below ih =>
    obtain ⟨above, lower⟩ := pairwise_cons.mp nested
    unfold closeBlocks
    split_ifs with deeper
    · have same : ∀ other ∈ entry :: below, block line rest other =
          block last (⟨line, indent⟩ :: rest) other := by
        intro other within
        have under : other.depth < indent := by
          rcases mem_cons.mp within with rfl | later
          · exact deeper
          · exact Nat.lt_trans (above other later) deeper
        rw [block, block, reach, if_pos under]
      rw [filterMap_congr same]
    · have closed : block last (⟨line, indent⟩ :: rest) entry = block last [] entry := by
        have stays : reach entry.depth last (⟨line, indent⟩ :: rest) = last := if_neg deeper
        rw [block, block, stays, reach]
      rw [ih lower, push_eq, filterMap_cons, closed]
      cases block last [] entry <;> simp

theorem closeBlocks_sublist : (closeBlocks indent last out stack).2.Sublist stack := by
  induction stack generalizing out with
  | nil => exact .slnil
  | cons entry below ih =>
    unfold closeBlocks
    split_ifs
    · exact .refl _
    · exact .cons _ ih

theorem closeBlocks_under (nested : Nested stack) :
    ∀ entry ∈ (closeBlocks indent last out stack).2, entry.depth < indent := by
  induction stack generalizing out with
  | nil => simp [closeBlocks]
  | cons entry below ih =>
    obtain ⟨above, lower⟩ := pairwise_cons.mp nested
    unfold closeBlocks
    split_ifs with deeper
    · intro other within
      rcases mem_cons.mp within with rfl | later
      · exact deeper
      · exact Nat.lt_trans (above other later) deeper
    · exact ih lower

theorem scanItem_nested {scan : Scan} (nested : Nested scan.opened) (entry : Item) :
    Nested (scanItem scan entry).opened :=
  pairwise_cons.mpr ⟨closeBlocks_under nested, List.Pairwise.sublist closeBlocks_sublist nested⟩

/-- The pass over the lines and the loop over what stays open find the open blocks' regions and
those of the lines to come. -/
theorem pass_perm (scan : Scan) (nested : Nested scan.opened) (entries : List Item) :
    ((entries.foldl scanItem scan).opened.reverse.foldl
      (push (entries.foldl scanItem scan).lastContent)
      (entries.foldl scanItem scan).out).Perm
      (scan.out ++ scan.opened.filterMap (block scan.lastContent entries) ++ blocks entries) := by
  induction entries generalizing scan with
  | nil =>
    rw [foldl_nil, pushAll_eq, blocks, append_nil]
    exact (List.Perm.filterMap _ (reverse_perm _)).append_left _
  | cons entry rest ih =>
    rw [foldl_cons]
    refine (ih (scanItem scan entry) (scanItem_nested nested entry)).trans ?_
    have closed : (closeBlocks entry.depth scan.lastContent scan.out scan.opened).1 ++
        (closeBlocks entry.depth scan.lastContent scan.out scan.opened).2.filterMap
        (block entry.line rest) =
          scan.out ++ scan.opened.filterMap (block scan.lastContent (entry :: rest)) :=
          closeBlocks_blocks nested
    rw [blocks, ← closed]
    simp only [scanItem, filterMap_cons, append_assoc]
    cases block entry.line rest entry with
    | none => exact .refl _
    | some region =>
      apply List.Perm.append_left
      exact perm_middle.symm

end Pass

section Lines

variable (script : Script) (text : Text)

/-- The lines with content among the first `count`, with their indents. -/
def outline (count : Nat) : List Item :=
  (List.range count).filterMap fun line => (content script text line).map fun indent => ⟨line, indent⟩

variable {script text} {line : Nat}

/-- What stands behind the whitespace that characters start with. -/
theorem depth_of_chars {chars : List Char} (same : (text.line line).bytes = encode chars)
    (full : ∃ c ∈ chars, script.isWhitespace c = false) : Depth script text line
      (displayColumn script (text.line line)
      (encode (chars.takeWhile script.isWhitespace)).length) := by
  have parts : chars.takeWhile script.isWhitespace ++ chars.dropWhile script.isWhitespace = chars :=
    takeWhile_append_dropWhile
  have stops := head?_dropWhile_not script.isWhitespace chars
  cases behind : chars.dropWhile script.isWhitespace with
  | nil =>
    obtain ⟨c, member, print⟩ := full
    have white := dropWhile_eq_nil_iff.mp behind c member
    rw [print] at white
    cases white
  | cons first rest =>
    rw [behind] at parts stops
    exact ⟨_, first, rest, same.trans (congrArg encode parts.symm), fun c member =>
      mem_takeWhile_imp member, by simpa using stops, rfl⟩

theorem content_eq_some {indent : Nat} : content script text line = some indent ↔
    Depth script text line indent := by
  have skipped {chars : List Char} (same : (text.line line).bytes = encode chars) :
      leadingBlank script (text.line line).bytes (text.line line).len 0 =
        (encode (chars.takeWhile script.isWhitespace)).length := by
    have here : Split (text.line line).bytes 0 [] chars := ⟨same, rfl⟩
    exact leadingBlank_spec script here here.ahead_le
  constructor
  · intro some_
    obtain ⟨chars, same⟩ := (text.line line).valid.chars
    simp only [content, skipped same] at some_
    split at some_
    · cases some_
    · rename_i full
      cases some_
      refine depth_of_chars same ?_
      by_contra white
      refine full ?_
      rw [Str.len, same, takeWhile_eq_self_iff.mpr]
      simpa using white
  · rintro ⟨gap, first, rest, same, white, stops, rfl⟩
    have taken : (gap ++ first :: rest).takeWhile script.isWhitespace = gap := by
      rw [takeWhile_append_of_pos white, takeWhile_cons_of_neg (by simp [stops]), append_nil]
    have short : (encode gap).length ≠ (text.line line).len := by
      rw [Str.len, same, encode_append, length_append]
      have some_ := length_le_encode (first :: rest)
      rw [length_cons] at some_
      omega
    simp only [content, skipped same, taken, if_neg short]

theorem Depth.unique {first second : Nat} (one : Depth script text line first)
    (other : Depth script text line second) :
    first = second :=
  Option.some.inj ((content_eq_some.mpr one).symm.trans (content_eq_some.mpr other))

theorem mem_outline {count : Nat} {item : Item} :
    item ∈ outline script text count ↔ item.line < count ∧
    Depth script text item.line item.depth := by
  unfold outline
  rw [mem_filterMap, ← content_eq_some]
  constructor
  · rintro ⟨line, within, found⟩
    obtain ⟨indent, some_, rfl⟩ := Option.map_eq_some_iff.mp found
    exact ⟨mem_range.mp within, some_⟩
  · rintro ⟨inside, some_⟩
    exact ⟨item.line, mem_range.mpr inside, by rw [some_]; rfl⟩

theorem outline_ordered (count : Nat) : Ordered (outline script text count) := by
  apply List.Pairwise.filterMap _ _ pairwise_lt_range
  intro first second less one here other there
  obtain ⟨_, _, rfl⟩ := Option.map_eq_some_iff.mp here
  obtain ⟨_, _, rfl⟩ := Option.map_eq_some_iff.mp there
  exact less

theorem foldl_scanLine (scan : Scan) (count : Nat) :
    (List.range count).foldl (scanLine script text) scan =
      (outline script text count).foldl scanItem scan := by
  rw [outline, foldl_filterMap]
  congr 1
  funext scan line
  unfold scanLine
  cases content script text line <;> rfl

theorem before_trans (first second third : Region) (one : before first second = true)
    (other : before second third = true) : before first third = true := by
  simp only [before, decide_eq_true_eq] at *
  omega

theorem before_total (first second : Region) :
    (before first second || before second first) = true := by
  simp only [before, Bool.or_eq_true, decide_eq_true_eq]
  omega

theorem before_antisymm {first second : Region} (one : before first second = true)
    (other : before second first = true) : first = second := by
  simp only [before, decide_eq_true_eq] at one other
  ext <;> omega

theorem regions_eq :
    regions script text = blocks (outline script text (min text.lineCount maxScanLines)) := by
  have ordered : Ordered (outline script text (min text.lineCount maxScanLines)) := outline_ordered _
  have pass := pass_perm ⟨[], [], 0⟩ .nil (outline script text (min text.lineCount maxScanLines))
  simp only [← foldl_scanLine, filterMap_nil, nil_append] at pass
  have sorted : (regions script text).Pairwise fun first second => before first second = true :=
    pairwise_mergeSort before_trans before_total _
  refine List.Perm.eq_of_pairwise ?_ sorted ?_ ((mergeSort_perm _ _).trans pass)
  · intro first second _ _ one other
    exact before_antisymm one other
  · apply (blocks_sorted ordered).imp
    intro first second less
    exact decide_eq_true (.inl less)

theorem content_of (inside : line < text.lineCount) {indent : Nat}
    (some_ : Depth script text line indent) : Content script text line := by
  obtain ⟨gap, first, rest, same, _, full, _⟩ := some_
  exact ⟨inside, _, same, first, mem_append_right _ mem_cons_self, full⟩

theorem Content.item (here : Content script text line) : ∃ indent, Depth script text line indent ∧
    (⟨line, indent⟩ : Item) ∈ outline script text text.lineCount := by
  obtain ⟨inside, chars, same, full⟩ := here
  have deep := depth_of_chars same full
  exact ⟨_, deep, mem_outline.mpr ⟨inside, deep⟩⟩

theorem exists_next (more : ∃ next, line < next ∧ Content script text next) :
    ∃ next, Next script text line next := by
  classical
  obtain ⟨after, content⟩ := Nat.find_spec more
  refine ⟨Nat.find more, after, content, ?_⟩
  intro between above below content
  exact Nat.find_min more below ⟨above, content⟩

/-- The blocks of the outline are the regions of the text. -/
theorem isRegion_iff {region : Region} : IsRegion script text region ↔
    ∃ item, item.line = region.header ∧ Opens (outline script text text.lineCount)
    item region.last := by
  constructor
  · rintro ⟨indent, inside, some_, ⟨next, level, following, here, deeper⟩, stop, closing, short,
      final, blank⟩
    have low : next < stop := by
      by_contra beyond
      rcases closing.shallow with end_ | ⟨within, other, there, shallow⟩
      · have bound := following.content.1
        omega
      · rcases Nat.lt_or_ge stop next with less | more
        · exact following.blank stop closing.after less (content_of within there)
        · obtain rfl : stop = next := by omega
          obtain rfl := here.unique there
          omega
    have reached : next ≤ region.last := by
      by_contra past
      exact blank next (by omega) low following.content
    have after := following.after
    refine ⟨⟨region.header, indent⟩, rfl, mem_outline.mpr ⟨inside, some_⟩,
      Nat.lt_of_lt_of_le after reached, ?_, ?_, ?_⟩
    · obtain ⟨_, _, within⟩ := final.item
      exact ⟨_, within, rfl⟩
    · intro inner within above below
      obtain ⟨_, level⟩ := mem_outline.mp within
      exact closing.deeper inner.line inner.depth above (Nat.lt_of_le_of_lt below short) level
    · intro outer within beyond
      obtain ⟨bound, level⟩ := mem_outline.mp within
      have past : stop ≤ outer.line := by
        by_contra less
        exact blank outer.line beyond (by omega) (content_of bound level)
      rcases closing.shallow with end_ | ⟨under, other, there, shallow⟩
      · omega
      · exact ⟨⟨stop, other⟩, mem_outline.mpr ⟨under, there⟩, short, past, shallow⟩
  · rintro ⟨⟨header, indent⟩, rfl, opens⟩
    obtain ⟨inside, some_⟩ := mem_outline.mp opens.mem
    obtain ⟨⟨last, depth⟩, ended, rfl⟩ := opens.place
    obtain ⟨bound, level⟩ := mem_outline.mp ended
    have final : Content script text region.last := content_of bound level
    refine ⟨indent, inside, some_, ?_, ?_⟩
    · obtain ⟨next, following⟩ := exists_next ⟨region.last, opens.long, final⟩
      have reached : next ≤ region.last := by
        by_contra past
        exact following.blank region.last opens.long (by omega) final
      obtain ⟨deep, here, within⟩ := following.content.item
      exact ⟨next, deep, following, here, opens.deeper _ within following.after reached⟩
    · by_cases more : ∃ line, region.last < line ∧ Content script text line
      · obtain ⟨stop, following⟩ := exists_next more
        obtain ⟨deep, here, within⟩ := following.content.item
        obtain ⟨closer, among, past, inside, shallow⟩ := opens.closed _ within following.after
        obtain ⟨under, closes⟩ := mem_outline.mp among
        have same : closer.line = stop := by
          by_contra other
          exact following.blank closer.line past (Nat.lt_of_le_of_ne inside other)
            (content_of under closes)
        rw [same] at under closes
        have between := Nat.lt_trans opens.long following.after
        refine ⟨stop, ⟨between, .inr ⟨under, closer.depth, closes, shallow⟩, ?_⟩, following.after,
          final, following.blank⟩
        intro line level above below there
        have content := content_of (Nat.lt_trans below under) there
        have low : line ≤ region.last := by
          by_contra beyond
          exact following.blank line (by omega) below content
        exact opens.deeper ⟨line, level⟩ (mem_outline.mpr ⟨content.1, there⟩) above low
      · refine ⟨text.lineCount, ⟨inside, .inl rfl, ?_⟩, bound, final, ?_⟩
        · intro line level above below there
          have low : line ≤ region.last := by
            by_contra beyond
            exact more ⟨line, by omega, content_of below there⟩
          exact opens.deeper ⟨line, level⟩ (mem_outline.mpr ⟨below, there⟩) above low
        · intro line beyond _ content
          exact more ⟨line, beyond, content⟩

/-- Two regions are one under the other or apart. -/
def NestedOrDisjoint (first second : Region) : Prop :=
  first.last < second.header ∨ second.last ≤ first.last

/-- The regions of a text are its blocks, each header once and in document order, and no two
cross. -/
theorem regions_spec (script : Script) (text : Text) (short : text.lineCount ≤ maxScanLines) :
    (∀ region, region ∈ regions script text ↔ IsRegion script text region) ∧
      (regions script text).Pairwise fun first second =>
        first.header < second.header ∧ NestedOrDisjoint first second := by
  have ordered : Ordered (outline script text text.lineCount) := outline_ordered _
  rw [regions_eq, Nat.min_eq_left short]
  constructor
  · intro region
    rw [mem_blocks ordered, isRegion_iff]
  · apply (blocks_sorted ordered).imp_of_mem
    intro first second one other less
    obtain ⟨outer, header, opens⟩ := (mem_blocks ordered).mp one
    obtain ⟨inner, within, under⟩ := (mem_blocks ordered).mp other
    refine ⟨less, ?_⟩
    have apart := opens.nested under (by omega)
    rwa [within] at apart

/-- A block of two lines under its header. -/
def twoDeep : Text := .new (.ofChars "a:\n  b\n  c\nd".toList)

theorem regions_spec_block : IsRegion asciiScript twoDeep ⟨0, 2⟩ ∧
    ¬ IsRegion asciiScript twoDeep ⟨1, 2⟩ := by
  have found : regions asciiScript twoDeep = [⟨0, 2⟩] := by decide +kernel
  have spec := (regions_spec asciiScript twoDeep (by decide)).1
  rw [found] at spec
  exact ⟨(spec _).mp mem_cons_self, fun region => by simpa using (spec _).mpr region⟩

end Lines

end ForgeNode.Editor.Fold
