import Mathlib.Data.List.Induction
import Mathlib.Data.List.Forall2

/-! The scan for escapes that empty the scrollback (`ED 3`, `RIS`) against the parser behind the
engine. -/

namespace ForgeNode.Terminal.HistoryClear

def esc : UInt8 := 0x1b
def can : UInt8 := 0x18
def sub : UInt8 := 0x1a

/-- A machine's state after the bytes, and whether one of them completes a clear. -/
def feed {State : Type} (next : State → UInt8 → State × Bool) (state : State) :
    List UInt8 → State × Bool
  | [] => (state, false)
  | byte :: rest =>
    let (state, cleared) := next state byte
    let (state, later) := feed next state rest
    (state, cleared || later)

/-- Whether each chunk has a byte that completes a clear. -/
def feeds {State : Type} (next : State → UInt8 → State × Bool) (state : State) :
    List (List UInt8) → List Bool
  | [] => []
  | chunk :: rest => (feed next state chunk).2 :: feeds next (feed next state chunk).1 rest

/-- `State` of the scan; `first` is a saturating `u16`. -/
inductive ScanState where
  | ground
  | escape
  | csi (first : Nat) (inFirst marked : Bool)
  deriving DecidableEq

namespace ScanState

/-- A saturating digit after `first`. -/
def digit (first : Nat) (byte : UInt8) : Nat :=
  min (min (first * 10) 65535 + (byte.toNat - 0x30)) 65535

/-- One round of `HistoryClearScan::feed`: the next state, and whether the byte completes a
clear. -/
def next (state : ScanState) (byte : UInt8) : ScanState × Bool :=
  if byte = esc then (.escape, false)
  else match state with
    | .ground => (.ground, false)
    | .escape =>
      if byte = can ∨ byte = sub then (.ground, false)
      else if byte = 0x5b then (.csi 0 true false, false)
      else (.ground, byte == 0x63)
    | .csi first inFirst marked =>
      if byte = can ∨ byte = sub then (.ground, false)
      else if byte ≤ 0x1f then (.csi first inFirst marked, false)
      else if 0x30 ≤ byte ∧ byte ≤ 0x39 then
        (.csi (if inFirst then digit first byte else first) inFirst marked, false)
      else if byte = 0x3a ∨ byte = 0x3b then (.csi first false marked, false)
      else if (0x20 ≤ byte ∧ byte ≤ 0x2f) ∨ (0x3c ≤ byte ∧ byte ≤ 0x3f) then (.csi first inFirst
        true, false)
      else (.ground, byte == 0x4a && first == 3 && !marked)

end ScanState

/-- A state of the parser, with what it has read of the parameters. -/
inductive VtState where
  | ground
  | escape
  | escapeIntermediate
  | csiEntry
  | csiParam (first : Nat) (inFirst marked : Bool)
  | csiIntermediate
  | csiIgnore
  -- An OSC, DCS, SOS, PM or APC string.
  | string
  deriving DecidableEq

/-- A C0 control that is executed in place. -/
def isExecuted (byte : UInt8) : Bool := byte ≤ 0x1f && byte != esc && byte != can && byte != sub

namespace VtState

/-- One byte in the table of the parser: the next state, and whether it dispatches RIS, or CSI 3 J
without a marker or an intermediate. Of the bytes from 0x80 on, which are no controls in a UTF-8
stream, `ignores` says which leave a sequence as it is; the others end it. -/
def next (ignores : UInt8 → Bool) (state : VtState) (byte : UInt8) : VtState × Bool :=
  let stays := isExecuted byte || byte == 0x7f || (byte ≥ 0x80 && ignores byte)
  if byte = esc then (.escape, false)
  else if byte = can ∨ byte = sub then (.ground, false)
  else match state with
    | .ground => (.ground, false)
    | .string => if byte = 0x07 then (.ground, false) else (.string, false)
    | .escape =>
      if stays then (.escape, false)
      else if byte ≥ 0x80 then (.ground, false)
      else if byte ≤ 0x2f then (.escapeIntermediate, false)
      else if byte = 0x5b then (.csiEntry, false)
      else if byte = 0x50 ∨ byte = 0x58 ∨ byte = 0x5d ∨ byte = 0x5e ∨ byte = 0x5f then (.string,
        false)
      else (.ground, byte == 0x63)
    | .escapeIntermediate =>
      if stays ∨ byte ≤ 0x2f then (.escapeIntermediate, false) else (.ground, false)
    | .csiEntry =>
      if stays then (.csiEntry, false)
      else if byte ≥ 0x80 then (.ground, false)
      else if byte ≤ 0x2f then (.csiIntermediate, false)
      else if byte ≤ 0x39 then (.csiParam (byte.toNat - 0x30) true false, false)
      else if byte ≤ 0x3b then (.csiParam 0 false false, false)
      else if byte ≤ 0x3f then (.csiParam 0 true true, false)
      else (.ground, false)
    | .csiParam first inFirst marked =>
      if stays then (.csiParam first inFirst marked, false)
      else if byte ≥ 0x80 then (.ground, false)
      else if byte ≤ 0x2f then (.csiIntermediate, false)
      else if byte ≤ 0x39 then
        (.csiParam (if inFirst then first * 10 + (byte.toNat - 0x30) else first) inFirst marked,
          false)
      else if byte ≤ 0x3b then (.csiParam first false marked, false)
      else if byte ≤ 0x3f then (.csiIgnore, false)
      else (.ground, byte == 0x4a && first == 3 && !marked)
    | .csiIntermediate =>
      if stays ∨ byte ≤ 0x2f then (.csiIntermediate, false)
      else if 0x30 ≤ byte ∧ byte ≤ 0x3f then (.csiIgnore, false)
      else (.ground, false)
    | .csiIgnore =>
      if stays ∨ byte ≤ 0x3f then (.csiIgnore, false) else (.ground, false)

end VtState

/-- The bytes after the last ESC. -/
def sinceEscape (bytes : List UInt8) : List UInt8 :=
  bytes.foldl (fun seen byte => if byte = esc then [] else seen ++ [byte]) []

/-- Is nothing between an ESC and the byte that follows it, or after `[` no DEL and no byte from
0x80 on? -/
def isWhole : List UInt8 → Bool
  | [] => true
  | first :: rest => first == 0x5b && rest.all (· < 0x7f)

theorem sinceEscape_append (front : List UInt8) (byte : UInt8) :
    sinceEscape (front ++ [byte]) = if byte = esc then [] else sinceEscape front ++ [byte] := by
  simp [sinceEscape]

theorem isWhole_append_of_broken {since : List UInt8} (broken : isWhole since = false)
    (byte : UInt8) : isWhole (since ++ [byte]) = false := by
  cases since with
  | nil => cases broken
  | cons first rest =>
    simp only [isWhole, List.cons_append, List.all_append, Bool.and_eq_false_iff] at broken ⊢
    rcases broken with first | rest
    · exact .inl first
    · exact .inr (.inl rest)

theorem isWhole_append {since : List UInt8} (whole : isWhole since = true) (some : since ≠ [])
    (byte : UInt8) : isWhole (since ++ [byte]) = decide (byte < 0x7f) := by
  cases since with
  | nil => exact absurd rfl some
  | cons first rest =>
    simp only [isWhole, Bool.and_eq_true] at whole
    simp only [isWhole, List.cons_append, List.all_append, whole.1, whole.2]
    simp

/-- How the scan stands to the parser: it is in the same sequence while that is whole, and has given
it up else. -/
def Follows (since : List UInt8) (scan : ScanState) : VtState → Prop
  | .escape => since = [] ∧ scan = .escape ∨ isWhole since = false ∧ scan = .ground
  | .csiEntry =>
    since ≠ [] ∧ isWhole since = true ∧ scan = .csi 0 true false ∨ isWhole since = false ∧
      scan = .ground
  | .csiParam first inFirst marked =>
    since ≠ [] ∧ isWhole since = true ∧ scan = .csi (min first 65535) inFirst marked ∨
      isWhole since = false ∧ scan = .ground
  | _ => True

section Step

variable {ignores : UInt8 → Bool} {since : List UInt8} {scan : ScanState} {state : VtState}
  {byte : UInt8}
  {first : Nat} {inFirst marked : Bool}

theorem ScanState.next_ground (differs : byte ≠ esc) :
    ScanState.next .ground byte = (.ground, false) := by
  simp [ScanState.next, differs]

theorem ScanState.next_control (differs : byte ≠ esc) (cancels : ¬ (byte = can ∨ byte = sub))
    (low : byte ≤ 0x1f) : ScanState.next (.csi first inFirst marked) byte =
      (.csi first inFirst marked, false) := by
  simp only [ScanState.next, if_neg differs, if_neg cancels, if_pos low]

theorem ScanState.next_high (differs : byte ≠ esc) (cancels : ¬ (byte = can ∨ byte = sub))
    (high : 0x7f ≤ byte) : ScanState.next (.csi first inFirst marked) byte = (.ground, false) := by
  have bound : 127 ≤ byte.toNat := UInt8.le_iff_toNat_le.mp high
  have above {most : UInt8} (below : most < 0x7f) : ¬ byte ≤ most := fun least => by
    have small : most.toNat < 127 := UInt8.lt_iff_toNat_lt.mp below
    have order : byte.toNat ≤ most.toNat := UInt8.le_iff_toNat_le.mp least
    omega
  have other {low : UInt8} (below : low < 0x7f) : byte ≠ low := fun same =>
    above below (same ▸ UInt8.le_refl _)
  have control := above (show (0x1f : UInt8) < 0x7f by decide)
  have digit : ¬ (0x30 ≤ byte ∧ byte ≤ 0x39) := fun both => above (by decide) both.2
  have separator : ¬ (byte = 0x3a ∨ byte = 0x3b) := not_or.mpr ⟨other (by decide), other (by decide)⟩
  have marker : ¬ ((0x20 ≤ byte ∧ byte ≤ 0x2f) ∨ (0x3c ≤ byte ∧ byte ≤ 0x3f)) :=
    not_or.mpr ⟨fun both => above (by decide) both.2, fun both => above (by decide) both.2⟩
  have final : byte ≠ 0x4a := other (by decide)
  simp [ScanState.next, differs, cancels, control, digit, separator, marker, final]

theorem isExecuted_or_high {low : Bool}
    (stays : (isExecuted byte || byte == 0x7f || (decide (byte ≥ 0x80) && low)) = true) :
    byte ≤ 0x1f ∨ 0x7f ≤ byte := by
  simp only [Bool.or_eq_true, Bool.and_eq_true, beq_iff_eq, decide_eq_true_eq] at stays
  rcases stays with (executed | rfl) | ⟨high, _⟩
  · left
    simp only [isExecuted, Bool.and_eq_true, decide_eq_true_eq] at executed
    exact executed.1.1.1
  · exact .inr (by decide)
  · exact .inr (UInt8.le_trans (by decide) high)

private theorem digit_eq (first : Nat) :
    ScanState.digit (min first 65535) byte = min (first * 10 + (byte.toNat - 0x30)) 65535 := by
  unfold ScanState.digit
  omega

private theorem digit_zero (small : byte.toNat ≤ 0x39) :
    ScanState.digit 0 byte = min (byte.toNat - 0x30) 65535 := by
  unfold ScanState.digit
  omega

theorem Follows.of_broken (broken : isWhole since = false) : Follows since .ground state := by
  cases state with
  | escape | csiEntry | csiParam first inFirst marked => exact .inr ⟨broken, rfl⟩
  | _ => trivial

/-- A parameter byte is taken by both. -/
theorem ScanState.next_param (differs : byte ≠ esc) (cancels : ¬ (byte = can ∨ byte = sub))
    (least : 0x30 ≤ byte) (most : byte ≤ 0x3f) :
    ScanState.next (.csi first inFirst marked) byte = (.csi
      (if byte ≤ 0x39 ∧ inFirst = true then ScanState.digit first byte else first)
      (inFirst && !decide (byte = 0x3a ∨ byte = 0x3b)) (marked || decide (0x3c ≤ byte)),
      false) := by
  have least_ : 48 ≤ byte.toNat := UInt8.le_iff_toNat_le.mp least
  have most_ : byte.toNat ≤ 63 := UInt8.le_iff_toNat_le.mp most
  have high : ¬ byte ≤ 0x1f := fun low => by
    have : byte.toNat ≤ 31 := UInt8.le_iff_toNat_le.mp low
    omega
  simp only [ScanState.next, if_neg differs, if_neg cancels, if_neg high]
  by_cases digit : byte ≤ 0x39
  · have bound : byte.toNat ≤ 57 := UInt8.le_iff_toNat_le.mp digit
    have separator : ¬ (byte = 0x3a ∨ byte = 0x3b) := by
      rintro (rfl | rfl) <;> exact absurd bound (by decide)
    have marker : ¬ 0x3c ≤ byte := fun marker => by
      have : 60 ≤ byte.toNat := UInt8.le_iff_toNat_le.mp marker
      omega
    cases inFirst <;> simp [least, digit, separator, marker]
  · have beyond : ¬ (0x30 ≤ byte ∧ byte ≤ 0x39) := fun both => digit both.2
    rw [if_neg beyond]
    by_cases separator : byte = 0x3a ∨ byte = 0x3b
    · have marker : ¬ 0x3c ≤ byte := by
        rcases separator with rfl | rfl <;> decide
      simp [digit, separator, marker]
    · have bound : 58 ≤ byte.toNat := by
        have : ¬ byte.toNat ≤ 57 := fun most => digit (UInt8.le_iff_toNat_le.mpr most)
        omega
      have marker : 0x3c ≤ byte := by
        refine UInt8.le_iff_toNat_le.mpr ?_
        have colon : byte.toNat ≠ 58 := fun same => separator (.inl (UInt8.toNat_inj.mp same))
        have semicolon : byte.toNat ≠ 59 := fun same => separator (.inr (UInt8.toNat_inj.mp same))
        change 60 ≤ byte.toNat
        omega
      simp [digit, separator, marker, most]

private theorem Follows.held (differs : byte ≠ esc) (cancels : ¬ (byte = can ∨ byte = sub))
    (held : byte ≤ 0x1f ∨ 0x7f ≤ byte) (some : since ≠ []) (whole : isWhole since = true) :
    since ++ [byte] ≠ [] ∧ isWhole (since ++ [byte]) = true ∧
        (ScanState.next (.csi first inFirst marked) byte).1 = .csi first inFirst marked ∨
      isWhole (since ++ [byte]) = false ∧ (ScanState.next (.csi first inFirst marked) byte).1 =
        .ground := by
  rw [isWhole_append whole some]
  rcases held with low | high
  · refine .inl ⟨by simp, ?_, by rw [ScanState.next_control differs cancels low]⟩
    exact decide_eq_true (UInt8.lt_of_le_of_lt low (by decide))
  · refine .inr ⟨?_, by rw [ScanState.next_high differs cancels high]⟩
    exact decide_eq_false (UInt8.not_lt.mpr high)

private theorem isWhole_param (some : since ≠ []) (whole : isWhole since = true)
    (most : byte ≤ 0x3f) : since ++ [byte] ≠ [] ∧ isWhole (since ++ [byte]) = true := by
  rw [isWhole_append whole some]
  exact ⟨by simp, decide_eq_true (UInt8.lt_of_le_of_lt most (by decide))⟩

private theorem least_of_not (intermediate : ¬ byte ≤ 0x2f) : 0x30 ≤ byte := by
  have above : ¬ byte.toNat ≤ 47 := fun most => intermediate (UInt8.le_iff_toNat_le.mpr most)
  refine UInt8.le_iff_toNat_le.mpr ?_
  change 48 ≤ byte.toNat
  omega

private theorem ScanState.next_digit (differs : byte ≠ esc) (cancels : ¬ (byte = can ∨ byte = sub))
    (least : 0x30 ≤ byte) (most : byte ≤ 0x39) :
    (ScanState.next (.csi first inFirst marked) byte).1 =
      .csi (if inFirst then ScanState.digit first byte else first) inFirst marked := by
  have bound : byte.toNat ≤ 57 := UInt8.le_iff_toNat_le.mp most
  have separator : ¬ (byte = 0x3a ∨ byte = 0x3b) := by
    rintro (rfl | rfl) <;> exact absurd bound (by decide)
  have marker : ¬ 0x3c ≤ byte := fun marker => by
    have : 60 ≤ byte.toNat := UInt8.le_iff_toNat_le.mp marker
    omega
  rw [ScanState.next_param differs cancels least (UInt8.le_trans most (by decide))]
  simp [most, separator, marker]

private theorem ScanState.next_separator (differs : byte ≠ esc)
    (cancels : ¬ (byte = can ∨ byte = sub)) (digit : ¬ byte ≤ 0x39) (most : byte ≤ 0x3b) :
    (ScanState.next (.csi first inFirst marked) byte).1 = .csi first false marked := by
  have beyond : ¬ byte.toNat ≤ 57 := fun least => digit (UInt8.le_iff_toNat_le.mpr least)
  have bound : byte.toNat ≤ 59 := UInt8.le_iff_toNat_le.mp most
  have separator : byte = 0x3a ∨ byte = 0x3b := by
    have either : byte.toNat = 58 ∨ byte.toNat = 59 := by omega
    exact either.imp UInt8.toNat_inj.mp UInt8.toNat_inj.mp
  have least : 0x30 ≤ byte := UInt8.le_iff_toNat_le.mpr (by change 48 ≤ byte.toNat; omega)
  have marker : ¬ 0x3c ≤ byte := by
    rcases separator with rfl | rfl <;> decide
  rw [ScanState.next_param differs cancels least (UInt8.le_trans most (by decide))]
  simp [digit, separator, marker]

private theorem ScanState.next_marker (differs : byte ≠ esc) (cancels : ¬ (byte = can ∨ byte = sub))
    (separator : ¬ byte ≤ 0x3b) (most : byte ≤ 0x3f) :
    (ScanState.next (.csi first inFirst marked) byte).1 = .csi first inFirst true := by
  have beyond : ¬ byte.toNat ≤ 59 := fun least => separator (UInt8.le_iff_toNat_le.mpr least)
  have other : ¬ (byte = 0x3a ∨ byte = 0x3b) := by
    rintro (rfl | rfl) <;> exact absurd (by decide) beyond
  have digit : ¬ byte ≤ 0x39 := fun least =>
    beyond (Nat.le_trans (UInt8.le_iff_toNat_le.mp least) (by decide))
  have marker : 0x3c ≤ byte := UInt8.le_iff_toNat_le.mpr (by change 60 ≤ byte.toNat; omega)
  have least : 0x30 ≤ byte := UInt8.le_trans (by decide) marker
  rw [ScanState.next_param differs cancels least most]
  simp [digit, other, marker]

theorem Follows.next (differs : byte ≠ esc) (follows : Follows since scan state) :
    Follows (since ++ [byte]) (scan.next byte).1 (state.next ignores byte).1 := by
  cases state with
  | ground | string | escapeIntermediate | csiIntermediate | csiIgnore =>
    simp only [VtState.next, if_neg differs]
    split_ifs <;> trivial
  | escape =>
    rcases follows with ⟨rfl, rfl⟩ | ⟨broken, rfl⟩
    · simp only [VtState.next, if_neg differs]
      split_ifs with cancels stays high intermediate bracket string
      · trivial
      · have opens : byte ≠ 0x5b := by
          rintro rfl
          simp [isExecuted] at stays
        refine .inr ⟨?_, ?_⟩
        · simp [isWhole, opens]
        · simp [ScanState.next, differs, cancels, opens]
      · trivial
      · trivial
      · refine .inl ⟨nofun, ?_, ?_⟩
        · simp [isWhole, bracket]
        · simp only [ScanState.next, if_neg differs, if_neg cancels, if_pos bracket]
      · trivial
      · trivial
    · rw [ScanState.next_ground differs]
      exact of_broken (isWhole_append_of_broken broken byte)
  | csiEntry =>
    rcases follows with ⟨some, whole, rfl⟩ | ⟨broken, rfl⟩
    · simp only [VtState.next, if_neg differs]
      split_ifs with cancels stays high intermediate digit separator marker
      · trivial
      · exact held differs cancels (isExecuted_or_high stays) some whole
      · trivial
      · trivial
      · have least := least_of_not intermediate
        obtain ⟨more, keeps⟩ := isWhole_param some whole (UInt8.le_trans digit (by decide))
        refine .inl ⟨more, keeps, ?_⟩
        rw [ScanState.next_digit differs cancels least digit]
        exact congrArg (ScanState.csi · true false) (digit_zero (UInt8.le_iff_toNat_le.mp digit))
      · obtain ⟨more, keeps⟩ := isWhole_param some whole (UInt8.le_trans separator (by decide))
        exact .inl ⟨more, keeps, ScanState.next_separator differs cancels digit separator⟩
      · obtain ⟨more, keeps⟩ := isWhole_param some whole marker
        exact .inl ⟨more, keeps, ScanState.next_marker differs cancels separator marker⟩
      · trivial
    · rw [ScanState.next_ground differs]
      exact of_broken (isWhole_append_of_broken broken byte)
  | csiParam first inFirst marked =>
    rcases follows with ⟨some, whole, rfl⟩ | ⟨broken, rfl⟩
    · simp only [VtState.next, if_neg differs]
      split_ifs with cancels stays high intermediate digit begins separator marker
      · trivial
      · exact held differs cancels (isExecuted_or_high stays) some whole
      · trivial
      · trivial
      · have least := least_of_not intermediate
        obtain ⟨more, keeps⟩ := isWhole_param some whole (UInt8.le_trans digit (by decide))
        refine .inl ⟨more, keeps, ?_⟩
        rw [ScanState.next_digit differs cancels least digit, begins]
        exact congrArg (ScanState.csi · true marked) (digit_eq first)
      · have least := least_of_not intermediate
        obtain ⟨more, keeps⟩ := isWhole_param some whole (UInt8.le_trans digit (by decide))
        refine .inl ⟨more, keeps, ?_⟩
        rw [ScanState.next_digit differs cancels least digit, if_neg begins,
          eq_false_of_ne_true begins]
      · obtain ⟨more, keeps⟩ := isWhole_param some whole (UInt8.le_trans separator (by decide))
        exact .inl ⟨more, keeps, ScanState.next_separator differs cancels digit separator⟩
      · trivial
      · trivial
    · rw [ScanState.next_ground differs]
      exact of_broken (isWhole_append_of_broken broken byte)

/-- Where the parser dispatches a clear, the scan reports one exactly if the sequence is whole. -/
theorem Follows.clears (follows : Follows since scan state)
    (clears : (state.next ignores byte).2 = true) : (scan.next byte).2 = isWhole since := by
  have differs : byte ≠ esc := by
    rintro rfl
    cases state <;> cases clears
  have cancels : ¬ (byte = can ∨ byte = sub) := by
    rintro (rfl | rfl) <;> cases state <;> cases clears
  cases state with
  | ground => simp [VtState.next, differs, cancels] at clears
  | string | escapeIntermediate | csiIntermediate | csiIgnore | csiEntry =>
    simp only [VtState.next, if_neg differs, if_neg cancels] at clears
    split_ifs at clears
  | escape =>
    simp only [VtState.next, if_neg differs, if_neg cancels] at clears
    split_ifs at clears
    obtain rfl := eq_of_beq clears
    rcases follows with ⟨rfl, rfl⟩ | ⟨broken, rfl⟩
    · rfl
    · rw [broken]
      rfl
  | csiParam first inFirst marked =>
    simp only [VtState.next, if_neg differs, if_neg cancels] at clears
    split_ifs at clears
    simp only [Bool.and_eq_true, beq_iff_eq, Bool.not_eq_true'] at clears
    obtain ⟨⟨rfl, rfl⟩, rfl⟩ := clears
    rcases follows with ⟨_, whole, rfl⟩ | ⟨broken, rfl⟩
    · rw [whole]
      rfl
    · rw [broken]
      rfl

end Step

section Feed

variable {State : Type} {next : State → UInt8 → State × Bool} {state : State}

theorem feed_append (front back : List UInt8) :
    (feed next state (front ++ back)).1 = (feed next (feed next state front).1 back).1 := by
  induction front generalizing state with
  | nil => rfl
  | cons byte rest ih => exact ih

/-- A clear is completed by one of the bytes. -/
theorem feed_clears {bytes : List UInt8} : (feed next state bytes).2 = true ↔
    ∃ front byte back, bytes = front ++ byte :: back ∧ (next (feed next state front).1 byte).2 =
      true := by
  induction bytes generalizing state with
  | nil => simp [feed]
  | cons byte rest ih =>
    change ((next state byte).2 || (feed next (next state byte).1 rest).2) = true ↔ _
    rw [Bool.or_eq_true, ih]
    constructor
    · rintro (here | ⟨front, later, back, rfl, clears⟩)
      · exact ⟨[], byte, rest, rfl, here⟩
      · exact ⟨byte :: front, later, back, rfl, clears⟩
    · rintro ⟨front, later, back, same, clears⟩
      cases front with
      | nil =>
        obtain ⟨rfl, rfl⟩ := List.cons.inj same
        exact .inl clears
      | cons first front =>
        obtain ⟨rfl, rfl⟩ := List.cons.inj same
        exact .inr ⟨front, later, back, rfl, clears⟩

end Feed

section Run

variable {ignores : UInt8 → Bool}

theorem follows (front : List UInt8) :
    Follows (sinceEscape front) (feed ScanState.next .ground front).1
      (feed (VtState.next ignores) .ground front).1 := by
  induction front using List.reverseRecOn with
  | nil => trivial
  | append_singleton front byte ih =>
    rw [feed_append, feed_append, sinceEscape_append]
    change Follows _ (ScanState.next _ byte).1 (VtState.next ignores _ byte).1
    by_cases same : byte = esc
    · simp only [ScanState.next, VtState.next, if_pos same]
      exact .inl ⟨rfl, rfl⟩
    · rw [if_neg same]
      exact ih.next same

/-- Does the parser, having read these bytes, dispatch a clear on the next one? -/
def dispatches (ignores : UInt8 → Bool) (front : List UInt8) (final : UInt8) : Bool :=
  ((feed (VtState.next ignores) .ground front).1.next ignores final).2

theorem dispatches_reported {front : List UInt8} {final : UInt8}
    (dispatched : dispatches ignores front final = true) :
    ((feed ScanState.next .ground front).1.next final).2 = isWhole (sinceEscape front) :=
  (follows front).clears dispatched

/-- Does the scan report a clear for every chunk in which the parser dispatches one? -/
def Reports (ignores : UInt8 → Bool) (chunks : List (List UInt8)) : Prop :=
  List.Forall₂ (fun dispatched reported => dispatched = true → reported = true)
    (feeds (VtState.next ignores) .ground chunks) (feeds ScanState.next .ground chunks)

private theorem reports_from {stream front : List UInt8} {chunks : List (List UInt8)}
    (split : front ++ chunks.flatten = stream)
    (whole : ∀ before final, before ++ [final] <+: stream → dispatches ignores before final = true →
      isWhole (sinceEscape before) = true) :
    List.Forall₂ (fun dispatched reported => dispatched = true → reported = true)
      (feeds (VtState.next ignores) (feed (VtState.next ignores) .ground front).1 chunks)
      (feeds ScanState.next (feed ScanState.next .ground front).1 chunks) := by
  induction chunks generalizing front with
  | nil => exact .nil
  | cons chunk rest ih =>
    refine .cons (fun dispatched => ?_) ?_
    · obtain ⟨before, final, back, rfl, clears⟩ := feed_clears.mp dispatched
      refine feed_clears.mpr ⟨before, final, back, rfl, ?_⟩
      rw [← feed_append] at clears ⊢
      rw [dispatches_reported clears]
      refine whole _ _ ⟨back ++ rest.flatten, ?_⟩ clears
      rw [← split]
      simp
    · rw [← feed_append, ← feed_append]
      exact ih (by rw [← split]; simp)

/-- For every split of a stream the scan reports each clear, exactly if every sequence that the
parser dispatches as one is whole: it ignored nothing within an escape, and no DEL within a control
sequence. -/
theorem reports_iff_whole (ignores : UInt8 → Bool) (stream : List UInt8) :
    (∀ chunks, chunks.flatten = stream → Reports ignores chunks) ↔
      ∀ front final, front ++ [final] <+: stream → dispatches ignores front final = true →
        isWhole (sinceEscape front) = true := by
  constructor
  · rintro reports front final ⟨back, rfl⟩ dispatched
    have split : [front, [final], back].flatten = front ++ [final] ++ back := by simp
    obtain _ | ⟨_, _ | ⟨here, _⟩⟩ := reports _ split
    rw [← dispatches_reported dispatched]
    have reported := here (by
      change (_ || false) = true
      rw [Bool.or_false]
      exact dispatched)
    change (_ || false) = true at reported
    rwa [Bool.or_false] at reported
  · rintro whole chunks split
    exact @reports_from ignores stream [] chunks split whole

/-- A line feed between ESC and `c` is executed, and RIS dispatched; the scan has given the escape
up. -/
theorem reports_not_broken : ¬ ∀ ignores stream chunks, chunks.flatten = stream →
Reports ignores chunks := by
  intro claimed
  obtain _ | ⟨here, _⟩ := claimed (fun _ => true) [esc, 0x0a, 0x63] [[esc, 0x0a, 0x63]] rfl
  exact absurd (here (by decide)) (by decide)

end Run

end ForgeNode.Terminal.HistoryClear
