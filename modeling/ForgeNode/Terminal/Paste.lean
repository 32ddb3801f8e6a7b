import ForgeNode.Lib.Erasing
import ForgeNode.Lib.Utf8
import Mathlib.Data.List.Infix

/-! Bracketed paste: what a pasted text becomes on its way to the program. -/

namespace ForgeNode.Terminal.Input

open Utf8 (Str)
open Erasing

/-- What `paste` reads of the terminal's modes. -/
structure TermModes where
  bracketedPaste : Bool
  deriving DecidableEq

/-- `ESC[200~`. -/
def opening : List UInt8 := [0x1b, 0x5b, 0x32, 0x30, 0x30, 0x7e]

/-- `ESC[201~`. -/
def closing : List UInt8 := [0x1b, 0x5b, 0x32, 0x30, 0x31, 0x7e]

/-- Wrap bracketed paste and remove embedded terminators, including nested ones. Without bracketed
mode, send the text verbatim. -/
def paste (text : Str) (modes : TermModes) : List UInt8 :=
  if modes.bracketedPaste then text.bytes.foldl (push closing) opening ++ closing else text.bytes

theorem closing_unbordered : Unbordered closing where
  some := List.cons_ne_nil _ _
  border := by
    have all : ∀ part ∈ closing.inits, part <:+ closing → part = [] ∨ part = closing := by decide
    exact fun part starts => all part ((List.mem_inits part closing).mpr starts)

theorem opening_clear : Clear closing opening := by
  have all : ∀ part ∈ closing.inits, part <:+ opening → part = [] := by decide
  exact fun part ends starts => all part ((List.mem_inits part closing).mpr starts) ends

theorem opening_clean : ¬closing <:+: opening := by decide

/-- A bracketed paste is its body between the two markers, and the body holds no terminator, however
the text nests them: it is what is left of the text when they are removed in any order. -/
theorem paste_bracketed (text : Str) (modes : TermModes) (bracketed : modes.bracketedPaste = true) :
    ∃ body, paste text modes = opening ++ body ++ closing ∧
      (∀ front back, paste text modes = front ++ closing ++ back → back = []) ∧
      (¬closing <:+: text.bytes → body = text.bytes) ∧
      Relation.ReflTransGen (Erases closing) text.bytes body ∧
      ∀ left, Relation.ReflTransGen (Erases closing) text.bytes left → ¬closing <:+: left →
      left = body := by
  have split : text.bytes.foldl (push closing) opening = opening ++ text.bytes.foldl (push closing)
      [] :=
    foldl_clear opening_clear text.bytes
  have whole : paste text modes = text.bytes.foldl (push closing) opening ++ closing := by
    rw [paste, if_pos bracketed]
  refine ⟨text.bytes.foldl (push closing) [], ?_, ?_, ?_, ?_, ?_⟩
  · rw [whole, split]
  · intro front back same
    rw [whole] at same
    exact last_only closing_unbordered (foldl_clean closing_unbordered opening_clean _) same
  · intro free
    exact foldl_free free
  · exact (erases_foldl text.bytes : Relation.ReflTransGen (Erases closing) ([] ++ text.bytes) _)
  · intro left erased free
    exact (erased_eq closing_unbordered erased free).symm

/-- A terminator inside a terminator goes with it. -/
theorem paste_bracketed_nested :
    let text : Str := .ofChars ['a', '\x1b', '[', '2', '0', '\x1b', '[', '2', '0', '1', '~',
      '1', '~', 'b']
    ∃ body, paste text ⟨true⟩ = opening ++ body ++ closing ∧ body = [0x61, 0x62] := by
  intro text
  obtain ⟨body, whole, _⟩ := paste_bracketed text ⟨true⟩ rfl
  have sent : paste text ⟨true⟩ = opening ++ [0x61, 0x62] ++ closing := by decide
  rw [sent] at whole
  exact ⟨body, sent.trans whole, (List.append_cancel_left (List.append_cancel_right whole)).symm⟩

end ForgeNode.Terminal.Input
