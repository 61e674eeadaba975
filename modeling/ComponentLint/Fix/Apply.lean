import ComponentLint.Fix.Basic

/-!
# Applying fixes

Fixes are taken in the order of their spans. A fix that touches or overlaps the one made before it is left for a later
pass. The text is written in one go: what lies between two edits is copied when the second one is made.
-/

namespace ComponentLint

open Text

/-- A text after a pass of fixes. -/
structure FixedText where
  output : List Char
  /-- The number of fixes made. -/
  applied : Nat
  /-- The number of fixes left for a later pass. -/
  remaining : Nat
  deriving DecidableEq, Repr

/-- A pass under way. -/
structure FixPass where
  /-- The text written so far. -/
  output : List Char
  /-- The offset up to which the source has been copied or replaced. -/
  cursor : Nat
  /-- Where the fix made last ends. -/
  last : Option Nat
  applied : Nat
  remaining : Nat
  deriving DecidableEq, Repr

namespace FixPass

/-- The pass before its first fix. -/
def start : FixPass :=
  ⟨[], 0, none, 0, 0⟩

/-- Copies the source up to an edit and makes it. -/
def edit (source : List Char) (pass : FixPass) (edit : Edit) : FixPass :=
  { pass with
    output := pass.output ++ slice source ⟨pass.cursor, edit.span.start⟩ ++ edit.replacement.toList
    cursor := edit.span.stop }

/-- Whether a fix can be made: it lies in the text and starts after the end of the one made last. -/
def admits (length : Nat) (pass : FixPass) (fix : Fix) : Bool :=
  fix.span.stop ≤ length && pass.last.all (· < fix.span.start)

/-- Makes a fix, or leaves it for a later pass. -/
def take (source : List Char) (pass : FixPass) (fix : Fix) : FixPass :=
  if pass.admits (byteLength source) fix then
    { fix.edits.foldl (edit source) pass with last := some fix.span.stop, applied := pass.applied + 1 }
  else { pass with remaining := pass.remaining + 1 }

/-- The text of a pass, with the rest of the source copied. -/
def finish (source : List Char) (pass : FixPass) : FixedText :=
  ⟨pass.output ++ slice source ⟨pass.cursor, byteLength source⟩, pass.applied, pass.remaining⟩

end FixPass

namespace Fix

/-- The fixes in the order of their spans; fixes of one span keep their order. -/
def sorted (fixes : List Fix) : List Fix :=
  fixes.mergeSort fun a b => a.span.le b.span

/-- Makes as many of the fixes as one pass can. -/
def applyAll (source : List Char) (fixes : List Fix) : FixedText :=
  ((sorted fixes).foldl (FixPass.take source) .start).finish source

end Fix

/-- Whether a pass made a fix. -/
def FixedText.changed (fixed : FixedText) : Bool :=
  0 < fixed.applied

end ComponentLint
