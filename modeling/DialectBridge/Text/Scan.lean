import DialectBridge.Text.Basic

/-!
# Replacing from left to right

A replacement rule looks at the text from one place on, and at the character in front of that
place, and either declines or names how many characters it takes and what stands for them. Scanning
offers every place to the rule from left to right; the characters taken by one replacement are not
offered again, so replacements never overlap. The recursion is on the text: the characters still
covered by the last replacement are a counter beside it.
-/

set_option autoImplicit false

namespace DialectBridge

/-- A replacement found at some place. -/
structure Replacement where
  /-- How many characters it takes. -/
  length : Nat
  /-- What stands in their place. -/
  output : Text
  deriving DecidableEq

/-- A rule for replacements: the character in front of the place (`none` at the beginning) and the
text from the place on decide. -/
abbrev ReplacementRule := Option Char → Text → Option Replacement

namespace Text

/-- Replaces from left to right; the first `covered` characters belong to an earlier
replacement. -/
def scanFrom (rule : ReplacementRule) (before : Option Char) (covered : Nat) : Text → Text
  | [] => []
  | c :: rest =>
    match covered with
    | k + 1 => scanFrom rule (some c) k rest
    | 0 =>
      match rule before (c :: rest) with
      | some r => r.output ++ scanFrom rule (some c) (r.length - 1) rest
      | none => c :: scanFrom rule (some c) 0 rest

/-- How many replacements `scanFrom` makes. -/
def hitsFrom (rule : ReplacementRule) (before : Option Char) (covered : Nat) : Text → Nat
  | [] => 0
  | c :: rest =>
    match covered with
    | k + 1 => hitsFrom rule (some c) k rest
    | 0 =>
      match rule before (c :: rest) with
      | some r => hitsFrom rule (some c) (r.length - 1) rest + 1
      | none => hitsFrom rule (some c) 0 rest

/-- All replacements of a rule in a text. -/
def scan (rule : ReplacementRule) (t : Text) : Text := scanFrom rule none 0 t

/-- The number of replacements of a rule in a text. -/
def scanHits (rule : ReplacementRule) (t : Text) : Nat := hitsFrom rule none 0 t

/-- The rule that puts one fixed text for another wherever it stands. -/
def literally (old new : Text) : ReplacementRule := fun _ t =>
  if startsWith old t then some ⟨old.length, new⟩ else none

/-- Every occurrence of `old` becomes `new`, from left to right. -/
def replaceAll (old new : Text) (t : Text) : Text := scan (literally old new) t

end Text

end DialectBridge
