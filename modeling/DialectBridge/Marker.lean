import DialectBridge.Text.Scan

/-!
# Markers

Preparation and recovery write markers into unfinished source so that the dialect compiler accepts
it and keeps a place for what is missing. Each marker leaves a residue in compiled text; cleaning
replaces every residue from left to right, either by nothing or by text of the same length, so that
the columns behind it stay where they are.
-/

set_option autoImplicit false

namespace DialectBridge

/-- The texts in which a marker may stand. -/
inductive Stage where
  /-- Prepared source text. -/
  | prepared
  /-- Source text with its erroneous line substituted. -/
  | substituted
  /-- What the compiler returned. -/
  | compiled
  /-- Text handed to the language service. -/
  | final
  deriving DecidableEq, Repr

/-- The markers that stand for missing code. -/
inductive Marker where
  /-- Stands for an erroneous line while a substitute is sought. -/
  | placeholder
  /-- Keeps a place for a new property of an object. -/
  | newProperty
  /-- Keeps an indented empty line, which the compiler would drop. -/
  | emptyLine
  /-- Stands for a receiver without a member. -/
  | receiver
  deriving DecidableEq, Repr

namespace Marker

/-- All markers, in the order in which they are reported. -/
def all : List Marker := [.placeholder, .newProperty, .emptyLine, .receiver]

/-- The name of a marker in messages. -/
def name : Marker → String
  | .placeholder => "fake-line placeholder"
  | .newProperty => "new property"
  | .emptyLine => "empty line"
  | .receiver => "receiver"

/-- The text that is written into the source. -/
def text : Marker → Text
  | .placeholder => ['ᛝ']
  | .newProperty => ['↯']
  | .emptyLine => ['ᛟ', ':', 'ᛟ']
  | .receiver => "this.__coffeemapAtSign".toList

/-- An expression with the value of the receiver, which takes the place of its marker. -/
def receiverValue : Text := "(this.valueOf(),this)".toList

/-- Whether a marker may stand in the texts of a stage. -/
def allowedIn : Marker → Stage → Bool
  | .placeholder, .prepared => false
  | _, .final => false
  | _, _ => true

/-- The length of one, if the text begins with the character. -/
def optionally (c : Char) (t : Text) : Nat := if t.head? = some c then 1 else 0

/-- The length of the residue with which a text begins, if it begins with one. -/
def residue? (m : Marker) (t : Text) : Option Nat :=
  match m, t with
  | .placeholder, 'ᛝ' :: _ => some 1
  | .newProperty, '↯' :: ':' :: ' ' :: _ => some 3
  | .newProperty, '↯' :: _ => some 1
  | .emptyLine, 'ᛟ' :: ':' :: ' ' :: 'ᛟ' :: rest => some (4 + optionally ',' rest)
  | .emptyLine, 'ᛟ' :: ':' :: 'ᛟ' :: rest => some (3 + optionally ',' rest)
  | .receiver, t =>
    if Text.startsWith Marker.receiver.text t then some Marker.receiver.text.length else none
  | _, _ => none

/-- What stands in the place of a residue of the given length. -/
def fill (m : Marker) (length : Nat) : Text :=
  match m with
  | .placeholder | .emptyLine => []
  | .newProperty => Text.padRight length []
  | .receiver => Text.padRight length receiverValue

/-- The rule that replaces residues. -/
def cleaning (m : Marker) : ReplacementRule := fun _ t =>
  (m.residue? t).map fun length => ⟨length, m.fill length⟩

/-- The text with every residue of the marker replaced. -/
def clean (m : Marker) (t : Text) : Text := Text.scan m.cleaning t

/-- Whether a residue of the marker stands anywhere in the text. -/
def foundIn (m : Marker) : Text → Bool
  | [] => false
  | c :: rest => (m.residue? (c :: rest)).isSome || foundIn m rest

/-- The markers that stand in a text of a stage which does not allow them. -/
def violations (t : Text) (stage : Stage) : List Marker :=
  all.filter fun m => !m.allowedIn stage && m.foundIn t

end Marker

end DialectBridge
