import DialectBridge.ColumnMap
import DialectBridge.Diagnostic

/-!
# What a source becomes

The outcome of preparing, compiling and cleaning a source: generated text, its column map, the
diagnostics of the source as it was typed, and the line that had to be faked, if any. A `Draft` is
any combination of these; a `Generated` is one that makes sense: without generated text there are
diagnostics, and a fake line comes with a map and with the way it was faked.
-/

set_option autoImplicit false

namespace DialectBridge

/-- How an erroneous line was brought to compile. -/
inductive Mechanism where
  /-- An offending end was cut off the line and put back into the generated line. -/
  | modifiedSource
  /-- The line was replaced by a placeholder, and a sketch of it was put into the generated
  text. -/
  | sourceInOutput
  deriving DecidableEq, Repr

namespace Mechanism

/-- The name of a mechanism. -/
def name : Mechanism → String
  | .modifiedSource => "modified_source"
  | .sourceInOutput => "source_in_output"

/-- The mechanism with a name. -/
def ofName (name : String) : Except Fault Mechanism :=
  if name = Mechanism.modifiedSource.name then .ok .modifiedSource
  else if name = Mechanism.sourceInOutput.name then .ok .sourceInOutput
  else .error (.unknownMechanism name)

end Mechanism

/-- The parts of an outcome, in any combination. -/
structure Draft where
  /-- The generated text. -/
  js : Option Text := none
  map : Option ColumnMap := none
  /-- Diagnostics of the source as it was typed. -/
  diagnostics : Option (List Diagnostic) := none
  /-- The source line that was faked. -/
  fakeLine : Option Int := none
  mechanism : Option Mechanism := none
  deriving DecidableEq, Repr

namespace Draft

/-- There are diagnostics. -/
def hasDiagnostics (d : Draft) : Bool := d.diagnostics.any (!·.isEmpty)

/-- What keeps a draft from being an outcome, the first objection if there are several. -/
def objection? (d : Draft) : Option Fault :=
  if d.js.isNone && !d.hasDiagnostics then some .emptyResult
  else if d.fakeLine.isSome && d.map.isNone then some .fakeLineWithoutMap
  else if d.fakeLine.isSome && d.mechanism.isNone then some .fakeLineWithoutMechanism
  else none

end Draft

/-- A draft without objections. -/
structure Generated extends Draft where
  sound : toDraft.objection? = none

namespace Generated

instance : DecidableEq Generated := fun a b =>
  if h : a.toDraft = b.toDraft then
    .isTrue (by cases a; cases b; cases h; rfl)
  else .isFalse fun e => h (congrArg Generated.toDraft e)

end Generated

/-- The outcome with the parts of a draft, or the objection to it. -/
def Draft.check (d : Draft) : Except Fault Generated :=
  match h : d.objection? with
  | none => .ok ⟨d, h⟩
  | some fault => .error fault

namespace Generated

/-- Generated text that comes with a map. -/
def hasMap (g : Generated) : Bool := g.js.isSome && g.map.isSome

/-- The outcome with some of its parts changed. -/
def update (g : Generated) (change : Draft → Draft) : Except Fault Generated :=
  (change g.toDraft).check

end Generated

end DialectBridge
