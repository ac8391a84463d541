import DialectBridge.Text.Scan

/-!
# Named edits

An edit changes a text at some number of places and can be named in a report. Edits either treat
every line on its own, or look at neighbouring lines, or scan the text without regard to lines.
-/

set_option autoImplicit false

namespace DialectBridge

/-- A named change of a text. -/
structure Edit where
  name : String
  /-- The text after the change. -/
  apply : Text → Text
  /-- At how many places the text is changed. -/
  hits : Text → Nat

/-- A line after an edit, and whether the edit changed something there. -/
structure EditedLine where
  line : Text
  changed : Bool
  deriving DecidableEq, Repr

namespace EditedLine

/-- A line that stays as it is. -/
def keep (line : Text) : EditedLine := ⟨line, false⟩

/-- A line that becomes another one, if there is another one. -/
def become (line : Text) : Option Text → EditedLine
  | none => ⟨line, false⟩
  | some new => ⟨new, true⟩

end EditedLine

namespace Edit

/-- An edit that rearranges the lines of a text. -/
def onLines (name : String) (edit : List Text → List EditedLine) : Edit where
  name
  apply t := Text.joinLines ((edit (Text.lines t)).map (·.line))
  hits t := (edit (Text.lines t)).countP (·.changed)

/-- An edit that treats every line on its own. -/
def onEachLine (name : String) (edit : Text → Option Text) : Edit :=
  onLines name fun lines => lines.map fun line => .become line (edit line)

/-- An edit that replaces from left to right. -/
def scanning (name : String) (rule : ReplacementRule) : Edit where
  name
  apply := Text.scan rule
  hits := Text.scanHits rule

/-- Several edits one after the other. -/
def applyAll (edits : List Edit) (t : Text) : Text := edits.foldl (fun t e => e.apply t) t

/-- One remark per change, in the order in which the changes happen. -/
def remarks (uri : String) : List Edit → Text → List String
  | [], _ => []
  | e :: more, t => List.replicate (e.hits t) (e.name ++ " " ++ uri) ++ remarks uri more (e.apply t)

end Edit

end DialectBridge
