import DialectBridge.Text.Basic

/-!
# Places in a line

A place of a text cuts it into what stands before and what follows. Many rules look for the first
or the last place at which the two parts satisfy a condition.
-/

set_option autoImplicit false

namespace DialectBridge

namespace Text

/-- A place: the text before it and the text from it on. -/
abbrev Place := Text × Text

/-- The place after `n` characters. -/
def placeAt (t : Text) (n : Nat) : Place := (t.take n, t.drop n)

/-- The first place whose two sides satisfy the condition. -/
def firstPlace? (condition : Text → Text → Bool) (t : Text) : Option Place :=
  ((List.range (t.length + 1)).find? fun n => condition (t.take n) (t.drop n)).map (placeAt t)

/-- The last place whose two sides satisfy the condition. -/
def lastPlace? (condition : Text → Text → Bool) (t : Text) : Option Place :=
  ((List.range (t.length + 1)).reverse.find? fun n => condition (t.take n) (t.drop n)).map
    (placeAt t)

/-- The two sides of a place make up the text. -/
theorem placeAt_append (t : Text) (n : Nat) : (placeAt t n).1 ++ (placeAt t n).2 = t :=
  List.take_append_drop n t

/-- A first place is a place of the text, and it satisfies the condition. -/
theorem firstPlace?_sound {condition : Text → Text → Bool} {t : Text} {place : Place}
    (h : firstPlace? condition t = some place) :
    place.1 ++ place.2 = t ∧ condition place.1 place.2 = true := by
  obtain ⟨n, found, rfl⟩ := Option.map_eq_some_iff.1 h
  have held := List.find?_some found
  exact ⟨placeAt_append t n, held⟩

/-- A last place is a place of the text, and it satisfies the condition. -/
theorem lastPlace?_sound {condition : Text → Text → Bool} {t : Text} {place : Place}
    (h : lastPlace? condition t = some place) :
    place.1 ++ place.2 = t ∧ condition place.1 place.2 = true := by
  obtain ⟨n, found, rfl⟩ := Option.map_eq_some_iff.1 h
  have held := List.find?_some found
  exact ⟨placeAt_append t n, held⟩

end Text

end DialectBridge
