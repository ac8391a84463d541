/-!
# Search by halving

`Bisection.place` looks for the place at which a value would go in a list, behind all entries that
are not greater. It halves the range of candidates at every step and so looks only at a few entries;
in a list that is in ascending order the place is the number of entries that are not greater than
the value.
-/

set_option autoImplicit false

namespace DialectBridge

namespace Bisection

/-- The place of a value between two places of a list. -/
def placeBetween (entries : List Int) (value : Int) (low high : Nat) : Nat :=
  if low < high then
    let middle := (low + high) / 2
    if value < entries.getD middle 0 then placeBetween entries value low middle
    else placeBetween entries value (middle + 1) high
  else low
termination_by high - low

/-- The place of a value in a list. -/
def place (entries : List Int) (value : Int) : Nat := placeBetween entries value 0 entries.length

/-- In a list that is in ascending order, every entry before the place is not greater than the value
and every entry from there on is greater. -/
theorem placeBetween_separates {entries : List Int} (sorted : entries.Pairwise (· ≤ ·))
    (value : Int) (low high : Nat) (inside : high ≤ entries.length) (ordered : low ≤ high)
    (before : ∀ i (h : i < entries.length), i < low → entries[i] ≤ value)
    (behind : ∀ i (h : i < entries.length), high ≤ i → value < entries[i]) :
    placeBetween entries value low high ≤ entries.length ∧
      (∀ i (h : i < entries.length),
        i < placeBetween entries value low high → entries[i] ≤ value) ∧
      (∀ i (h : i < entries.length),
        placeBetween entries value low high ≤ i → value < entries[i]) := by
  have rising : ∀ i j (hi : i < entries.length) (hj : j < entries.length), i ≤ j →
      entries[i] ≤ entries[j] := by
    intro i j hi hj le
    rcases Nat.lt_or_eq_of_le le with lt | rfl
    · exact List.pairwise_iff_getElem.1 sorted i j hi hj lt
    · exact Int.le_refl _
  fun_induction placeBetween entries value low high with
  | case1 low high open_ middle greater ih =>
    have bound : middle < entries.length := by omega
    have entry : entries.getD middle 0 = entries[middle] := (List.getElem_eq_getD 0).symm
    rw [entry] at greater
    refine ih (by omega) (by omega) before fun i h le => ?_
    exact Int.lt_of_lt_of_le greater (rising middle i bound h le)
  | case2 low high open_ middle notGreater ih =>
    have bound : middle < entries.length := by omega
    have entry : entries.getD middle 0 = entries[middle] := (List.getElem_eq_getD 0).symm
    rw [entry] at notGreater
    refine ih inside (by omega) (fun i h lt => ?_) behind
    exact Int.le_trans (rising i middle h bound (by omega)) (Int.not_lt.1 notGreater)
  | case3 low high closed =>
    have same : low = high := by omega
    exact ⟨by omega, before, fun i h le => behind i h (by omega)⟩

/-- A list that is divided by a condition at a place has as many entries that satisfy it. -/
theorem countP_eq_of_divided {entries : List Int} {value : Int} {place : Nat}
    (inside : place ≤ entries.length)
    (before : ∀ i (h : i < entries.length), i < place → entries[i] ≤ value)
    (behind : ∀ i (h : i < entries.length), place ≤ i → value < entries[i]) :
    entries.countP (fun entry => decide (entry ≤ value)) = place := by
  induction entries generalizing place with
  | nil =>
    have : place = 0 := by simpa using inside
    simp [this]
  | cons entry rest ih =>
    cases place with
    | zero =>
      have greater : value < entry := behind 0 (by simp) (Nat.zero_le _)
      have none_ : rest.countP (fun entry => decide (entry ≤ value)) = 0 :=
        ih (Nat.zero_le _) (fun i h lt => absurd lt (Nat.not_lt_zero _))
          fun i h le => behind (i + 1) (by simpa using h) (Nat.zero_le _)
      simp [none_, Int.not_le.2 greater]
    | succ place =>
      have small : entry ≤ value := before 0 (by simp) (Nat.succ_pos _)
      have others : rest.countP (fun entry => decide (entry ≤ value)) = place :=
        ih (by simpa using inside)
          (fun i h lt => before (i + 1) (by simpa using h) (Nat.succ_lt_succ lt))
          fun i h le => behind (i + 1) (by simpa using h) (Nat.succ_le_succ le)
      simp [others, small]

/-- In a list that is in ascending order, the place of a value is the number of entries that are not
greater. -/
theorem place_eq_countP {entries : List Int} (sorted : entries.Pairwise (· ≤ ·)) (value : Int) :
    place entries value = entries.countP (fun entry => decide (entry ≤ value)) := by
  obtain ⟨inside, before, behind⟩ :=
    placeBetween_separates sorted value 0 entries.length (Nat.le_refl _) (Nat.zero_le _)
      (fun i _ lt => absurd lt (Nat.not_lt_zero i)) (fun i h le => absurd h (Nat.not_lt.2 le))
  exact (countP_eq_of_divided inside before behind).symm

end Bisection

end DialectBridge
