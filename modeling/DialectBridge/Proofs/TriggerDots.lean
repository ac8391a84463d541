import DialectBridge.Proofs.Addressing
import DialectBridge.Proofs.Completions

/-!
# The dot before the position of a request

A request for completions follows the trigger dot when the character in front of its offset is one.
The offset is that of the nearest place of the text, so the position may be a stale one, behind the
end of its line or below the last line.

On a line of the document the dot stands on that line, left of the position (`exists_dot_of_lt`):
the offset of the first column has a line break in front of it, or nothing. Below the last line all
positions stand for the end of the text, also those in the first column. That is the one case in
which there is no position left of the request, and completions of a document with a map fail there.
In all other cases the positions that are made from the request are valid, and completions fail only
where mapping does (`completions_left_of_dot`).
-/

set_option autoImplicit false

namespace DialectBridge

namespace Workspace

/-- The character in front of the offset of a position is the trigger dot. -/
def FollowsTrigger (d : Document) (p : Position) : Prop :=
  d.charAt ((d.offsetAt p : Int) - 1) = some trigger

instance (d : Document) (p : Position) : Decidable (FollowsTrigger d p) :=
  inferInstanceAs (Decidable (d.charAt ((d.offsetAt p : Int) - 1) = some trigger))

section Places

variable {d : Document} {p : Position}

/-! ## Where the dot stands -/

theorem charAt_natCast_succ (d : Document) (offset : Nat) :
    d.charAt (((offset + 1 : Nat) : Int) - 1) = d.text[offset]? := by
  rw [Int.natCast_succ, Int.add_sub_cancel, Document.charAt, if_neg (by omega), Int.toNat_natCast]

/-- In front of the first character of a line there is a line break, or nothing. -/
theorem charAt_before_line (inside : p.line < d.lines.length) :
    d.charAt ((d.lineStart p.line : Int) - 1) ≠ some trigger := by
  cases number : p.line with
  | zero => exact nofun
  | succ k =>
    have above := List.getElem?_eq_getElem (show k < d.lines.length by omega)
    rw [Document.lineStart_succ above, charAt_natCast_succ,
      Document.getElem?_of_lt above (by omega)]
    decide

/-- **On a line of the document the dot stands left of the position**: it is the last of the
characters of the line that are in front of it. -/
theorem exists_dot_of_lt (follows : FollowsTrigger d p) (inside : p.line < d.lineCount) :
    ∃ column < p.character, column + 1 = min p.character (d.lineText p.line).length ∧
      (d.lineText p.line)[column]? = some trigger := by
  rw [Document.lineCount_eq] at inside
  have found := List.getElem?_eq_getElem inside
  have offset : d.offsetAt p =
      d.lineStart p.line + min p.character (d.lineText p.line).length := by
    rw [Document.offsetAt, Document.offsetOf_of_getElem? found, Document.lineStart_eq]
  unfold FollowsTrigger at follows
  rw [offset] at follows
  cases width : min p.character (d.lineText p.line).length with
  | zero =>
    rw [width] at follows
    exact absurd follows (charAt_before_line inside)
  | succ column =>
    have short := (Document.lineText_front found).length_le
    rw [width, ← Nat.add_assoc, charAt_natCast_succ,
      Document.getElem?_lineStart_add found (by omega)] at follows
    obtain ⟨rest, whole⟩ := Document.lineText_front found
    refine ⟨column, by omega, rfl, ?_⟩
    rwa [← whole, List.getElem?_append_left (by omega)] at follows

/-- In the first column a request follows the dot exactly when there is no such line and the text
ends in a dot. -/
theorem followsTrigger_iff_of_first_column (column : p.character = 0) :
    FollowsTrigger d p ↔ d.lineCount ≤ p.line ∧ d.text.getLast? = some trigger := by
  by_cases inside : p.line < d.lineCount
  · refine iff_of_false (fun follows => ?_) fun below => absurd below.1 (Nat.not_le.2 inside)
    obtain ⟨c, less, -⟩ := exists_dot_of_lt follows inside
    omega
  · have below := Nat.not_lt.1 inside
    rw [and_iff_right below, FollowsTrigger, Document.offsetAt, Document.offsetOf, if_pos below,
      List.getLast?_eq_getElem?]
    cases size : d.text.length with
    | zero =>
      rw [List.length_eq_zero_iff.1 size]
      exact Iff.rfl
    | succ n => rw [charAt_natCast_succ, Nat.add_sub_cancel]

end Places

section Requests

variable {τ : Type} {w : Workspace τ} {r : Ready} {uri : String} {p q : Position}

/-! ## The positions made from a request -/

/-- There is a position left of another one exactly when that is not in the first column. -/
theorem leftOf_eq_ok_iff :
    leftOf p = .ok q ↔ q.line = p.line ∧ q.character + 1 = p.character := by
  rw [leftOf, Position.make_eq_ok_iff]
  omega

/-- In the first column there is no position left of the request. -/
theorem leftOf_of_first_column (column : p.character = 0) :
    leftOf p = .error (.characterOutOfRange (-1)) := by
  have bound := p.line_le
  unfold leftOf Position.make
  rw [column, dif_pos ⟨Int.natCast_nonneg _, by omega⟩, dif_neg (by omega)]
  rfl

/-- Where there is a position left of the request, completions have something to replace. -/
theorem exists_fallbackRange (left : leftOf p = .ok q) (afterTrigger : Bool)
    (entry : CompletionEntry) : ∃ range, fallbackRange p afterTrigger entry = .ok range ∧
      (range.start = p ∨ range.start = q) ∧ range.stop = p := by
  unfold fallbackRange
  dsimp only
  split
  · rw [left]
    exact ⟨⟨q, p⟩, rfl, .inr rfl, rfl⟩
  · exact ⟨.caret p, rfl, .inl rfl, rfl⟩

/-- The ways in which completions fail where the position `q` is mapped: it cannot be mapped, the
address of the document cannot be read, or the span of a completion cannot be mapped back. -/
inductive MappingFails (w : Workspace τ) (service : LanguageService) (uri : String) (r : Ready)
    (q : Position) (fault : Fault) : Prop
  | request (unmapped : requestOffset r q = .error fault)
  | address (unreadable : virtualFileName uri = .error fault)
  | response (file : String) (offset : Int) (entry : CompletionEntry) (span : Span)
      (offered : entry ∈ service.completions file offset) (own : entry.span = some span)
      (unmapped : w.responseRange service file span none = .error fault)

/-- A completion fails only where its span cannot be mapped back. -/
theorem completionItem_ends (left : leftOf p = .ok q) (service : LanguageService) (file : String)
    (afterTrigger : Bool) (entry : CompletionEntry) :
    Ends (w.completionItem service file p afterTrigger entry) (fun _ => True) fun fault =>
      ∃ span, entry.span = some span ∧ w.responseRange service file span none = .error fault := by
  obtain ⟨range, fallback, -⟩ := exists_fallbackRange left afterTrigger entry
  unfold completionItem
  cases own : entry.span with
  | none => exact .done trivial
  | some span =>
    dsimp only
    cases back : w.responseRange service file span none with
    | error fault => exact .error rfl ⟨span, rfl, back⟩
    | ok answer =>
      rw [fallback]
      cases answer with
      | none => exact .done trivial
      | some range =>
        dsimp only [bind, Except.bind]
        split
        · exact .done trivial
        · exact .done trivial

/-- Behind the dot no word is typed yet, and all completions fit. -/
theorem fittingEntries_behind_trigger (r : Ready) (offset : Nat) (entries : List CompletionEntry) :
    fittingEntries r offset (some trigger) entries = .ok entries := by
  unfold fittingEntries
  rw [if_neg (by decide)]
  rfl

/-- **Behind the dot, completions fail only where mapping does**, if there is a position left of the
request. -/
theorem completions_ends (ready : w.ready? uri = some r) (mapped : r.generated.hasMap = true)
    (follows : FollowsTrigger r.document p) (left : leftOf p = .ok q) (service : LanguageService) :
    Ends (w.completions service uri p).outcome (fun _ => True)
      (w.MappingFails service uri r q) := by
  unfold completions
  rw [ready]
  dsimp only
  rw [follows, mapped, Bool.and_true, if_pos (beq_self_eq_true _), left, Run.ofExcept_ok_bind,
    Run.outcome_bind, Run.outcome_ofExcept]
  refine ((Ends.itself _).mono (fun _ h => h) fun _ h => .request h).bind fun answer _ => ?_
  cases answer with
  | none => exact .done trivial
  | some target =>
    dsimp only
    rw [Run.outcome_bind, Run.outcome_ofExcept]
    refine ((Ends.itself _).mono (fun _ h => h) fun _ h => .address h).bind fun file _ => ?_
    rw [Run.outcome_note_bind, fittingEntries_behind_trigger, Run.ofExcept_ok_bind,
      Run.outcome_ofExcept]
    refine (ToOutput.mapM_ends fun entry offered =>
      (completionItem_ends left service file _ entry).mono (fun _ h => h) ?_).mono
        (fun _ _ => trivial) fun _ h => h
    rintro fault ⟨span, own, unmapped⟩
    exact .response file _ entry span offered own unmapped

/-- Behind the dot, completions fail in the first column. -/
theorem completions_of_first_column (ready : w.ready? uri = some r)
    (mapped : r.generated.hasMap = true) (follows : FollowsTrigger r.document p)
    (column : p.character = 0) (service : LanguageService) :
    w.completions service uri p = ⟨[], .error (.characterOutOfRange (-1))⟩ := by
  unfold completions
  rw [ready]
  dsimp only
  rw [follows, mapped, Bool.and_true, if_pos (beq_self_eq_true _), leftOf_of_first_column column]
  rfl

/-- **The trigger dot is left of the request, except in the first column below the last line.** For
every document that is ready with a map and every position, also a stale one: in the first column a
request follows the dot exactly when it has no line and the text ends in a dot, and completions then
fail at the column in front of the first one, without asking the service. Any other request that
follows the dot has a column in front of it. On a line of the document the dot is the last of the
characters of the line in front of the position. The positions that are made from the request are
valid, and completions fail only where mapping does. -/
theorem completions_left_of_dot (ready : w.ready? uri = some r)
    (mapped : r.generated.hasMap = true) (service : LanguageService) :
    (∀ p : Position, p.character = 0 →
      (FollowsTrigger r.document p ↔
        r.document.lineCount ≤ p.line ∧ r.document.text.getLast? = some trigger)) ∧
    ∀ p : Position, FollowsTrigger r.document p →
      (p.character = 0 →
        w.completions service uri p = ⟨[], .error (.characterOutOfRange (-1))⟩) ∧
      (p.line < r.document.lineCount →
        ∃ column < p.character,
          column + 1 = min p.character (r.document.lineText p.line).length ∧
            (r.document.lineText p.line)[column]? = some trigger) ∧
      (0 < p.character →
        ∃ q, leftOf p = .ok q ∧ q.line = p.line ∧ q.character + 1 = p.character ∧
          (∀ entry, ∃ range, fallbackRange p true entry = .ok range ∧
            (range.start = p ∨ range.start = q) ∧ range.stop = p) ∧
          Ends (w.completions service uri p).outcome (fun _ => True)
            (w.MappingFails service uri r q)) := by
  refine ⟨fun p => followsTrigger_iff_of_first_column, fun p follows =>
    ⟨fun column => completions_of_first_column ready mapped follows column service,
      exists_dot_of_lt follows, fun further => ?_⟩⟩
  let q : Position := ⟨p.line, p.character - 1, p.line_le, by have := p.character_le; omega⟩
  have left : leftOf p = .ok q := leftOf_eq_ok_iff.2 ⟨rfl, Nat.sub_add_cancel further⟩
  exact ⟨q, left, rfl, Nat.sub_add_cancel further, exists_fallbackRange left true,
    completions_ends ready mapped follows left service⟩

/-- A request far behind the end of the line with the dot. -/
theorem completions_left_of_dot_stale :
    let uri := "file:///p/a.coffee"
    let w : Workspace Nat := .empty {} 180
    let workspace := (w.change (generate LineByLine.compile) 0 uri "a = 1\nb.".toList 1).workspace
    let p : Position := .mk 1 40
    ∃ r, workspace.ready? uri = some r ∧ r.generated.hasMap = true ∧
      FollowsTrigger r.document p ∧
      ∃ q, leftOf p = .ok q ∧
        Ends (workspace.completions (CannedAnswers.toService {}) uri p).outcome (fun _ => True)
          (workspace.MappingFails (CannedAnswers.toService {}) uri r q) := by
  intro uri w workspace p
  have found : (workspace.ready? uri).any (fun r =>
      r.generated.hasMap && decide (FollowsTrigger r.document p)) = true := by decide +kernel
  obtain ⟨r, ready, both⟩ := (Option.any_eq_true _ _).1 found
  rw [Bool.and_eq_true, decide_eq_true_eq] at both
  obtain ⟨-, -, left⟩ :=
    (completions_left_of_dot ready both.1 (CannedAnswers.toService {})).2 p both.2
  obtain ⟨q, valid, -, -, -, ends⟩ := left (by decide)
  exact ⟨r, ready, both.1, both.2, q, valid, ends⟩

/-- In the first column below a line that ends in a dot, completions fail. -/
theorem completions_below_last_line :
    let uri := "file:///p/a.coffee"
    let w : Workspace Nat := .empty {} 180
    let workspace := (w.change (generate LineByLine.compile) 0 uri "a.".toList 1).workspace
    let p : Position := .mk 1 0
    (∃ r, workspace.ready? uri = some r ∧ r.generated.hasMap = true ∧
      FollowsTrigger r.document p) ∧
      workspace.completions (CannedAnswers.toService {}) uri p =
        ⟨[], .error (.characterOutOfRange (-1))⟩ := by
  intro uri w workspace p
  have found : (workspace.ready? uri).any (fun r =>
      r.generated.hasMap && decide (FollowsTrigger r.document p)) = true := by decide +kernel
  obtain ⟨r, ready, both⟩ := (Option.any_eq_true _ _).1 found
  rw [Bool.and_eq_true, decide_eq_true_eq] at both
  exact ⟨⟨r, ready, both⟩, completions_of_first_column ready both.1 both.2 rfl _⟩

end Requests

end Workspace

end DialectBridge
