import DialectBridge.Proofs.TokenEntries
import DialectBridge.Proofs.WorkspaceHistory
import DialectBridge.Workspace.Features

/-!
# What completions ask for

A document that is opened is ready once its text has come to an outcome. Completions then ask the
service at most once, and at an offset that depends on the map alone: the offset of the position, or
of the character before it where that is a dot, and from there on to the member of a receiver on its
own. What the service answers, and what becomes of the answer, has no part in it.
-/

set_option autoImplicit false

namespace DialectBridge

theorem Run.ofExcept_ok_bind {ω α β : Type} (a : α) (next : α → Run ω β) :
    (ofExcept (.ok a) >>= next) = next a := rfl

theorem Run.journal_note_bind {ω β : Type} (entry : ω) (next : Unit → Run ω β) :
    (note entry >>= next).journal = entry :: (next ()).journal := rfl

theorem Run.journal_ofExcept {ω α : Type} (outcome : Except Fault α) :
    (ofExcept outcome : Run ω α).journal = [] := rfl

theorem Run.journal_ofExcept_bind {ω α β : Type} (outcome : Except Fault α)
    {next : α → Run ω β} (quiet : ∀ a, (next a).journal = []) :
    (ofExcept outcome >>= next).journal = [] := by
  cases outcome with
  | error fault => rfl
  | ok a => exact quiet a

/-- Without identifier characters around an offset there is no word at it. -/
theorem Text.wordAround_of_free {t : Text} {offset : Nat} (inside : offset ≤ t.length)
    (before : ∀ c ∈ (t.take offset).getLast?, isIdentifier c = false)
    (behind : ∀ c ∈ (t.drop offset).head?, isIdentifier c = false) :
    wordAround t offset = .ok ⟨[], offset⟩ := by
  have stops : (t.drop offset).takeWhile isIdentifier = [] := by
    cases first : t.drop offset with
    | nil => rfl
    | cons c more =>
      refine List.takeWhile_cons_of_neg ?_
      rw [behind c (by rw [first]; rfl)]
      exact Bool.false_ne_true
  rw [wordAround_of_le inside, identifierBefore_eq_zero_iff.2 before, Nat.sub_zero, stops]

namespace Document

variable {d : Document} {k : Nat} {front rest : Text}

/-- At a place of a line stands the rest of the line, with a line break behind it or nothing. -/
theorem exists_drop (found : d.lines[k]? = some (front ++ rest)) :
    ∃ behind, d.text.drop (d.lineStart k + front.length) = rest ++ behind ∧
      (behind = [] ∨ behind.head? = some '\n') := by
  obtain ⟨above, behind, cut, whole⟩ := exists_cut found
  have size : d.lineStart k + front.length = (above ++ front).length := by
    rw [List.length_append, cut.size, lineStart_eq]
  have shape : d.text = (above ++ front) ++ (rest ++ behind) := by
    rw [whole]
    simp
  refine ⟨behind, ?_, cut.behind.imp And.left And.left⟩
  rw [size, shape, List.drop_left]

/-- The offset of a character of a line. -/
theorem offsetOf_of_lt {line : Text} {column : Nat} (found : d.lines[k]? = some line)
    (inside : column < line.length) : d.offsetOf k column = d.lineStart k + column := by
  obtain ⟨ending, whole, ends⟩ := exists_eq_lineText_append found
  have short : ending.length ≤ 1 := by
    rcases ends with rfl | rfl
    · exact Nat.zero_le 1
    · exact Nat.le_refl 1
  have size := congrArg List.length whole
  rw [List.length_append] at size
  rw [offsetOf_of_getElem? found, Nat.min_eq_left (by omega), lineStart_eq]

/-- The character before a position of a line is the one that stands there on the line. -/
theorem charAt_before {p : Position} {c : Char}
    (found : d.lines[p.line]? = some (front ++ c :: rest))
    (character : p.character = front.length + 1)
    (inside : p.character ≤ (d.lineText p.line).length) :
    d.charAt ((d.offsetAt p : Int) - 1) = some c := by
  obtain ⟨behind, drop, -⟩ := exists_drop found
  have offset : d.offsetAt p = d.lineStart p.line + front.length + 1 := by
    rw [offsetAt, offsetOf_of_getElem? found, Nat.min_eq_left inside, character, lineStart_eq,
      Nat.add_assoc]
  have place : ((d.offsetAt p : Int) - 1).toNat = d.lineStart p.line + front.length := by omega
  unfold charAt
  rw [if_neg (by omega), place, ← List.head?_drop, drop]
  rfl

end Document

/-- Close behind plain code there is no comment: the fence of one is longer than a single sign. -/
theorem ToOutput.commentPosition?_behind_plain {c : Cursor} {before rest : Text}
    (plain : ∀ front d, Text.splitLast? before = some (front, d) →
      Preparation.isPlain front = true)
    (line : c.line = before ++ rest) (near : c.position.character ≤ before.length + 1)
    (generated : Document) : commentPosition? c generated = .ok none := by
  cases last : Text.splitLast? before with
  | none =>
    have empty : before = [] := by simpa [Text.splitLast?] using last
    refine commentPosition?_of_plain List.not_mem_nil line ?_
    rw [empty, List.length_nil] at near
    exact Nat.lt_of_le_of_lt near (by decide)
  | some parts =>
    obtain ⟨front, d⟩ := parts
    have whole := Text.splitLast?_eq_some last
    have signless : '#' ∉ front := fun sign =>
      absurd (List.all_eq_true.1 (plain front d last) _ sign) (by decide)
    rw [whole, List.append_assoc] at line
    refine commentPosition?_of_plain signless line ?_
    rw [whole, List.length_append, List.length_singleton] at near
    omega

namespace Workspace

/-! ## Opening a document -/

section Opening

variable {τ : Type} [Timeline τ] [LT τ] [DecidableLT τ] [LE τ] [DecidableLE τ] {w : Workspace τ}
  {generator : Generator} {now : τ} {uri : String} {text : Text} {version : Int} {g : Generated}

/-- A document for whose text there is no outcome yet gets the one that its generator gives, and is
ready if that has generated text. -/
theorem ready?_of_change (fresh : w.cache.valid? (digest text) now = none)
    (opened : (w.change generator now uri text version).outcome = .ok (some g)) :
    (generator ⟨text, uri⟩).outcome = .ok g ∧ (∃ file, virtualFileName uri = .ok file) ∧
      ∀ js, g.js = some js →
        (w.change generator now uri text version).workspace.ready? uri =
          some ⟨⟨text, uri⟩, g, js⟩ := by
  unfold change receive at opened ⊢
  rw [Received.shown_ofText, Received.digest_ofText] at opened ⊢
  cases handled : w.handles uri with
  | error fault =>
    rw [handled] at opened
    cases opened
  | ok known =>
    rw [handled] at opened
    cases known with
    | false => cases opened
    | true =>
      obtain ⟨file, named⟩ := exists_virtualFileName handled
      dsimp only at opened ⊢
      rw [named] at opened ⊢
      unfold Cache.get at opened ⊢
      rw [fresh] at opened ⊢
      cases made : (generator ⟨text, uri⟩).outcome with
      | error fault =>
        simp only [made] at opened
        cases opened
      | ok value =>
        cases expires : Timeline.after now w.cache.ttl with
        | error fault =>
          simp only [made, expires] at opened
          cases opened
        | ok time =>
          simp only [made, expires, Cache.conclude] at opened ⊢
          obtain rfl : value = g := Option.some.inj (Except.ok.inj opened)
          refine ⟨rfl, ⟨file, rfl⟩, fun js generated => ?_⟩
          simp only [ready?, Cache.setLatest, Cache.purge, Cache.store, Table.get?_put_self,
            generated, bind, Option.bind]
          rfl

end Opening

/-! ## The request -/

section Requests

variable {τ : Type} {w : Workspace τ} {r : Ready} {uri file : String} {p q : Position}

/-- **Completions ask once.** A dot before the position is left out when the position is mapped,
and put back behind what it is mapped to. -/
theorem journal_completions (ready : w.ready? uri = some r) (named : virtualFileName uri = .ok file)
    {skip : Bool} (dot : ((r.document.charAt ((r.document.offsetAt p : Int) - 1) == some trigger) &&
      r.generated.hasMap) = skip)
    (asked : (if skip then leftOf p else .ok p) = .ok q) {target : Nat}
    (mapped : requestOffset r q = .ok (some target)) (service : LanguageService) :
    (w.completions service uri p).journal = [⟨.completions, file,
      some (memberOffset r.js (if skip then target + 1 else target) : Nat)⟩] := by
  unfold completions
  rw [ready]
  dsimp only
  rw [dot, asked, Run.ofExcept_ok_bind, mapped, Run.ofExcept_ok_bind]
  dsimp only
  rw [named, Run.ofExcept_ok_bind, Run.journal_note_bind]
  rw [Run.journal_ofExcept_bind _ fun entries => Run.journal_ofExcept _]

/-- A position with a target is asked for at the target, on every line that was compiled or put
back. -/
theorem requestOffset_of_target {map : ColumnMap} {c : Cursor} {k column : Nat}
    (text : r.generated.js = some r.js) (mapped : r.generated.map = some map)
    (genuine : r.generated.mechanism ≠ some .sourceInOutput)
    (cursor : Cursor.ofPosition r.document p = .ok c) (position : c.position = p)
    (outside : ToOutput.commentPosition? c r.output = .ok none)
    (found : ToOutput.target map c r.output = .ok (some ⟨k, column⟩)) (line : k ≤ 2147483647)
    (short : column ≤ 2147483647) :
    requestOffset r p = .ok (some (r.output.offsetOf k column)) := by
  have own : ToOutput.columnOn r.generated r.output c ⟨k, column⟩ = column := by
    rw [ToOutput.columnOn_eq, if_neg fun sketched => genuine sketched.2]
  have route : r.generated.toOutput p r.document = .ok (some ⟨k, column, line, short⟩) := by
    unfold Generated.toOutput Generated.route
    rw [text, mapped]
    dsimp only
    rw [ToOutput.routeOn_eq cursor position outside]
    change ((ToOutput.target map c r.output >>= _) >>= _) = _
    rw [found]
    change ((Position.make (k : Int) (ToOutput.columnOn r.generated r.output c ⟨k, column⟩) >>= _)
      >>= _) = _
    rw [own, Position.make_natCast line short]
    rfl
  unfold requestOffset
  rw [Generated.hasMap, text, mapped, route]
  rfl

/-- Away from receivers the offset stays. -/
theorem memberOffset_eq_self {js : Text} {offset : Nat}
    (here : Text.startsWith receiverCall (js.drop offset) = false)
    (next : Text.startsWith receiverCall (js.drop (offset + 1)) = false) :
    memberOffset js offset = offset := by
  unfold memberOffset
  rw [here, next]
  simp

end Requests

end Workspace

end DialectBridge
