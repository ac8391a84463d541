import DialectBridge.Text.Scan

/-!
# Scanning line by line

A rule that does not look back scans by a plain recursion: it replaces at the first character, or
it keeps that character and goes on. A rule that looks back sees the last character that was taken
or kept. If a rule takes no line feed and never decides by what stands in front of or behind one,
then scanning a text and scanning its lines one by one is the same, so that the lines of the result
are the results of the lines.

A rule whose outputs are as long as what they replace keeps the length of every text: each column
is kept, or it is one of those that were replaced. Places at which a rule declines stay as they are.
-/

set_option autoImplicit false

namespace DialectBridge

/-- A rule that decides without the character in front of the place. -/
def ReplacementRule.Forward (rule : ReplacementRule) : Prop :=
  ∀ before t, rule before t = rule none t

/-- A rule that takes at least one character and only characters that are there. -/
def ReplacementRule.Fitting (rule : ReplacementRule) : Prop :=
  ∀ t r, rule none t = some r → 1 ≤ r.length ∧ r.length ≤ t.length

/-- A rule whose outputs are as long as what they replace. -/
def ReplacementRule.LengthKeeping (rule : ReplacementRule) : Prop :=
  ∀ t r, rule none t = some r → r.output.length = r.length

/-- A rule whose outputs are as long as what they replace, wherever it looks. -/
def ReplacementRule.InPlace (rule : ReplacementRule) : Prop :=
  ∀ before t r, rule before t = some r →
    1 ≤ r.length ∧ r.length ≤ t.length ∧ r.output.length = r.length

/-- A rule that sees and takes nothing beyond the line it is used on. -/
structure ReplacementRule.Linewise (rule : ReplacementRule) : Prop where
  forward : rule.Forward
  fitting : rule.Fitting
  /-- What follows the line does not matter. -/
  within : ∀ line rest, '\n' ∉ line → rule none (line ++ '\n' :: rest) = rule none line
  /-- No line feed is written. -/
  unbroken : ∀ t r, '\n' ∉ t → rule none t = some r → '\n' ∉ r.output

/-- A rule that may look at the character in front of a place, but not beyond the line it is used
on. -/
structure ReplacementRule.WithinLines (rule : ReplacementRule) : Prop where
  fitting : ∀ before t r, rule before t = some r → 1 ≤ r.length ∧ r.length ≤ t.length
  /-- What follows the line does not matter. -/
  within : ∀ before line rest, '\n' ∉ line → rule before (line ++ '\n' :: rest) = rule before line
  /-- What is in front of the line does not matter. -/
  beginning : ∀ t, rule (some '\n') t = rule none t
  unbroken : ∀ before t r, '\n' ∉ t → rule before t = some r → '\n' ∉ r.output

/-- A rule that does not look back does not see the line above. -/
theorem ReplacementRule.Linewise.withinLines {rule : ReplacementRule} (h : rule.Linewise) :
    rule.WithinLines where
  fitting before t r replaced := h.fitting t r ((h.forward before t).symm.trans replaced)
  within before line rest clean := by
    rw [h.forward before, h.within line rest clean, ← h.forward before]
  beginning t := h.forward (some '\n') t
  unbroken before t r clean replaced :=
    h.unbroken t r clean ((h.forward before t).symm.trans replaced)

/-- A front that does not reach the character behind a line is a front of the line. -/
theorem Text.exists_of_append_eq {c : Char} {taken rest line others : Text} (clean : c ∉ taken)
    (h : line ++ c :: others = taken ++ rest) : ∃ more, line = taken ++ more := by
  rcases List.append_eq_append_iff.1 h with ⟨more, longer, ending⟩ | ⟨more, whole, -⟩
  · cases more with
    | nil => exact ⟨[], by rw [longer, List.append_nil, List.append_nil]⟩
    | cons d more =>
      obtain ⟨rfl, -⟩ := List.cons.inj ending
      exact absurd (longer ▸ List.mem_append_right _ List.mem_cons_self) clean
  · exact ⟨more, whole⟩

/-- A rule does not see beyond a character that is never among the ones by which it decides. -/
theorem ReplacementRule.within_of_window {rule : ReplacementRule} {c : Char}
    (window : ∀ t r, rule none t = some r → ∃ taken rest, t = taken ++ rest ∧ c ∉ taken ∧
      ∀ others, rule none (taken ++ others) = some r) (line rest : Text) :
    rule none (line ++ c :: rest) = rule none line := by
  cases decision : rule none line with
  | some r =>
    obtain ⟨taken, more, rfl, -, alone⟩ := window line r decision
    rw [List.append_assoc]
    exact alone _
  | none =>
    cases later : rule none (line ++ c :: rest) with
    | none => rfl
    | some r =>
      obtain ⟨taken, more, whole, clean, alone⟩ := window _ r later
      obtain ⟨behind, rfl⟩ := Text.exists_of_append_eq clean whole
      rw [alone behind] at decision
      cases decision

/-- A rule is linewise when what it takes is without line feeds and decides alone. -/
theorem ReplacementRule.Linewise.of_window {rule : ReplacementRule} (forward : rule.Forward)
    (window : ∀ t r, rule none t = some r → ∃ taken rest, t = taken ++ rest ∧
      taken.length = r.length ∧ 1 ≤ r.length ∧ '\n' ∉ taken ∧ '\n' ∉ r.output ∧
      ∀ others, rule none (taken ++ others) = some r) : rule.Linewise where
  forward := forward
  fitting t r h := by
    obtain ⟨taken, rest, rfl, size, positive, -⟩ := window t r h
    refine ⟨positive, ?_⟩
    rw [List.length_append]
    omega
  within line rest _ := by
    refine rule.within_of_window (fun t r h => ?_) line rest
    obtain ⟨taken, others, whole, -, -, clean, -, alone⟩ := window t r h
    exact ⟨taken, others, whole, clean, alone⟩
  unbroken t r clean h := by
    obtain ⟨taken, rest, -, -, -, -, written, -⟩ := window t r h
    exact written

namespace Text

variable {rule : ReplacementRule}

/-- A fixed text is replaced where it stands. -/
theorem literally_eq_some {old new t : Text} {before : Option Char} {r : Replacement}
    (h : literally old new before t = some r) :
    ∃ rest, t = old ++ rest ∧ r = ⟨old.length, new⟩ := by
  unfold literally at h
  split at h
  · next front =>
    rw [startsWith, List.isPrefixOf_iff_prefix] at front
    obtain ⟨rest, rfl⟩ := front
    exact ⟨rest, rfl, (Option.some.inj h).symm⟩
  · cases h

theorem scanFrom_nil (before : Option Char) (covered : Nat) :
    scanFrom rule before covered [] = [] := by
  cases covered <;> rfl

/-- The last character so far, one further on. -/
theorem getLast?_cons_or (c : Char) (t : Text) (before : Option Char) :
    (c :: t).getLast?.or before = t.getLast?.or (some c) := by
  rw [List.getLast?_cons]
  cases t.getLast? <;> rfl

/-- Behind the characters that an earlier replacement took, scanning starts anew, and looks back at
the last one of them. -/
theorem scanFrom_eq_drop (before : Option Char) (covered : Nat) (t : Text) :
    scanFrom rule before covered t =
      scanFrom rule ((t.take covered).getLast?.or before) 0 (t.drop covered) := by
  induction t generalizing before covered with
  | nil => rw [scanFrom_nil, List.drop_nil, scanFrom_nil]
  | cons c rest ih =>
    cases covered with
    | zero => rfl
    | succ k =>
      rw [List.take_succ_cons, List.drop_succ_cons, getLast?_cons_or]
      exact ih (some c) k

/-- Where the rule replaces, its output stands in the place of what it takes. -/
theorem scanFrom_of_some {before : Option Char} {t : Text} {r : Replacement}
    (replaced : rule before t = some r) (positive : 1 ≤ r.length) (bounded : r.length ≤ t.length) :
    scanFrom rule before 0 t =
      r.output ++ scanFrom rule ((t.take r.length).getLast?.or before) 0 (t.drop r.length) := by
  cases t with
  | nil =>
    rw [List.length_nil] at bounded
    omega
  | cons c rest =>
    obtain ⟨k, size⟩ := Nat.exists_eq_add_of_le' positive
    rw [scanFrom, replaced]
    dsimp only
    rw [size, Nat.add_sub_cancel, scanFrom_eq_drop, List.take_succ_cons, List.drop_succ_cons,
      getLast?_cons_or]

/-- For a rule that does not look back, covered characters are dropped. -/
theorem scanFrom_eq_scan_drop (forward : rule.Forward) (before : Option Char) (covered : Nat)
    (t : Text) : scanFrom rule before covered t = scan rule (t.drop covered) := by
  induction t generalizing before covered with
  | nil => rw [scanFrom_nil, List.drop_nil]; rfl
  | cons c rest ih =>
    cases covered with
    | succ k =>
      rw [List.drop_succ_cons]
      exact ih (some c) k
    | zero =>
      simp only [scan, scanFrom, List.drop_zero]
      rw [forward before (c :: rest)]

@[simp]
theorem scan_nil : scan rule [] = [] := rfl

/-- Where the rule declines, the character stays. -/
theorem scan_cons_of_none (forward : rule.Forward) {c : Char} {rest : Text}
    (declined : rule none (c :: rest) = none) : scan rule (c :: rest) = c :: scan rule rest := by
  unfold scan
  rw [scanFrom, declined]
  exact congrArg (c :: ·) (scanFrom_eq_scan_drop forward _ 0 rest)

/-- Where the rule replaces, its output stands in the place of what it takes. -/
theorem scan_cons_of_some (forward : rule.Forward) {c : Char} {rest : Text} {r : Replacement}
    (replaced : rule none (c :: rest) = some r) :
    scan rule (c :: rest) = r.output ++ scan rule (rest.drop (r.length - 1)) := by
  unfold scan
  rw [scanFrom, replaced]
  exact congrArg (r.output ++ ·) (scanFrom_eq_scan_drop forward _ _ rest)

/-- Where the rule replaces, its output stands in the place of what it takes. -/
theorem scan_of_some (forward : rule.Forward) (fitting : rule.Fitting) {t : Text} {r : Replacement}
    (replaced : rule none t = some r) : scan rule t = r.output ++ scan rule (t.drop r.length) := by
  obtain ⟨positive, bounded⟩ := fitting t r replaced
  cases t with
  | nil =>
    simp only [List.length_nil, Nat.le_zero_eq] at bounded
    omega
  | cons c rest =>
    rw [scan_cons_of_some forward replaced]
    obtain ⟨k, size⟩ := Nat.exists_eq_add_of_le' positive
    rw [size, List.drop_succ_cons, Nat.add_sub_cancel]

/-- Characters at which the rule declines stay in front. -/
theorem scan_append_of_declined (forward : rule.Forward) {front rest : Text}
    (declined : ∀ k < front.length, rule none (front.drop k ++ rest) = none) :
    scan rule (front ++ rest) = front ++ scan rule rest := by
  induction front with
  | nil => rfl
  | cons c more ih =>
    have here : rule none (c :: (more ++ rest)) = none := declined 0 (Nat.succ_pos _)
    rw [List.cons_append, scan_cons_of_none forward here, ih fun k bound => ?_, List.cons_append]
    exact declined (k + 1) (Nat.succ_lt_succ bound)

/-- Where the rule decides in the front as if nothing followed, the two parts are scanned apart. -/
theorem scan_append (forward : rule.Forward) (fitting : rule.Fitting) {front rest : Text}
    (apart : ∀ k < front.length, rule none (front.drop k ++ rest) = rule none (front.drop k)) :
    scan rule (front ++ rest) = scan rule front ++ scan rule rest := by
  induction size : front.length using Nat.strongRecOn generalizing front with
  | ind n ih =>
    cases front with
    | nil => rfl
    | cons c more =>
      have here : rule none (c :: (more ++ rest)) = rule none (c :: more) :=
        apart 0 (Nat.succ_pos _)
      cases decision : rule none (c :: more) with
      | none =>
        have later := ih more.length (by rw [← size]; exact Nat.lt_succ_self _)
          (fun k bound => apart (k + 1) (Nat.succ_lt_succ bound)) rfl
        rw [List.cons_append, scan_cons_of_none forward (here.trans decision), later,
          scan_cons_of_none forward decision, List.cons_append]
      | some r =>
        obtain ⟨positive, bounded⟩ := fitting _ _ decision
        have later := ih ((c :: more).drop r.length).length
          (by rw [← size, List.length_drop]; omega) (fun k bound => ?_) rfl
        · rw [scan_of_some forward fitting (show rule none (c :: more ++ rest) = some r from
            here.trans decision), scan_of_some forward fitting decision,
            List.drop_append_of_le_length bounded, later, List.append_assoc]
        · rw [List.length_drop] at bound
          rw [List.drop_drop]
          exact apart (r.length + k) (by omega)

/-- A text in which the rule declines everywhere stays as it is. -/
theorem scan_eq_self (forward : rule.Forward) {t : Text}
    (declined : ∀ k < t.length, rule none (t.drop k) = none) : scan rule t = t := by
  have all : ∀ k < t.length, rule none (t.drop k ++ []) = none := by
    intro k bound
    rw [List.append_nil]
    exact declined k bound
  have whole := scan_append_of_declined forward all
  rw [List.append_nil, scan_nil, List.append_nil] at whole
  exact whole

/-- Induction over the steps of a scan: a character at which the rule declines is kept, and what it
takes is replaced. -/
theorem scan_steps (forward : rule.Forward) (fitting : rule.Fitting)
    {motive : Text → Text → Prop} (nil : motive [] [])
    (keep : ∀ c rest, rule none (c :: rest) = none → motive rest (scan rule rest) →
      motive (c :: rest) (c :: scan rule rest))
    (replace : ∀ taken rest r, rule none (taken ++ rest) = some r → taken.length = r.length →
      motive rest (scan rule rest) → motive (taken ++ rest) (r.output ++ scan rule rest))
    (t : Text) : motive t (scan rule t) := by
  induction size : t.length using Nat.strongRecOn generalizing t with
  | ind n ih =>
    cases decision : rule none t with
    | none =>
      cases t with
      | nil => exact nil
      | cons c rest =>
        rw [scan_cons_of_none forward decision]
        exact keep c rest decision (ih rest.length (size ▸ Nat.lt_succ_self _) rest rfl)
    | some r =>
      obtain ⟨positive, bounded⟩ := fitting t r decision
      have later := ih (t.drop r.length).length (by rw [List.length_drop]; omega) _ rfl
      have whole := replace (t.take r.length) (t.drop r.length) r
        (by rwa [List.take_append_drop]) (List.length_take_of_le bounded) later
      rwa [List.take_append_drop, ← scan_of_some forward fitting decision] at whole

/-- A rule that keeps lengths keeps the length of a text. -/
theorem length_scan (forward : rule.Forward) (fitting : rule.Fitting)
    (keeping : rule.LengthKeeping) (t : Text) : (scan rule t).length = t.length := by
  refine scan_steps (motive := fun t t' => t'.length = t.length) forward fitting rfl
    (fun c rest _ later => congrArg Nat.succ later) (fun taken rest r decision size later => ?_) t
  rw [List.length_append, List.length_append, keeping _ r decision, size, later]

/-- A character that the rule always takes and never writes is not left. -/
theorem not_mem_scan (forward : rule.Forward) (fitting : rule.Fitting) {c : Char}
    (taken : ∀ rest, rule none (c :: rest) ≠ none)
    (unwritten : ∀ t r, rule none t = some r → c ∉ r.output) (t : Text) : c ∉ scan rule t := by
  refine scan_steps (motive := fun _ t' => c ∉ t') forward fitting List.not_mem_nil
    (fun d rest declined later => ?_) (fun front rest r decision _ later => ?_) t
  · rw [List.mem_cons, not_or]
    exact ⟨fun same => taken rest (same ▸ declined), later⟩
  · rw [List.mem_append, not_or]
    exact ⟨unwritten _ r decision, later⟩

/-- A character that the rule never writes is not new. -/
theorem mem_of_mem_scan (forward : rule.Forward) {c : Char}
    (unwritten : ∀ t r, rule none t = some r → c ∉ r.output) {t : Text} (h : c ∈ scan rule t) :
    c ∈ t := by
  induction size : t.length using Nat.strongRecOn generalizing t with
  | ind n ih =>
    cases t with
    | nil => exact h
    | cons d rest =>
      cases decision : rule none (d :: rest) with
      | none =>
        rw [scan_cons_of_none forward decision] at h
        rcases List.mem_cons.1 h with rfl | later
        · exact List.mem_cons_self
        · refine List.mem_cons_of_mem _ (ih rest.length ?_ later rfl)
          rw [← size, List.length_cons]
          exact Nat.lt_succ_self _
      | some r =>
        rw [scan_cons_of_some forward decision] at h
        rcases List.mem_append.1 h with written | later
        · exact absurd written (unwritten _ r decision)
        · refine List.mem_cons_of_mem _ (List.mem_of_mem_drop (ih _ ?_ later rfl))
          rw [← size, List.length_cons, List.length_drop]
          omega

/-- What holds of kept characters and of every replacement holds of all of a text: a relation
between a text and what scanning makes of it, by induction over the replacements. The rule may look
at the character before a place. -/
theorem scan_induction (related : Text → Text → Prop) (nil : related [] [])
    (keep : ∀ c rest rest', related rest rest' → related (c :: rest) (c :: rest'))
    (replace : ∀ before t r, rule before t = some r → ∃ taken rest, t = taken ++ rest ∧
      taken.length = r.length ∧ 1 ≤ r.length ∧
      ∀ rest', related rest rest' → related t (r.output ++ rest')) (t : Text) :
    related t (scan rule t) := by
  suffices all : ∀ before, related t (scanFrom rule before 0 t) from all none
  induction size : t.length using Nat.strongRecOn generalizing t with
  | ind n ih =>
    intro before
    cases decision : rule before t with
    | none =>
      cases t with
      | nil => exact nil
      | cons c rest =>
        have step : scanFrom rule before 0 (c :: rest) = c :: scanFrom rule (some c) 0 rest := by
          rw [scanFrom, decision]
        rw [step]
        refine keep c rest _ (ih rest.length ?_ rest rfl _)
        rw [← size, List.length_cons]
        exact Nat.lt_succ_self _
    | some r =>
      obtain ⟨taken, others, rfl, width, positive, related_⟩ := replace before t r decision
      rw [List.length_append] at size
      have bounded : r.length ≤ (taken ++ others).length := by
        rw [List.length_append]
        omega
      rw [scanFrom_of_some decision positive bounded, ← width, List.drop_left]
      exact related_ _ (ih others.length (by omega) others rfl _)

/-! ## Line by line -/

/-- Behind a line feed a rule goes on like at the beginning of a text. -/
theorem scanFrom_lineFeed (within : rule.WithinLines) (rest : Text) :
    scanFrom rule (some '\n') 0 rest = scan rule rest := by
  cases rest with
  | nil => rfl
  | cons c more => rw [scan, scanFrom, scanFrom, within.beginning]

/-- Scanning goes through a line feed, also where a part of the line is covered. -/
theorem scanFrom_append_lineFeed (within : rule.WithinLines) {line : Text} (clean : '\n' ∉ line)
    (rest : Text) (before : Option Char) {covered : Nat} (inside : covered ≤ line.length) :
    scanFrom rule before covered (line ++ '\n' :: rest) =
      scanFrom rule before covered line ++ '\n' :: scan rule rest := by
  induction line generalizing before covered with
  | nil =>
    obtain rfl := Nat.le_zero.1 inside
    have declined : rule before ('\n' :: rest) = none := by
      cases decision : rule before ('\n' :: rest) with
      | none => rfl
      | some r =>
        have alone := within.within before [] rest clean
        obtain ⟨positive, bounded⟩ := within.fitting before [] r (alone.symm.trans decision)
        exact absurd (Nat.le_trans positive bounded) (by decide)
    simp only [List.nil_append, scanFrom, declined]
    exact congrArg _ (scanFrom_lineFeed within rest)
  | cons c more ih =>
    have later : '\n' ∉ more := fun member => clean (List.mem_cons_of_mem _ member)
    rw [List.cons_append]
    cases covered with
    | succ k => exact ih later (some c) (Nat.le_of_succ_le_succ inside)
    | zero =>
      have same := within.within before (c :: more) rest clean
      rw [List.cons_append] at same
      cases decision : rule before (c :: more) with
      | none =>
        rw [scanFrom, scanFrom, same, decision]
        exact congrArg _ (ih later (some c) (Nat.zero_le _))
      | some r =>
        have bounded := (within.fitting before _ r decision).2
        rw [List.length_cons] at bounded
        rw [scanFrom, scanFrom, same, decision]
        dsimp only
        rw [ih later (some c) (by omega), List.append_assoc]

/-- Scanning a line gives a line. -/
theorem not_mem_scanFrom (within : rule.WithinLines) {line : Text} (clean : '\n' ∉ line)
    (before : Option Char) (covered : Nat) : '\n' ∉ scanFrom rule before covered line := by
  induction line generalizing before covered with
  | nil => rw [scanFrom_nil]; exact List.not_mem_nil
  | cons c more ih =>
    have later : '\n' ∉ more := fun member => clean (List.mem_cons_of_mem _ member)
    cases covered with
    | succ k => exact ih later (some c) k
    | zero =>
      cases decision : rule before (c :: more) with
      | none =>
        rw [scanFrom, decision]
        exact fun member => (List.mem_cons.1 member).elim
          (fun same => clean (same ▸ List.mem_cons_self)) (ih later (some c) 0)
      | some r =>
        rw [scanFrom, decision]
        exact fun member => (List.mem_append.1 member).elim
          (within.unbroken before _ r clean decision) (ih later (some c) (r.length - 1))

/-- A pass that goes through line feeds and makes a line of a line works line by line. -/
theorem lines_of_append {pass : Text → Text}
    (through : ∀ line rest, '\n' ∉ line →
      pass (line ++ '\n' :: rest) = pass line ++ '\n' :: pass rest)
    (unbroken : ∀ line, '\n' ∉ line → '\n' ∉ pass line) (t : Text) :
    lines (pass t) = (lines t).map pass := by
  have joined : ∀ all : List Text, all ≠ [] → (∀ line ∈ all, '\n' ∉ line) →
      pass (joinLines all) = joinLines (all.map pass) := by
    intro all some_ clean
    induction all with
    | nil => exact absurd rfl some_
    | cons line more ih =>
      cases more with
      | nil => rfl
      | cons next others =>
        obtain ⟨first, later⟩ := List.forall_mem_cons.1 clean
        rw [joinLines_cons (List.cons_ne_nil next others), through _ _ first,
          ih (List.cons_ne_nil next others) later]
        rfl
  have whole := joined _ (lines_ne_nil t) fun _ => not_mem_of_mem_lines
  rw [joinLines_lines] at whole
  rw [whole, lines_joinLines (by simpa using lines_ne_nil t)]
  intro line member
  obtain ⟨original, inside, rfl⟩ := List.mem_map.1 member
  exact unbroken original (not_mem_of_mem_lines inside)

/-- **Scanning is line by line**, also for a rule that looks back. -/
theorem lines_scan_of_withinLines (within : rule.WithinLines) (t : Text) :
    lines (scan rule t) = (lines t).map (scan rule) :=
  lines_of_append
    (fun _ rest clean => scanFrom_append_lineFeed within clean rest none (Nat.zero_le _))
    (fun _ clean => not_mem_scanFrom within clean none 0) t

/-- **Scanning is line by line.** -/
theorem lines_scan (linewise : rule.Linewise) (t : Text) :
    lines (scan rule t) = (lines t).map (scan rule) :=
  lines_scan_of_withinLines linewise.withinLines t

/-! ## Column by column -/

/-- A text in which the rule declines everywhere stays as it is, also if the rule looks back. -/
theorem scan_eq_self_of_declined {t : Text}
    (declined : ∀ before front rest, t = front ++ rest → rule before rest = none) :
    scan rule t = t := by
  unfold scan
  generalize none = before
  induction t generalizing before with
  | nil => rfl
  | cons c rest ih =>
    rw [scanFrom, declined before [] (c :: rest) rfl]
    refine congrArg _ (ih ?_ (some c))
    intro before' front behind whole
    exact declined before' (c :: front) behind (congrArg _ whole)

/-- A column of a text is among those that the rule takes at some place, with the character that is
written there. -/
def ReplacedAt (rule : ReplacementRule) (before : Option Char) (t : Text) (i : Nat)
    (written : Option Char) : Prop :=
  ∃ front rest r, t = front ++ rest ∧ rule (front.getLast?.or before) rest = some r ∧
    front.length ≤ i ∧ i < front.length + r.length ∧ written = r.output[i - front.length]?

theorem ReplacedAt.behind {front t : Text} {before written : Option Char} {i : Nat}
    (h : ReplacedAt rule (front.getLast?.or before) t i written) :
    ReplacedAt rule before (front ++ t) (front.length + i) written := by
  obtain ⟨more, rest, r, rfl, replaced, le, lt, same⟩ := h
  refine ⟨front ++ more, rest, r, (List.append_assoc _ _ _).symm, ?_, ?_, ?_, ?_⟩
  · rw [List.getLast?_append, Option.or_assoc]
    exact replaced
  · rw [List.length_append]
    omega
  · rw [List.length_append]
    omega
  · rw [same, List.length_append, Nat.add_sub_add_left]

/-- **Every column of a scanned text is kept, or it is one of a replacement.** -/
theorem getElem?_scanFrom_cases (inPlace : rule.InPlace) (before : Option Char) (t : Text)
    (i : Nat) :
    (scanFrom rule before 0 t)[i]? = t[i]? ∨
      ReplacedAt rule before t i (scanFrom rule before 0 t)[i]? := by
  induction size : t.length using Nat.strongRecOn generalizing before t i with
  | ind n ih =>
    cases decision : rule before t with
    | none =>
      cases t with
      | nil => exact .inl rfl
      | cons c rest =>
        have step : scanFrom rule before 0 (c :: rest) = c :: scanFrom rule (some c) 0 rest := by
          rw [scanFrom, decision]
        have shorter : rest.length < n := size ▸ Nat.lt_succ_self rest.length
        rw [step]
        cases i with
        | zero => exact .inl rfl
        | succ j =>
          rw [List.getElem?_cons_succ, List.getElem?_cons_succ]
          refine (ih _ shorter (some c) rest j rfl).imp_right fun replaced => ?_
          have later : ReplacedAt rule before ([c] ++ rest) ([c].length + j) _ :=
            ReplacedAt.behind replaced
          rwa [List.length_singleton, Nat.add_comm] at later
    | some r =>
      obtain ⟨positive, bounded, same⟩ := inPlace before _ r decision
      rw [scanFrom_of_some decision positive bounded]
      by_cases inside : i < r.length
      · refine .inr ⟨[], t, r, rfl, decision, Nat.zero_le i, by simpa using inside, ?_⟩
        rw [List.getElem?_append_left (same ▸ inside)]
        rfl
      · obtain ⟨j, rfl⟩ := Nat.exists_eq_add_of_le (Nat.le_of_not_lt inside)
        have taken : (t.take r.length).length = r.length := by
          rw [List.length_take, Nat.min_eq_left bounded]
        have shorter : (t.drop r.length).length < n := by
          rw [List.length_drop]
          omega
        rw [List.getElem?_append_right (same ▸ Nat.le_add_right _ j), same, Nat.add_sub_cancel_left,
          ← List.getElem?_drop]
        refine (ih _ shorter ((t.take r.length).getLast?.or before) _ j rfl).imp_right
          fun replaced => ?_
        have later := replaced.behind
        rwa [List.take_append_drop, taken] at later

end Text

end DialectBridge
