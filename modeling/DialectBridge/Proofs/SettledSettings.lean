import DialectBridge.Proofs.NumberRange
import DialectBridge.Proofs.SettingsSlots
import DialectBridge.Proofs.Targets
import Mathlib.Data.List.TakeWhile

/-!
# How settings are settled

A member is refused in two ways: its value is not what it must be (`Admits`), or it is an integer
that has no nearest number of double precision (`Overflows`). The first member that is refused
decides (`setAll_of_refused`). Settings that are accepted are sound, and refused ones are so with a
fault of the configuration, unless one of three things happens (`Escapes`): the first refused member
is an integer without a nearest number; the message about the first refused member cannot be
written, because it would have to show an integer that is too long, or a value inside too many
others; or a number of seconds is no number at all, which is not less than zero and therefore
passes.
-/

set_option autoImplicit false

namespace DialectBridge

namespace Settings

/-! ## The values of settings -/

/-- What the value of a setting must be. -/
def Admits : SettingKind → Json → Prop
  | .seconds, value => (∃ n : Int, value = .int n ∧ 0 ≤ n) ∨
      ∃ x : Binary64, value = .float x ∧ x.isNegative = false
  | .codes, value => ∃ codes : List Int, value = .arr (codes.map .int)
  | .extensions, value => ∃ extensions : List String, value = .arr (extensions.map .str)
  | .logLevel, value => ∃ (name : String) (level : LogLevel),
      value = .str name ∧ name.toList.map capital = level.name.toList
  | .path, value => value = .null ∨ ∃ path : String, value = .str path

/-- Whether a value is an integer without a nearest number. -/
def Overflows (value : Json) : Prop := ∃ n : Int, value = .int n ∧ (Binary64.overflow : Int) ≤ n

/-- An integer that overflows is a number of seconds all the same. -/
theorem Overflows.admitted {value : Json} (h : Overflows value) : Admits .seconds value := by
  obtain ⟨n, same, large⟩ := h
  exact .inl ⟨n, same, Int.le_trans (Int.natCast_nonneg _) large⟩

/-- The three ways in which the value of a member is read. -/
inductive Reading {α : Type} (key : String) (kind : SettingKind) (value : Json) :
    Except Fault α → Prop
  | accepted (x : α) (admitted : Admits kind value)
      (fits : kind = .seconds → ¬ Overflows value) : Reading key kind value (.ok x)
  | overflow (second : kind = .seconds) (large : Overflows value) :
      Reading key kind value (.error .numberTooLarge)
  | refused (wrong : ¬ Admits kind value) :
      Reading key kind value (.error (refusal key kind value))

section Values

variable {value : Json}

/-- A list is of one kind when it is made of values of that kind. -/
theorem listOf_eq_some_iff {α : Type} {item? : Json → Option α} {inject : α → Json}
    (inverse : ∀ item a, item? item = some a ↔ item = inject a) {found : List α} :
    listOf item? value = some found ↔ value = .arr (found.map inject) := by
  have items_iff : ∀ items, items.mapM item? = some found ↔ items = found.map inject := by
    intro items
    induction items generalizing found with
    | nil =>
      rw [List.mapM_nil, eq_comm (a := []), List.map_eq_nil_iff, eq_comm (b := [])]
      exact Option.some_inj
    | cons item rest ih =>
      rw [List.mapM_cons]
      constructor
      · intro h
        obtain ⟨a, here, h⟩ := Option.bind_eq_some_iff.1 h
        obtain ⟨more, later, h⟩ := Option.bind_eq_some_iff.1 h
        cases h
        rw [List.map_cons, ← (inverse _ _).1 here, ← ih.1 later]
      · intro h
        obtain ⟨a, more, rfl, here, later⟩ := List.map_eq_cons_iff.1 h.symm
        rw [(inverse _ _).2 here.symm, ih.2 later.symm]
        rfl
  cases value with
  | arr items => exact (items_iff items).trans (Json.arr.injEq _ _ ▸ Iff.rfl)
  | _ => exact iff_of_false nofun nofun

theorem logLevelOf?_eq_some_iff {name : String} {level : LogLevel} :
    logLevelOf? name = some level ↔ name.toList.map capital = level.name.toList := by
  have capitals : name.toList.map capital = level.name.toList ↔
      level.name = String.ofList (name.toList.map capital) := by
    constructor
    · intro same
      rw [same, String.ofList_toList]
    · intro same
      rw [same, String.toList_ofList]
  rw [capitals, logLevelOf?]
  generalize String.ofList (name.toList.map capital) = c
  by_cases info : LogLevel.info.name = c
  · subst info
    cases level <;> decide
  · by_cases debug : LogLevel.debug.name = c
    · subst debug
      cases level <;> decide
    · refine iff_of_false ?_ (by cases level <;> assumption)
      rw [List.find?_cons, beq_eq_false_iff_ne.2 info]
      dsimp only
      rw [List.find?_cons, beq_eq_false_iff_ne.2 debug]
      exact nofun

/-! ### One reading for each kind -/

theorem seconds_reading (key : String) (value : Json) :
    Reading key .seconds value (seconds key value) := by
  unfold seconds
  cases value with
  | int n =>
    dsimp only
    split
    · next negative =>
      refine .refused ?_
      rintro (⟨_, same, sign⟩ | ⟨_, same, -⟩)
      · cases same
        omega
      · cases same
    · next positive =>
      split
      · next x nearest =>
        refine .accepted x (.inl ⟨n, rfl, Int.not_lt.1 positive⟩) ?_
        rintro - ⟨_, same, large⟩
        cases same
        rw [Binary64.ofInt?_eq_none_iff.2 (by omega)] at nearest
        cases nearest
      · next none_ =>
        have large := Binary64.ofInt?_eq_none_iff.1 none_
        exact .overflow rfl ⟨n, rfl, by omega⟩
  | float x =>
    dsimp only
    split
    · next negative =>
      refine .refused ?_
      rintro (⟨_, same, -⟩ | ⟨_, same, sign⟩)
      · cases same
      · cases same
        exact absurd negative (Bool.eq_false_iff.1 sign)
    · next positive =>
      refine .accepted x (.inr ⟨x, rfl, Bool.eq_false_iff.2 positive⟩) ?_
      rintro - ⟨_, same, -⟩
      cases same
  | _ =>
    refine .refused ?_
    rintro (⟨_, same, -⟩ | ⟨_, same, -⟩) <;> cases same

/-- A value in which something is found or not is accepted or refused. -/
theorem reading_of_option {α β : Type} {key : String} {kind : SettingKind} {found : Option α}
    {outcome : Except Fault β} (other : kind ≠ .seconds)
    (admitted : Admits kind value ↔ ∃ a, found = some a)
    (given : ∀ a, found = some a → ∃ b, outcome = .ok b)
    (missing : found = none → outcome = .error (refusal key kind value)) :
    Reading key kind value outcome := by
  cases found with
  | some a =>
    obtain ⟨b, same⟩ := given a rfl
    rw [same]
    exact .accepted b (admitted.2 ⟨a, rfl⟩) fun second => absurd second other
  | none =>
    rw [missing rfl]
    refine .refused fun right => ?_
    obtain ⟨a, same⟩ := admitted.1 right
    cases same

theorem codes_reading (key : String) (value : Json) :
    Reading key .codes value (codes key value) := by
  have admitted : Admits .codes value ↔ ∃ found, listOf integer? value = some found :=
    exists_congr fun found => (listOf_eq_some_iff fun item a => by
      cases item <;> simp [integer?]).symm
  exact reading_of_option (by decide) admitted (fun found known => ⟨found, by rw [codes, known]⟩)
    fun none_ => by rw [codes, none_]

theorem extensions_reading (key : String) (value : Json) :
    Reading key .extensions value (extensions key value) := by
  have admitted : Admits .extensions value ↔ ∃ found, listOf string? value = some found :=
    exists_congr fun found => (listOf_eq_some_iff fun item a => by
      cases item <;> simp [string?]).symm
  exact reading_of_option (by decide) admitted
    (fun found known => ⟨found.map withoutDots, by rw [extensions, known]⟩)
    fun none_ => by rw [extensions, none_]

theorem logLevelFrom_reading (key : String) (value : Json) :
    Reading key .logLevel value (logLevelFrom key value) := by
  have admitted : Admits .logLevel value ↔
      ∃ level, (string? value).bind logLevelOf? = some level := ?_
  · exact reading_of_option (by decide) admitted
      (fun level known => ⟨level, by rw [logLevelFrom, known]⟩)
      fun none_ => by rw [logLevelFrom, none_]
  cases value with
  | str name =>
    constructor
    · rintro ⟨_, level, own, same⟩
      cases own
      exact ⟨level, logLevelOf?_eq_some_iff.2 same⟩
    · rintro ⟨level, known⟩
      exact ⟨name, level, rfl, logLevelOf?_eq_some_iff.1 known⟩
  | _ =>
    refine iff_of_false ?_ nofun
    rintro ⟨_, _, own, -⟩
    cases own

theorem optionalPath_reading (key : String) (value : Json) :
    Reading key .path value (optionalPath key value) := by
  cases value with
  | null => exact .accepted none (.inl rfl) nofun
  | str path => exact .accepted _ (.inr ⟨path, rfl⟩) nofun
  | _ =>
    refine .refused ?_
    rintro (same | ⟨_, same⟩) <;> cases same

/-- Every setting is read in one of these ways. -/
theorem reading (value : Json) :
    ∀ slot ∈ slots, Reading slot.key slot.kind value (slot.read value) :=
  forall_slots.2 ⟨seconds_reading _ _, seconds_reading _ _, codes_reading _ _,
    extensions_reading _ _, logLevelFrom_reading _ _, optionalPath_reading _ _⟩

end Values

/-! ## Sound settings -/

/-- The settings that a user can mean: no time is negative, and no file extension begins with a
dot. -/
structure Sound (s : Settings) : Prop where
  ttl : 0 ≤ Quantity.real s.cacheTtl
  delay : 0 ≤ Quantity.real s.validationDelay
  extensions : ∀ extension ∈ s.fileExtensions, extension.toList.head? ≠ some '.'
  level : s.logLevel.name = "INFO" ∨ s.logLevel.name = "DEBUG"

/-- A number is not less than zero when it is a number and not negative. -/
theorem nonneg_iff {x : Binary64} :
    0 ≤ Quantity.real x ↔ x.isNegative = false ∧ x ≠ .nan := by
  change Quantity.lessOrEqual (.whole 0) (.real x) = true ↔ _
  cases x with
  | nan => decide
  | infinite negative => cases negative <;> decide
  | finite negative mantissa exponent =>
    have order : Quantity.lessOrEqual (.whole 0) (.real (.finite negative mantissa exponent)) =
        true ↔ 0 ≤ Quantity.units (.real (.finite negative mantissa exponent)) := by
      simp only [Quantity.lessOrEqual, Quantity.side?, Quantity.units, Int.zero_mul,
        Int.lt_irrefl, decide_false, beq_self_eq_true, bne_self_eq_false, Bool.false_or,
        Bool.true_and, decide_eq_true_eq]
    have factor := Binary64.pow_pos (exponent - Binary64.leastExponent).toNat
    rw [order]
    simp only [Quantity.units, Binary64.units?, Option.getD_some, Binary64.isNegative]
    generalize Nat.pow 2 (exponent - Binary64.leastExponent).toNat = scale at factor
    cases negative with
    | false => simp [Int.mul_nonneg]
    | true =>
      have zero : (mantissa : Int) * scale ≤ 0 ↔ mantissa = 0 := by
        refine ⟨fun none_ => by_contra fun some_ => ?_, fun none_ => by simp [none_]⟩
        have positive := Nat.mul_pos (Nat.pos_of_ne_zero some_) factor
        rw [← Int.natCast_mul] at none_
        omega
      simp [zero]

theorem isNegative_of_seconds {key : String} {value : Json} {x : Binary64}
    (read : seconds key value = .ok x) :
    x.isNegative = false ∧ (x = .nan → value = .float .nan) := by
  unfold seconds at read
  cases value with
  | int n =>
    dsimp only at read
    split at read
    · cases read
    · next positive =>
      split at read
      · next nearest =>
        cases read
        obtain ⟨sign, number⟩ := Binary64.isNegative_of_ofInt? (Int.not_lt.1 positive) nearest
        exact ⟨sign, fun same => absurd same number⟩
      · cases read
  | float x =>
    dsimp only at read
    split at read
    · cases read
    · next positive =>
      cases read
      exact ⟨Bool.eq_false_iff.2 positive, fun same => congrArg Json.float same⟩
  | _ => cases read

theorem head?_withoutDots (extension : String) :
    (withoutDots extension).toList.head? ≠ some '.' := by
  unfold withoutDots
  rw [String.toList_ofList, ← List.find?_not_eq_head?_dropWhile]
  intro dot
  exact absurd (List.find?_some dot) (by decide)

section Soundness

variable {members : List (String × Json)} {s : Settings}

/-- A number of seconds is not negative, unless what is given for it is no number. -/
theorem nonneg_iff_of_filled (once : (Json.names members).Nodup) {key : String}
    {get : Settings → Binary64} {put : Settings → Binary64 → Settings}
    (filled : Slot.Filled ⟨key, .seconds, seconds key, get, put⟩ (Json.get? members key) {} s)
    (start : 0 ≤ Quantity.real (get {})) :
    0 ≤ Quantity.real (get s) ↔ (key, .float .nan) ∉ members := by
  rw [← Json.get?_eq_some_iff once]
  cases found : Json.get? members key with
  | none =>
    rw [found] at filled
    change get s = get {} at filled
    exact iff_of_true (filled.symm ▸ start) nofun
  | some value =>
    rw [found] at filled
    change seconds key value = .ok (get s) at filled
    obtain ⟨sign, number⟩ := isNegative_of_seconds filled
    rw [nonneg_iff, and_iff_right sign, Option.some.injEq]
    refine not_congr ⟨number, ?_⟩
    rintro rfl
    exact (Except.ok.inj filled).symm

/-- No file extension begins with a dot. -/
theorem head?_of_filled {key : String} {put : Settings → List String → Settings}
    {given : Option Json}
    (filled : Slot.Filled ⟨key, .extensions, extensions key, fileExtensions, put⟩ given {} s) :
    ∀ extension ∈ s.fileExtensions, extension.toList.head? ≠ some '.' := by
  cases given with
  | none =>
    change s.fileExtensions = ["coffee"] at filled
    rw [filled]
    decide
  | some value =>
    change extensions key value = .ok s.fileExtensions at filled
    unfold extensions at filled
    split at filled
    · next found =>
      rw [← Except.ok.inj filled]
      exact List.forall_mem_map.2 fun extension _ => head?_withoutDots extension
    · cases filled

/-- Settings that are accepted are sound, unless a number of seconds is no number. -/
theorem sound_iff (once : (Json.names members).Nodup)
    (made : ({} : Settings).setAll members = .ok s) :
    Sound s ↔ ∀ slot ∈ slots, slot.kind = .seconds → (slot.key, .float .nan) ∉ members := by
  obtain ⟨ttl, delay, -, extensions, -, -⟩ := forall_slots.1 ((setAll_eq_ok_iff once).1 made)
  have ttl_iff := nonneg_iff_of_filled once ttl (by decide +kernel)
  have delay_iff := nonneg_iff_of_filled once delay (by decide +kernel)
  rw [forall_slots]
  constructor
  · intro sound
    exact ⟨fun _ => ttl_iff.1 sound.ttl, fun _ => delay_iff.1 sound.delay, nofun, nofun, nofun,
      nofun⟩
  · rintro ⟨ttl, delay, -⟩
    exact ⟨ttl_iff.2 (ttl rfl), delay_iff.2 (delay rfl), head?_of_filled extensions, by
      cases s.logLevel
      · exact .inl rfl
      · exact .inr rfl⟩

end Soundness

end Settings

/-! ## Faults -/

/-- A fault of the configuration, which a user is told about. -/
def Fault.IsConfiguration : Fault → Prop
  | .settingsNotObject _ | .sectionNotObject | .badSetting _ _ _ | .malformedSettingsFile _ => True
  | _ => False

namespace Settings

/-- The fault of a wrong value is one of the configuration when its message can be written. -/
theorem isConfiguration_refusal_iff {key : String} {kind : SettingKind} {value : Json} :
    (refusal key kind value).IsConfiguration ↔ value.obstacle? Json.showingLimit = none := by
  unfold refusal
  cases found : value.obstacle? Json.showingLimit with
  | none => exact iff_of_true trivial rfl
  | some obstacle => cases obstacle <;> exact iff_of_false not_false nofun

/-- Without a section there is a fault of the configuration. -/
theorem isConfiguration_of_sectionOf {value : Json} {fault : Fault}
    (failed : sectionOf value = .error fault) : fault.IsConfiguration := by
  unfold sectionOf at failed
  split at failed
  · split at failed
    · cases failed
    · cases failed
    · cases failed
      exact trivial
  · cases failed
    exact trivial

/-! ## The first refused member -/

section Refusals

variable {s : Settings} {slot : Slot} {value : Json} {fault : Fault}
  {members front rest : List (String × Json)}

/-- A member that is accepted: it has no slot, or its value is what it must be and can be
represented. -/
def Accepted (member : String × Json) : Prop :=
  ∀ slot ∈ slots, slot.key = member.1 →
    Admits slot.kind member.2 ∧ (slot.kind = .seconds → ¬ Overflows member.2)

theorem Reading.exists_ok_iff {α : Type} {key : String} {kind : SettingKind}
    {outcome : Except Fault α} (h : Reading key kind value outcome) :
    (∃ x, outcome = .ok x) ↔ Admits kind value ∧ (kind = .seconds → ¬ Overflows value) := by
  cases h with
  | accepted x admitted fits => exact iff_of_true ⟨x, rfl⟩ ⟨admitted, fits⟩
  | overflow second large => exact iff_of_false nofun fun both => both.2 second large
  | refused wrong => exact iff_of_false nofun fun both => wrong both.1

theorem Reading.fault_cases {α : Type} {key : String} {kind : SettingKind}
    (h : Reading key kind value (.error fault : Except Fault α)) :
    (kind = .seconds ∧ Overflows value ∧ fault = .numberTooLarge) ∨
      (¬ Admits kind value ∧ fault = refusal key kind value) := by
  cases h with
  | overflow second large => exact .inl ⟨second, large, rfl⟩
  | refused wrong => exact .inr ⟨wrong, rfl⟩

/-- A slot refuses the values that it does not admit, and integers that overflow. -/
theorem exists_fault_iff (known : slot ∈ slots) : (∃ fault, slot.read value = .error fault) ↔
    ¬ (Admits slot.kind value ∧ (slot.kind = .seconds → ¬ Overflows value)) := by
  rw [← (reading value slot known).exists_ok_iff]
  cases slot.read value with
  | ok x => exact iff_of_false nofun (not_not.2 ⟨x, rfl⟩)
  | error fault => exact iff_of_true ⟨fault, rfl⟩ nofun

/-- A member that is accepted can be taken into account, whatever the settings are. -/
theorem Accepted.exists_set {member : String × Json} (accepted : Accepted member) (s : Settings) :
    ∃ t, s.set member.1 member.2 = .ok t := by
  by_cases slotted : ∃ slot ∈ slots, slot.key = member.1
  · obtain ⟨slot, known, same⟩ := slotted
    obtain ⟨x, read⟩ := (reading member.2 slot known).exists_ok_iff.2 (accepted slot known same)
    rw [← same, set_of_mem s member.2 slot known, read]
    exact ⟨_, rfl⟩
  · exact ⟨s, set_of_unknown (fun slot known same => slotted ⟨slot, known, same⟩) s member.2⟩

theorem exists_setAll (accepted : ∀ member ∈ members, Accepted member) (s : Settings) :
    ∃ t, s.setAll members = .ok t := by
  induction members generalizing s with
  | nil => exact ⟨s, rfl⟩
  | cons member rest ih =>
    obtain ⟨own, others⟩ := List.forall_mem_cons.1 accepted
    obtain ⟨t, made⟩ := own.exists_set s
    rw [setAll_cons, made]
    exact ih others t

/-- **The first member that is refused decides.** -/
theorem setAll_of_refused (accepted : ∀ member ∈ front, Accepted member) (known : slot ∈ slots)
    (read : slot.read value = .error fault) (s : Settings) :
    s.setAll (front ++ (slot.key, value) :: rest) = .error fault := by
  induction front generalizing s with
  | nil =>
    rw [List.nil_append, setAll_cons, set_of_mem s value slot known, read]
    rfl
  | cons member front ih =>
    obtain ⟨own, others⟩ := List.forall_mem_cons.1 accepted
    obtain ⟨t, made⟩ := own.exists_set s
    rw [List.cons_append, setAll_cons, made]
    exact ih others t

/-- All members are accepted, or there is a first one that is refused. -/
theorem accepted_or_refused (members : List (String × Json)) :
    (∀ member ∈ members, Accepted member) ∨
      ∃ front slot value rest fault, members = front ++ (slot.key, value) :: rest ∧
        (∀ member ∈ front, Accepted member) ∧ slot ∈ slots ∧ slot.read value = .error fault := by
  induction members with
  | nil => exact .inl nofun
  | cons member rest ih =>
    by_cases own : Accepted member
    · refine ih.imp (fun others => List.forall_mem_cons.2 ⟨own, others⟩) ?_
      rintro ⟨front, slot, value, behind, fault, rfl, accepted, refused⟩
      exact ⟨member :: front, slot, value, behind, fault, rfl,
        List.forall_mem_cons.2 ⟨own, accepted⟩, refused⟩
    · refine .inr ?_
      unfold Accepted at own
      simp only [not_forall] at own
      obtain ⟨slot, known, same, wrong⟩ := own
      obtain ⟨fault, read⟩ := (exists_fault_iff known).2 wrong
      exact ⟨[], slot, member.2, rest, fault, by rw [same]; rfl, nofun, known, read⟩

end Refusals

/-! ## Settings from a value -/

theorem ofJson_eq {value : Json} {members : List (String × Json)}
    (section_ : sectionOf value = .ok members) : ofJson value = ({} : Settings).setAll members := by
  unfold ofJson
  rw [section_]
  rfl

/-- A value with other members in its section. -/
def withSection (members : List (String × Json)) : Json → Json
  | .obj outer =>
    if (Json.get? outer sectionName).isSome then
      .obj (Json.put outer sectionName (.obj members))
    else .obj members
  | value => value

/-- The section is the one that was set, if its members are some of those that were there. -/
theorem sectionOf_withSection {value : Json} {members members' : List (String × Json)}
    (section_ : sectionOf value = .ok members) (fewer : members' ⊆ members) :
    sectionOf (withSection members' value) = .ok members' := by
  cases value with
  | obj outer =>
    unfold withSection
    dsimp only
    cases found : Json.get? outer sectionName with
    | some inner =>
      rw [Option.isSome_some, if_pos rfl, sectionOf, Json.get?_put_self]
    | none =>
      rw [sectionOf, found] at section_
      cases section_
      have absent : Json.get? members' sectionName = none := by
        rw [Json.get?_eq_none_iff] at found ⊢
        intro member
        obtain ⟨entry, inside, same⟩ := List.mem_map.1 member
        exact found (same ▸ List.mem_map_of_mem (fewer inside))
      rw [Option.isSome_none, if_neg Bool.false_ne_true, sectionOf, absent]
  | _ => cases section_

/-- The three ways in which a value leads neither to sound settings nor to a fault of the
configuration. -/
inductive Escapes (value : Json) : Prop
  /-- The first refused member is an integer without a nearest number. -/
  | overflow {front rest : List (String × Json)} {slot : Slot} {large : Json}
      (section_ : sectionOf value = .ok (front ++ (slot.key, large) :: rest))
      (accepted : ∀ member ∈ front, Accepted member) (known : slot ∈ slots)
      (second : slot.kind = .seconds) (overflows : Overflows large)
  /-- The first refused member has a value of the wrong kind, which cannot be shown. -/
  | unshowable {front rest : List (String × Json)} {slot : Slot} {wrong : Json}
      (section_ : sectionOf value = .ok (front ++ (slot.key, wrong) :: rest))
      (accepted : ∀ member ∈ front, Accepted member) (known : slot ∈ slots)
      (refused : ¬ Admits slot.kind wrong)
      (obstacle : wrong.obstacle? Json.showingLimit ≠ none)
  /-- All members are accepted, and a number of seconds is no number. -/
  | notNumber {members : List (String × Json)} {slot : Slot}
      (section_ : sectionOf value = .ok members)
      (accepted : ∀ member ∈ members, Accepted member) (known : slot ∈ slots)
      (second : slot.kind = .seconds) (given : (slot.key, .float .nan) ∈ members)

/-- A value settles what the settings are, or that they are wrong, unless it escapes. -/
theorem ends_iff {value : Json}
    (once : ∀ members, sectionOf value = .ok members → (Json.names members).Nodup) :
    Ends (ofJson value) Sound Fault.IsConfiguration ↔ ¬ Escapes value := by
  constructor
  · intro ends escapes
    cases escapes with
    | overflow section_ accepted known second overflows =>
      obtain ⟨fault, read⟩ := exists_fault_iff known |>.2 fun both => both.2 second overflows
      have told := ends.of_error
        ((ofJson_eq section_).trans (setAll_of_refused accepted known read {}))
      rcases (read ▸ reading _ _ known).fault_cases with ⟨-, -, rfl⟩ | ⟨refused, -⟩
      · exact told
      · exact refused (second ▸ overflows.admitted)
    | unshowable section_ accepted known refused obstacle =>
      obtain ⟨fault, read⟩ := exists_fault_iff known |>.2 fun both => refused both.1
      have told := ends.of_error
        ((ofJson_eq section_).trans (setAll_of_refused accepted known read {}))
      rcases (read ▸ reading _ _ known).fault_cases with ⟨second, overflows, -⟩ | ⟨-, rfl⟩
      · exact refused (second ▸ overflows.admitted)
      · exact obstacle (isConfiguration_refusal_iff.1 told)
    | notNumber section_ accepted known second given =>
      obtain ⟨s, made⟩ := exists_setAll accepted {}
      have sound := ends.of_ok ((ofJson_eq section_).trans made)
      exact (sound_iff (once _ section_) made).1 sound _ known second given
  · intro settles
    cases section_ : sectionOf value with
    | error fault =>
      refine .error (by rw [ofJson, section_]; rfl) (isConfiguration_of_sectionOf section_)
    | ok members =>
      have outcome := ofJson_eq section_
      rcases accepted_or_refused members with accepted |
        ⟨front, slot, wrong, rest, fault, rfl, accepted, known, read⟩
      · obtain ⟨s, made⟩ := exists_setAll accepted {}
        refine .ok (outcome.trans made) ((sound_iff (once _ section_) made).2 ?_)
        exact fun slot known second given =>
          settles (.notNumber section_ accepted known second given)
      · refine .error (outcome.trans (setAll_of_refused accepted known read {})) ?_
        rcases (read ▸ reading wrong slot known).fault_cases with
          ⟨second, overflows, -⟩ | ⟨refused, rfl⟩
        · exact absurd (.overflow section_ accepted known second overflows) settles
        · refine isConfiguration_refusal_iff.2 (by_contra fun obstacle => ?_)
          exact settles (.unshowable section_ accepted known refused obstacle)

/-- **Settings are accepted or refused, and only their own members count.** For every value in whose
section no name stands twice, as in every object: it leads to sound settings or to a fault of the
configuration exactly when it does not escape. And where it leads to settings, it leads to the same
ones with the members of the section in any other order and without any of those that have no
slot. -/
theorem ofJson_settles_iff (value : Json)
    (once : ∀ members, sectionOf value = .ok members → (Json.names members).Nodup) :
    (Ends (ofJson value) Sound Fault.IsConfiguration ↔ ¬ Escapes value) ∧
      ∀ s, ofJson value = .ok s → ∃ members, sectionOf value = .ok members ∧
        ∀ members', members'.Subperm members →
          (∀ member ∈ members, (∃ slot ∈ slots, slot.key = member.1) → member ∈ members') →
          ofJson (withSection members' value) = .ok s := by
  refine ⟨ends_iff once, fun s made => ?_⟩
  cases section_ : sectionOf value with
  | error fault =>
    rw [ofJson, section_] at made
    cases made
  | ok members =>
    refine ⟨members, rfl, fun members' fewer kept => ?_⟩
    rw [ofJson_eq section_] at made
    rw [ofJson_eq (sectionOf_withSection section_ fewer.subset)]
    exact setAll_of_subperm (once members section_) fewer kept made

/-- Settings of an editor with a member of another version between them. -/
theorem ofJson_settles_editor :
    let dots : String × Json := ("fileExtensions", .arr [.str ".coffee", .str "..litcoffee"])
    let theme : String × Json := ("theme", .str "dark")
    let ttl : String × Json := ("cacheTtl", .int 60)
    let value : Json := .obj [("editor", .null), ("coffeemap", .obj [dots, theme, ttl])]
    ¬ Escapes value ∧ ∃ s, ofJson value = .ok s ∧ s.fileExtensions = ["coffee", "litcoffee"] ∧
      ofJson (withSection [ttl, dots] value) = .ok s := by
  intro dots theme ttl value
  have section_ : sectionOf value = .ok [dots, theme, ttl] := rfl
  have once : ∀ members, sectionOf value = .ok members → (Json.names members).Nodup := by
    intro members found
    obtain rfl := Except.ok.inj (section_.symm.trans found)
    decide
  have made : ofJson value = .ok
      { cacheTtl := .ofDecimal false 60 2 0, fileExtensions := ["coffee", "litcoffee"] } := by
    decide +kernel
  obtain ⟨settles, same⟩ := ofJson_settles_iff value once
  obtain ⟨members, found, other⟩ := same _ made
  obtain rfl := Except.ok.inj (section_.symm.trans found)
  refine ⟨settles.1 (.ok made ⟨?_, ?_, ?_, .inl rfl⟩), _, made, rfl, other _ ?_ ?_⟩
  · decide +kernel
  · decide +kernel
  · decide
  · exact ⟨[dots, ttl], .swap _ _ _, .cons_cons _ (.cons _ (.cons_cons _ .slnil))⟩
  · rintro member inside ⟨slot, known, same⟩
    have unknown : ∀ slot ∈ slots, slot.key ≠ "theme" := by decide
    simp only [List.mem_cons, List.not_mem_nil, or_false] at inside
    rcases inside with rfl | rfl | rfl
    · exact .tail _ (.head _)
    · exact absurd same (unknown slot known)
    · exact .head _

/-- What is no number passes as a number of seconds, and an integer that is too large for one is
neither accepted nor reported. -/
theorem ofJson_of_no_number :
    let beyond : Int := (Nat.pow 10 400 : Nat)
    (∃ s, ofJson (.obj [("cacheTtl", .float .nan)]) = .ok s ∧ ¬ Sound s) ∧
      ofJson (.obj [("cacheTtl", .int beyond)]) = .error .numberTooLarge ∧
      ¬ Fault.IsConfiguration .numberTooLarge := by
  intro beyond
  refine ⟨⟨{ cacheTtl := .nan }, by decide +kernel, fun sound => ?_⟩, by decide +kernel, not_false⟩
  exact absurd sound.ttl (by decide)

end Settings

end DialectBridge
