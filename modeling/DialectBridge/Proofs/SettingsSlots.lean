import DialectBridge.Settings
import Mathlib.Data.List.Nodup
import Mathlib.Data.List.Perm.Subperm

/-!
# The slots of settings

Every setting has a slot: the name of its member, what its value must be, how that is read and where
it is kept. Taking a member into account fills its slot and no other one, and members without a slot
leave the settings as they are. So the settings that an object gives are known slot by slot from the
members with the names of the slots (`setAll_eq_ok_iff`). Neither their order nor other members
have a part in them (`setAll_of_subperm`).
-/

set_option autoImplicit false

namespace DialectBridge

/-! ## Members -/

namespace Json

variable {members members' : List (String × Json)} {key : String} {value : Json}

/-- The names of members. -/
def names (members : List (String × Json)) : List String := members.map (·.1)

theorem get?_cons (member : String × Json) (rest : List (String × Json)) (key : String) :
    get? (member :: rest) key = if member.1 = key then some member.2 else get? rest key := by
  unfold get?
  rw [List.find?_cons]
  by_cases same : member.1 = key
  · rw [if_pos same, beq_iff_eq.2 same]
    rfl
  · rw [if_neg same, beq_eq_false_iff_ne.2 same]

theorem get?_eq_none_iff : get? members key = none ↔ key ∉ names members := by
  unfold get? names
  rw [Option.map_eq_none_iff, List.find?_eq_none, List.mem_map]
  simp only [beq_iff_eq, not_exists, not_and]

/-- Among members with different names each one is found by its name. -/
theorem get?_eq_some_iff (once : (names members).Nodup) :
    get? members key = some value ↔ (key, value) ∈ members := by
  induction members with
  | nil => exact iff_of_false nofun List.not_mem_nil
  | cons member rest ih =>
    obtain ⟨name, own⟩ := member
    obtain ⟨fresh, once⟩ := List.nodup_cons.1 once
    rw [get?_cons, List.mem_cons, Prod.mk.injEq]
    dsimp only
    split
    · next same =>
      subst same
      have absent : (name, value) ∉ rest := fun member => fresh (List.mem_map.2 ⟨_, member, rfl⟩)
      rw [Option.some.injEq]
      exact ⟨fun h => .inl ⟨rfl, h.symm⟩, fun h => (h.resolve_right absent).2.symm⟩
    · next apart =>
      rw [ih once]
      exact ⟨.inr, fun h => h.resolve_left fun same => apart same.1.symm⟩

/-- A member is found where it is found among more members. -/
theorem get?_eq_of_subperm (once : (names members).Nodup) (fewer : members'.Subperm members)
    (kept : ∀ value, (key, value) ∈ members → (key, value) ∈ members') :
    get? members' key = get? members key := by
  have once' : (names members').Nodup := by
    obtain ⟨between, same, inside⟩ := fewer
    exact (same.map _).nodup (once.sublist (inside.map _))
  cases found : get? members key with
  | none =>
    rw [get?_eq_none_iff] at found ⊢
    intro member
    obtain ⟨entry, inside, rfl⟩ := List.mem_map.1 member
    exact found (List.mem_map_of_mem (fewer.subset inside))
  | some value => exact (get?_eq_some_iff once').2 (kept value ((get?_eq_some_iff once).1 found))

/-- What is set can be found. -/
theorem get?_put_self (members : List (String × Json)) (key : String) (value : Json) :
    get? (put members key value) key = some value := by
  induction members with
  | nil => rw [put, get?_cons, if_pos rfl]
  | cons member rest ih =>
    unfold put
    split
    · rw [get?_cons, if_pos rfl]
    · next apart => rw [get?_cons, if_neg (by simpa using apart), ih]

end Json

namespace Settings

/-! ## Slots -/

/-- A setting: the name of its member, what its value must be, how that is read, and where it is
kept. -/
structure Slot where
  {Value : Type}
  key : String
  kind : SettingKind
  read : Json → Except Fault Value
  get : Settings → Value
  put : Settings → Value → Settings

/-- All settings. -/
def slots : List Slot :=
  [⟨"cacheTtl", .seconds, seconds "cacheTtl", cacheTtl, fun s x => { s with cacheTtl := x }⟩,
    ⟨"validationDelay", .seconds, seconds "validationDelay", validationDelay,
      fun s x => { s with validationDelay := x }⟩,
    ⟨"ignoredErrorCodes", .codes, codes "ignoredErrorCodes", ignoredErrorCodes,
      fun s x => { s with ignoredErrorCodes := x }⟩,
    ⟨"fileExtensions", .extensions, extensions "fileExtensions", fileExtensions,
      fun s x => { s with fileExtensions := x }⟩,
    ⟨"logLevel", .logLevel, logLevelFrom "logLevel", logLevel,
      fun s x => { s with logLevel := x }⟩,
    ⟨"compilerScript", .path, optionalPath "compilerScript", compilerScript,
      fun s x => { s with compilerScript := x }⟩]

theorem eq_of_key_eq {slot other : Slot} (known : slot ∈ slots) (known' : other ∈ slots)
    (same : slot.key = other.key) : slot = other :=
  List.inj_on_of_nodup_map (by decide : (slots.map Slot.key).Nodup) known known' same

/-- A property of all settings, one by one. -/
theorem forall_slots {motive : Slot → Prop} :
    (∀ slot ∈ slots, motive slot) ↔ motive slots[0] ∧ motive slots[1] ∧ motive slots[2] ∧
      motive slots[3] ∧ motive slots[4] ∧ motive slots[5] := by
  simp [slots]

/-- What is put into a slot is there. -/
theorem get_put : ∀ slot ∈ slots, ∀ s x, slot.get (slot.put s x) = x :=
  forall_slots.2 ⟨fun _ _ => rfl, fun _ _ => rfl, fun _ _ => rfl, fun _ _ => rfl, fun _ _ => rfl,
    fun _ _ => rfl⟩

/-- What is put into a slot changes no other one. -/
theorem get_put_of_ne : ∀ slot ∈ slots, ∀ other ∈ slots, other.key ≠ slot.key →
    ∀ s x, other.get (slot.put s x) = other.get s := by
  simp only [forall_slots]
  refine ⟨?_, ?_, ?_, ?_, ?_, ?_⟩ <;> refine ⟨?_, ?_, ?_, ?_, ?_, ?_⟩ <;> intro apart s x <;>
    first | rfl | exact absurd rfl apart

/-- Settings are the same when all slots are. -/
theorem eq_of_slots {s t : Settings} (same : ∀ slot ∈ slots, slot.get s = slot.get t) : s = t := by
  obtain ⟨ttl, delay, codes, extensions, level, script⟩ := forall_slots.1 same
  cases s
  cases t
  cases ttl
  cases delay
  cases codes
  cases extensions
  cases level
  cases script
  rfl

/-- The member of a slot is read into it. -/
theorem set_of_mem (s : Settings) (value : Json) : ∀ slot ∈ slots,
    s.set slot.key value = slot.read value >>= fun x => .ok (slot.put s x) :=
  forall_slots.2 ⟨rfl, rfl, rfl, rfl, rfl, rfl⟩

/-- Members without a slot are ignored. -/
theorem set_of_unknown {key : String} (unknown : ∀ slot ∈ slots, slot.key ≠ key) (s : Settings)
    (value : Json) : s.set key value = .ok s := by
  obtain ⟨ttl, delay, codes, extensions, level, script⟩ := forall_slots.1 unknown
  unfold set
  split
  · exact absurd rfl ttl
  · exact absurd rfl delay
  · exact absurd rfl codes
  · exact absurd rfl extensions
  · exact absurd rfl level
  · exact absurd rfl script
  · rfl

/-! ## Settings from members -/

section Members

variable {members : List (String × Json)} {s t : Settings}

/-- The settings with all members taken into account, in order. -/
def setAll (s : Settings) (members : List (String × Json)) : Except Fault Settings :=
  members.foldlM (fun s member => s.set member.1 member.2) s

theorem setAll_cons (s : Settings) (member : String × Json) (rest : List (String × Json)) :
    s.setAll (member :: rest) = s.set member.1 member.2 >>= fun t => t.setAll rest :=
  List.foldlM_cons

/-- A slot goes over from settings to other ones: with the value that is given for it, or else as it
is. -/
def Slot.Filled (slot : Slot) (given : Option Json) (s t : Settings) : Prop :=
  match given with
  | some value => slot.read value = .ok (slot.get t)
  | none => slot.get t = slot.get s

/-- **Settings are known slot by slot**: each has what the member of its name gives, wherever that
stands among the others. -/
theorem setAll_eq_ok_iff (once : (Json.names members).Nodup) :
    s.setAll members = .ok t ↔ ∀ slot ∈ slots, slot.Filled (Json.get? members slot.key) s t := by
  induction members generalizing s with
  | nil =>
    constructor
    · rintro made slot -
      cases made
      rfl
    · intro same
      rw [eq_of_slots fun slot known => (same slot known).symm]
      rfl
  | cons member rest ih =>
    obtain ⟨key, value⟩ := member
    obtain ⟨fresh, later⟩ := List.nodup_cons.1 once
    rw [setAll_cons]
    by_cases slotted : ∃ slot ∈ slots, slot.key = key
    · obtain ⟨slot, known, rfl⟩ := slotted
      rw [set_of_mem s value slot known]
      cases read : slot.read value with
      | error fault =>
        refine iff_of_false nofun fun filled => ?_
        have own := filled slot known
        rw [Json.get?_cons, if_pos rfl, Slot.Filled, read] at own
        cases own
      | ok x =>
        change (slot.put s x).setAll rest = _ ↔ _
        rw [ih later]
        refine forall₂_congr fun other known' => ?_
        rw [Json.get?_cons]
        by_cases same : slot.key = other.key
        · obtain rfl := eq_of_key_eq known known' same
          rw [if_pos rfl, Json.get?_eq_none_iff.2 fresh, Slot.Filled, Slot.Filled,
            get_put slot known, read]
          exact ⟨fun h => congrArg Except.ok h.symm, fun h => (Except.ok.inj h).symm⟩
        · rw [if_neg same]
          cases Json.get? rest other.key with
          | none =>
            rw [Slot.Filled, Slot.Filled, get_put_of_ne slot known other known' (Ne.symm same)]
          | some value => rfl
    · have unknown : ∀ slot ∈ slots, slot.key ≠ key := fun slot known same =>
        slotted ⟨slot, known, same⟩
      rw [set_of_unknown unknown]
      change s.setAll rest = _ ↔ _
      rw [ih later]
      refine forall₂_congr fun slot known => ?_
      rw [Json.get?_cons, if_neg fun same => unknown slot known same.symm]

/-- Neither the order of the members nor those without a slot have a part in the settings. -/
theorem setAll_of_subperm {members' : List (String × Json)} (once : (Json.names members).Nodup)
    (fewer : members'.Subperm members)
    (kept : ∀ member ∈ members, (∃ slot ∈ slots, slot.key = member.1) → member ∈ members')
    (made : s.setAll members = .ok t) : s.setAll members' = .ok t := by
  have once' : (Json.names members').Nodup := by
    obtain ⟨between, same, inside⟩ := fewer
    exact (same.map _).nodup (once.sublist (inside.map _))
  refine (setAll_eq_ok_iff once').2 fun slot known => ?_
  rw [Json.get?_eq_of_subperm once fewer fun value member => kept _ member ⟨slot, known, rfl⟩]
  exact (setAll_eq_ok_iff once).1 made slot known

end Members

end Settings

end DialectBridge
