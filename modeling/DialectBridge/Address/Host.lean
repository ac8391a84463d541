import DialectBridge.Fault
import DialectBridge.Number.Digits

/-!
# Hosts in brackets

The host of an address may stand in brackets; it then has to be an address of version 6, with a
zone or without, or one of a version still to come. What stands before the last at sign names a user
and is not looked at; nothing may stand before the brackets, and behind them only what a colon
begins.
-/

set_option autoImplicit false

namespace DialectBridge

namespace Host

/-- One of the four numbers of a version 4 address: up to three digits without leading zeros, at
most 255. -/
def isOctet (t : Text) : Bool :=
  !t.isEmpty && t.all Char.isDigit && t.length ≤ 3 && Digits.decimalValue t ≤ 255 &&
    (t.length == 1 || t.head? != some '0')

/-- A version 4 address. -/
def isVersion4 (t : Text) : Bool :=
  let octets := Text.splitOn '.' t
  octets.length == 4 && octets.all isOctet

/-- One group of a version 6 address: up to four hexadecimal digits. -/
def isGroup (t : Text) : Bool := t.length ≤ 4 && t.all Digits.isHex

/-- The groups of an address, where a version 4 address at the end stands for two groups. -/
def groups? (t : Text) : Option (List Text) :=
  let pieces := Text.splitOn ':' t
  match Text.splitLast? t, pieces.getLast? with
  | some _, some last =>
    if pieces.length < 3 then none
    else if last.contains '.' then
      if isVersion4 last then some (pieces.dropLast ++ [['0'], ['0']]) else none
    else some pieces
  | _, _ => none

/-- Groups with one gap, at the given index, that stands for at least one group of zeros. -/
def isGapped (groups : List Text) (gap : Nat) : Bool :=
  let front := groups.take gap
  let back := groups.drop (gap + 1)
  let front := if front.head? == some [] then front.drop 1 else front
  let openFront := groups.head? == some []
  let back' := if back.getLast? == some [] then back.dropLast else back
  let openBack := back.getLast? == some []
  (!openFront || front.isEmpty) && (!openBack || back'.isEmpty) &&
    front.length + back'.length < 8 && front.all isGroup && back'.all isGroup

/-- The groups of a version 6 address: eight of them, or fewer with one gap. -/
def areGroups (groups : List Text) : Bool :=
  let inner := (groups.drop 1).dropLast
  if 9 < groups.length then false
  else
    match inner.zipIdx.filter fun entry => entry.1.isEmpty with
    | [] => groups.length == 8 && groups.all fun group => !group.isEmpty && isGroup group
    | [(_, index)] => isGapped groups (index + 1)
    | _ => false

/-- A version 6 address, perhaps with a zone behind a percent sign. -/
def isVersion6 (t : Text) : Bool :=
  let address := t.takeWhile (· != '%')
  let zoneOk :=
    match t.drop address.length with
    | [] => true
    | _ :: zone => !zone.isEmpty && !zone.contains '%'
  zoneOk && !t.contains '/' && ((groups? address).any areGroups)

/-- An address of a version still to come: `v`, hexadecimal digits, a point and something more. -/
def isFuture (t : Text) : Bool :=
  match t with
  | 'v' :: rest =>
    let version := rest.takeWhile Digits.isHex
    match rest.drop version.length with
    | '.' :: c :: more => !version.isEmpty && !(c :: more).contains '\n'
    | _ => false
  | _ => false

/-- Checks a host that stands in brackets. -/
def checkBracketed (t : Text) : Except Fault Unit :=
  if t.head? == some 'v' then
    if isFuture t then .ok () else .error (.malformedHost .malformedFuture)
  else if isVersion4 t then .error (.malformedHost .bracketedVersion4)
  else if isVersion6 t then .ok ()
  else .error (.malformedHost (.noAddress (Text.toString t)))

/-- Characters whose compatibility form has one of the signs that divide an address. -/
def disguisedSigns : List Nat :=
  [0x2047, 0x2048, 0x2049, 0x2100, 0x2101, 0x2105, 0x2106, 0x2A74, 0xFE13, 0xFE16, 0xFE55, 0xFE56,
    0xFE5F, 0xFE6B, 0xFF03, 0xFF0F, 0xFF1A, 0xFF1F, 0xFF20]

/-- The part without the user: what stands behind the last at sign. -/
def withoutUser (authority : Text) : Text := (authority.reverse.takeWhile (· != '@')).reverse

/-- The host that the brackets are about: what they enclose, or else what stands before a colon when
the brackets belong to the user. -/
def bracketedHost (t : Text) : Except Fault Text :=
  match t.dropWhile (· != '[') with
  | [] => .ok (t.takeWhile (· != ':'))
  | _ :: inside =>
    let behind := (inside.dropWhile (· != ']')).drop 1
    if t.head? != some '[' || (!behind.isEmpty && behind.head? != some ':') then
      .error (.malformedHost .misplacedBrackets)
    else .ok (inside.takeWhile (· != ']'))

/-- Checks the brackets of the part of an address that names the host. -/
def checkBrackets (authority : Text) : Except Fault Unit :=
  if authority.contains '[' != authority.contains ']' then
    .error (.malformedHost .misplacedBrackets)
  else if authority.contains '[' then do
    checkBracketed (← bracketedHost (withoutUser authority))
  else .ok ()

/-- Checks that no character of the part that names the host is a dividing sign in disguise. -/
def checkSigns (authority : Text) : Except Fault Unit :=
  if authority.any fun c => disguisedSigns.contains c.toNat then
    .error (.malformedHost (.disguisedSign (Text.toString authority)))
  else .ok ()

end Host

end DialectBridge
