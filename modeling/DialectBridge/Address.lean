import DialectBridge.Address.Host
import DialectBridge.Utf8

/-!
# Addresses of documents

A document is addressed by a URI. The path of a `file` URI is what stands between the host and the
query or fragment, with its percent escapes resolved; any other address is its own path. Every
address is checked for a well-formed host, whatever its scheme.
-/

set_option autoImplicit false

namespace DialectBridge

namespace Address

/-- A character of a scheme. -/
def isSchemeChar (c : Char) : Bool := c.isAlphanum || c == '+' || c == '-' || c == '.'

/-- The address without leading controls and spaces, and without line breaks and tabs. -/
def normalize (t : Text) : Text :=
  (t.dropWhile fun c => c.toNat ≤ 32).filter fun c => c != '\t' && c != '\r' && c != '\n'

/-- The scheme in small letters and the rest, if the address begins with a scheme. -/
def splitScheme (t : Text) : Text × Text :=
  let scheme := t.takeWhile (· != ':')
  match t.drop scheme.length with
  | ':' :: rest =>
    if scheme.head?.any Char.isAlpha && scheme.all isSchemeChar then
      (scheme.map Char.toLower, rest)
    else ([], t)
  | _ => ([], t)

/-- The part that names the host, and the rest. -/
def splitAuthority (t : Text) : Text × Text :=
  match t with
  | '/' :: '/' :: rest =>
    let isEnd (c : Char) : Bool := c == '/' || c == '?' || c == '#'
    (rest.takeWhile (!isEnd ·), rest.dropWhile (!isEnd ·))
  | _ => ([], t)

/-- The value of two hexadecimal digits. -/
def escapeValue? (high low : Char) : Option Nat := do
  return (← Digits.hexValue? high) * 16 + (← Digits.hexValue? low)

/-- The bytes of ASCII text with percent escapes; a percent sign without two digits is itself. -/
def unescape : Text → List UInt8
  | [] => []
  | '%' :: high :: low :: rest =>
    match escapeValue? high low with
    | some value => value.toUInt8 :: unescape rest
    | none => 37 :: unescape (high :: low :: rest)
  | c :: rest => c.toNat.toUInt8 :: unescape rest

/-- Text with its percent escapes resolved. Escapes are decoded together only where no character
beyond ASCII stands between them. -/
def resolveFrom (run : Text) : Text → Text
  | [] => Utf8.decodeLossy (unescape run.reverse)
  | c :: rest =>
    if c.toNat < 0x80 then resolveFrom (c :: run) rest
    else Utf8.decodeLossy (unescape run.reverse) ++ c :: resolveFrom [] rest

/-- Text with its percent escapes resolved. -/
def resolve (t : Text) : Text := resolveFrom [] t

/-- The path of an address. -/
def toPath (uri : String) : Except Fault String := do
  let (scheme, rest) := splitScheme (normalize uri.toList)
  let (authority, rest) := splitAuthority rest
  Host.checkBrackets authority
  Host.checkSigns authority
  if scheme == "file".toList then
    return String.ofList (resolve ((rest.takeWhile (· != '#')).takeWhile (· != '?')))
  else return uri

/-- The address of a path: an absolute path becomes a `file` URI. -/
def ofPath (path : String) : String :=
  if path.toList.head? == some '/' then "file://" ++ path else path

/-- The extension of a path, from its last dot on. Dots at the beginning of a file name do not
begin an extension. -/
def extension (path : Text) : Text :=
  let name := (path.reverse.takeWhile (· != '/')).reverse
  let stem := name.dropWhile (· == '.')
  if stem.contains '.' then (stem.reverse.takeWhile (· != '.')).reverse else []

end Address

end DialectBridge
