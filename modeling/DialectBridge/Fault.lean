import DialectBridge.Text.Quoted

/-!
# Faults

Everything that can stop an operation, by cause. The wording of each fault is in one place,
`Fault.message`; the rest of the library only names causes.
-/

set_option autoImplicit false

namespace DialectBridge

/-- What a setting has to be. -/
inductive SettingKind where
  /-- A non-negative number of seconds. -/
  | seconds
  /-- A list of diagnostic codes. -/
  | codes
  /-- A list of file extensions. -/
  | extensions
  /-- The name of a log level. -/
  | logLevel
  /-- A path, or nothing. -/
  | path
  deriving DecidableEq, Repr

/-- What the value of a setting of this kind must be, as messages say it. -/
def SettingKind.requirement : SettingKind → String
  | .seconds => "a non-negative number"
  | .codes => "a list of integers"
  | .extensions => "a list of strings"
  | .logLevel => "one of INFO, DEBUG"
  | .path => "a path"

/-- What can be wrong with the part of an address that names its host. -/
inductive HostFlaw where
  /-- An opening bracket without a closing one or the reverse, or text directly beside the brackets
  of a host. -/
  | misplacedBrackets
  /-- A host of a version still to come that is not well-formed. -/
  | malformedFuture
  /-- A version 4 address in brackets. -/
  | bracketedVersion4
  /-- Something else in brackets than an address. -/
  | noAddress (host : String)
  /-- A character that is one of the dividing signs in disguise. -/
  | disguisedSign (authority : String)
  deriving DecidableEq, Repr

/-- The wording of a flaw. -/
def HostFlaw.message : HostFlaw → String
  | .misplacedBrackets => "Invalid IPv6 URL"
  | .malformedFuture => "IPvFuture address is invalid"
  | .bracketedVersion4 => "An IPv4 address cannot be in brackets"
  | .noAddress host => Quoted.display host ++ " does not appear to be an IPv4 or IPv6 address"
  | .disguisedSign authority =>
    "netloc '" ++ authority ++ "' contains invalid characters under NFKC normalization"

/-- Why a file cannot be read. -/
inductive FileFlaw where
  /-- There is nothing of this name. -/
  | missing
  /-- The name is that of a directory. -/
  | isDirectory
  /-- The name goes on behind that of a file. -/
  | throughFile
  /-- The name, or one of its parts, is longer than names may be. -/
  | nameTooLong
  /-- The name has a null character in it. -/
  | nullCharacter
  deriving DecidableEq, Repr

/-- The wording of a flaw of the file with the given name. -/
def FileFlaw.message (name : String) : FileFlaw → String
  | .missing => "[Errno 2] No such file or directory: " ++ Quoted.display name
  | .isDirectory => "[Errno 21] Is a directory: " ++ Quoted.display name
  | .throughFile => "[Errno 20] Not a directory: " ++ Quoted.display name
  | .nameTooLong => "[Errno 36] File name too long: " ++ Quoted.display name
  | .nullCharacter => "embedded null byte"

/-- The two kinds of JSON values that have others in them. -/
inductive Nesting where
  | array
  | object
  deriving DecidableEq, Repr

/-- The name of a kind of nesting. -/
def Nesting.name : Nesting → String
  | .array => "array"
  | .object => "object"

/-- A field of an answer that must not be null. -/
inductive NullField where
  /-- The first line of an error. -/
  | firstLine
  /-- The first column of an error. -/
  | firstColumn
  /-- The location of an error. -/
  | location
  /-- The entries of a map. -/
  | rows
  /-- The generated text. -/
  | js
  deriving DecidableEq, Repr

/-- The wording for a field that is null. -/
def NullField.message : NullField → String
  | .firstLine => "Position.line should be in range [0:2147483647], but was None."
  | .firstColumn => "Position.character should be in range [0:2147483647], but was None."
  | .location => "'NoneType' object is not subscriptable"
  | .rows => "'NoneType' object is not iterable"
  | .js => "'NoneType' object has no attribute 'split'"

/-- The causes for which an operation ends without an answer. -/
inductive Fault where
  /-- A position on a line outside the addressable range. -/
  | lineOutOfRange (value : Int)
  /-- A position at a character outside the addressable range. -/
  | characterOutOfRange (value : Int)
  /-- A search for a word behind the end of the text. -/
  | wordPastEnd
  /-- A line that a list of lines does not have: behind its end or, counted from its end, in front
  of its beginning. -/
  | linePastEnd
  /-- A result that has neither generated text nor diagnostics. -/
  | emptyResult
  /-- A result with a fake line and no source map. -/
  | fakeLineWithoutMap
  /-- A result with a fake line that does not say how it came about. -/
  | fakeLineWithoutMechanism
  /-- A name that is not the name of a fake-line mechanism. -/
  | unknownMechanism (name : String)
  /-- A compiled fake line whose placeholder is not in the output. -/
  | placeholderMissing (uri : String)
  /-- A compiled fake line whose placeholder is not a member access any more. -/
  | placeholderDetached (uri : String)
  /-- The dialect compiler itself broke down. -/
  | runtimeFailed (message : String)
  /-- An answer of the dialect compiler lacks a field. -/
  | missingField (name : String)
  /-- A field of an answer of the dialect compiler is null. -/
  | nullField (field : NullField)
  /-- An address whose host is not well-formed. -/
  | malformedHost (flaw : HostFlaw)
  /-- Settings that are not an object; the word names what they are instead. -/
  | settingsNotObject (found : String)
  /-- The section of the settings is not an object. -/
  | sectionNotObject
  /-- A setting with a value of the wrong kind, shown as in the message. -/
  | badSetting (key : String) (kind : SettingKind) (shown : String)
  /-- A settings file that is not well-formed. -/
  | malformedSettingsFile (path : String)
  /-- An integer beyond the range of floating-point numbers. -/
  | numberTooLarge
  /-- An integer with more digits than are read. -/
  | integerTooLong (digits : Nat)
  /-- An integer with more digits than are written, in a value that a message has to show. -/
  | integerUnwritable
  /-- A value inside too many others, in a value that a message has to show. -/
  | shownTooDeep
  /-- A JSON value that is nested too deeply. -/
  | nestedTooDeep (nesting : Nesting)
  /-- A position argument that cannot be read. -/
  | malformedPosition (value : String)
  /-- A file that cannot be read. -/
  | unreadableFile (name : String) (flaw : FileFlaw)
  /-- A file that is not encoded in UTF-8. -/
  | undecodableFile
  /-- A text with halves of surrogate pairs, which has no encoding: the number of the first half, its
  offset, and how many halves stand there in a row. -/
  | unencodable (half start count : Nat)
  deriving DecidableEq, Repr

/-- The wording of a fault. -/
def Fault.message : Fault → String
  | .lineOutOfRange value =>
    s!"Position.line should be in range [0:2147483647], but was {value}."
  | .characterOutOfRange value =>
    s!"Position.character should be in range [0:2147483647], but was {value}."
  | .wordPastEnd => "string index out of range"
  | .linePastEnd => "list index out of range"
  | .emptyResult => "a result without js must carry diagnostics"
  | .fakeLineWithoutMap => "a fake line requires a source map"
  | .fakeLineWithoutMechanism => "a fake line requires its mechanism"
  | .unknownMechanism name => Quoted.display name ++ " is not a valid FakeLineMechanism"
  | .placeholderMissing uri => "could not find fake line placeholder in output " ++ uri
  | .placeholderDetached uri => "fake line placeholder lost its member access " ++ uri
  | .runtimeFailed message => message
  | .missingField name => Quoted.display name
  | .nullField field => field.message
  | .malformedHost flaw => flaw.message
  | .settingsNotObject found => "settings must be an object, got " ++ found
  | .sectionNotObject => "'coffeemap' settings must be an object"
  | .badSetting key kind shown => key ++ " must be " ++ kind.requirement ++ ", got " ++ shown
  | .malformedSettingsFile path => "invalid settings file " ++ path ++ ": <json error>"
  | .numberTooLarge => "int too large to convert to float"
  | .integerTooLong digits =>
    "Exceeds the limit (4300 digits) for integer string conversion: " ++
      s!"value has {digits} digits; use sys.set_int_max_str_digits() to increase the limit"
  | .integerUnwritable =>
    "Exceeds the limit (4300 digits) for integer string conversion; " ++
      "use sys.set_int_max_str_digits() to increase the limit"
  | .shownTooDeep => "maximum recursion depth exceeded while getting the repr of an object"
  | .nestedTooDeep nesting =>
    "maximum recursion depth exceeded while decoding a JSON " ++ nesting.name ++
      " from a unicode string"
  | .malformedPosition value => "invalid position '" ++ value ++ "', expected LINE:COL"
  | .unreadableFile name flaw => flaw.message name
  | .undecodableFile => "the file is not encoded in UTF-8"
  | .unencodable half start count =>
    if count = 1 then
      "'utf-8' codec can't encode character '\\u" ++ String.ofList (Quoted.hex 4 half) ++
        s!"' in position {start}: surrogates not allowed"
    else
      s!"'utf-8' codec can't encode characters in position {start}-{start + count - 1}: " ++
        "surrogates not allowed"

end DialectBridge
