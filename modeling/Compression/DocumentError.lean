import Compression.NumberText
import Compression.Timestamp
import Compression.Utf8

namespace Compression

inductive YamlError.Reason where
  | unprintable
  | unexpectedCharacter
  | missingColon
  | misplacedEntry
  | misplacedKey
  | misplacedValue
  | badDirective
  | badName
  | badTag
  | badBlockScalar
  | badEscape
  | unclosedScalar
  | misplacedSeparator
  | unexpectedToken
  | duplicateDirective
  | unknownVersion
  | unknownHandle
  | duplicateAnchor
  | unknownAlias
  | severalDocuments
  | unknownTag
  | wrongKind
  | unhashableKey
  | badMerge
  | badBase64
deriving DecidableEq

/-- A fault of a document and the line, counted from zero, on which it was found. -/
structure YamlError where
  reason : YamlError.Reason
  line : Nat := 0
deriving DecidableEq

def YamlError.Reason.text : YamlError.Reason → String
  | .unprintable => "special characters are not allowed"
  | .unexpectedCharacter => "found a character that cannot start any token"
  | .missingColon => "could not find expected ':'"
  | .misplacedEntry => "sequence entries are not allowed here"
  | .misplacedKey => "mapping keys are not allowed here"
  | .misplacedValue => "mapping values are not allowed here"
  | .badDirective => "malformed directive"
  | .badName => "malformed anchor or alias"
  | .badTag => "malformed tag"
  | .badBlockScalar => "malformed block scalar"
  | .badEscape => "unknown escape character"
  | .unclosedScalar => "found unexpected end of stream"
  | .misplacedSeparator => "found unexpected document separator"
  | .unexpectedToken => "found an unexpected token"
  | .duplicateDirective => "found a duplicate directive"
  | .unknownVersion => "found incompatible YAML document (version 1.* is required)"
  | .unknownHandle => "found undefined tag handle"
  | .duplicateAnchor => "found duplicate anchor"
  | .unknownAlias => "found undefined alias"
  | .severalDocuments => "expected a single document in the stream"
  | .unknownTag => "could not determine a constructor for the tag"
  | .wrongKind => "found a node of another kind than its tag asks for"
  | .unhashableKey => "found unhashable key"
  | .badMerge => "expected a mapping or list of mappings for merging"
  | .badBase64 => "failed to decode base64 data"

def YamlError.message (e : YamlError) : String :=
  s!"{e.reason.text} (line {e.line + 1})"

/-- Why a document cannot be read, or has no value. -/
inductive DocumentError where
  | malformed (e : YamlError)
  | notText (e : Utf8Error)
  /-- An escape whose number is no code point. -/
  | noCodePoint
  /-- An escape whose number does not even fit a signed word. -/
  | hugeCodePoint
  | tooDeep
  | badNumber (e : NumberError)
  | badTimestamp (e : TimestampError)
  /-- Text that should be true or false and is neither. -/
  | notATruth
  /-- Text that should be a number and is empty, or no more than a sign. -/
  | emptyNumber
  /-- So many places of sixty that the first of them is beyond all doubles. -/
  | tooManySixtieths
  /-- Text that should be a timestamp and does not have its form. -/
  | notATimestamp
  /-- A timestamp that stands in a mapping in place of its text. -/
  | wrappedTimestamp

def DocumentError.message : DocumentError → String
  | .malformed e => e.message
  | .notText e => e.message
  | .noCodePoint => "chr() arg not in range(0x110000)"
  | .hugeCodePoint => "the number of an escape is too large"
  | .tooDeep => "the document is nested too deeply"
  | .badNumber e => e.message
  | .badTimestamp e => e.message
  | .notATruth => "a truth value is neither true nor false"
  | .emptyNumber => "a number is empty"
  | .tooManySixtieths => "a number has too many places of sixty"
  | .notATimestamp => "a timestamp has another form"
  | .wrappedTimestamp => "a timestamp stands in a mapping"

/-- Whether an error is told as a fault of the document. All others end what asked for it. -/
def DocumentError.isReported : DocumentError → Bool
  | .malformed _ | .notText _ | .noCodePoint | .badNumber _ | .badTimestamp _ => true
  | .hugeCodePoint | .tooDeep | .notATruth | .emptyNumber | .tooManySixtieths | .notATimestamp
  | .wrappedTimestamp => false

/-- Why a document is not loaded. -/
inductive LoadError where
  | malformed (reason : String)
  | document (e : DocumentError)

def LoadError.ofDocument : DocumentError → LoadError
  | .malformed e => .malformed e.message
  | e => .document e

end Compression
