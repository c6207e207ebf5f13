import Lox.Text

/-!
# Mistakes in a settings file

What can be wrong with a settings file before its fields are looked at: its bytes, its characters,
the order of its parts, or what its scalars are said to be.

A mistake in the form of the file names the line on which the faulty part starts, or, if that is the
first line, the line on which the mistake was noticed. Nothing is named if that is the first line
too.
-/

namespace Lox.Yaml

/-- A place in a file: the characters before it, its line and its column, all counted from zero. -/
structure Mark where
  index : Nat
  line : Nat
  column : Nat
  deriving DecidableEq, Repr

/-- The start of a file. -/
def Mark.origin : Mark := ⟨0, 0, 0⟩

/-- What is wrong with a file. -/
inductive Mistake
  | leadOctet
  | incompleteOctets
  | tailOctet
  | octetLength
  | scalarRange
  | incompleteUnit
  | unexpectedLow
  | incompletePair
  | expectedLow
  | control
  | unexpectedEnd
  | unexpectedIndicator
  | unknownEscape
  | hexNumber
  | escapeCode
  | tabInPlain
  | tabInBlock
  | lineRest
  | blockIndent
  | anchorName
  | tagMark
  | tagUri
  | tagBracket
  | tagGap
  | tagEnd
  | uriEscape
  | uriLead
  | uriTail
  | directiveName
  | directiveLetter
  | directiveUnknown
  | versionNumber
  | versionLength
  | versionPoint
  | noColon
  | valueNotAllowed
  | entryNotAllowed
  | keyNotAllowed
  | noToken
  | tooDeep (limit : Nat)
  | versionTwice
  | versionOther
  | handleTwice
  | handleUndefined
  | documentStart
  | nodeContent
  | expectedEntry
  | expectedKey
  | expectedComma (closing : Char)
  | unknownAnchor (name : Text)
  | anchorInItself (name : Text)
  | wrongTag (found value wanted : Text)
  | binary
  | mergeShape
  | unhashable (kind : Text)
  deriving DecidableEq, Repr

/-- The wording of a mistake. -/
def Mistake.message : Mistake → Text
  | leadOctet => utf8 "invalid leading UTF-8 octet"
  | incompleteOctets => utf8 "incomplete UTF-8 octet sequence"
  | tailOctet => utf8 "invalid trailing UTF-8 octet"
  | octetLength => utf8 "invalid length of a UTF-8 sequence"
  | scalarRange => utf8 "invalid Unicode character"
  | incompleteUnit => utf8 "incomplete UTF-16 character"
  | unexpectedLow => utf8 "unexpected low surrogate area"
  | incompletePair => utf8 "incomplete UTF-16 surrogate pair"
  | expectedLow => utf8 "expected low surrogate area"
  | control => utf8 "control characters are not allowed"
  | unexpectedEnd => utf8 "found unexpected end of stream"
  | unexpectedIndicator => utf8 "found unexpected document indicator"
  | unknownEscape => utf8 "found unknown escape character"
  | hexNumber => utf8 "did not find expected hexdecimal number"
  | escapeCode => utf8 "found invalid Unicode character escape code"
  | tabInPlain => utf8 "found a tab character that violates indentation"
  | tabInBlock => utf8 "found a tab character where an indentation space is expected"
  | lineRest => utf8 "did not find expected comment or line break"
  | blockIndent => utf8 "found an indentation indicator equal to 0"
  | anchorName => utf8 "did not find expected alphabetic or numeric character"
  | tagMark => utf8 "did not find expected '!'"
  | tagUri => utf8 "did not find expected tag URI"
  | tagBracket => utf8 "did not find the expected '>'"
  | tagGap => utf8 "did not find expected whitespace"
  | tagEnd => utf8 "did not find expected whitespace or line break"
  | uriEscape => utf8 "did not find URI escaped octet"
  | uriLead => utf8 "found an incorrect leading UTF-8 octet"
  | uriTail => utf8 "found an incorrect trailing UTF-8 octet"
  | directiveName => utf8 "could not find expected directive name"
  | directiveLetter => utf8 "found unexpected non-alphabetical character"
  | directiveUnknown => utf8 "found unknown directive name"
  | versionNumber => utf8 "did not find expected version number"
  | versionLength => utf8 "found extremely long version number"
  | versionPoint => utf8 "did not find expected digit or '.' character"
  | noColon => utf8 "could not find expected ':'"
  | valueNotAllowed => utf8 "mapping values are not allowed in this context"
  | entryNotAllowed => utf8 "block sequence entries are not allowed in this context"
  | keyNotAllowed => utf8 "mapping keys are not allowed in this context"
  | noToken => utf8 "found character that cannot start any token"
  | tooDeep limit => utf8 "exceeded max depth of " ++ Text.ofNat limit
  | versionTwice => utf8 "found duplicate %YAML directive"
  | versionOther => utf8 "found incompatible YAML document"
  | handleTwice => utf8 "found duplicate %TAG directive"
  | handleUndefined => utf8 "found undefined tag handle"
  | documentStart => utf8 "did not find expected <document start>"
  | nodeContent => utf8 "did not find expected node content"
  | expectedEntry => utf8 "did not find expected '-' indicator"
  | expectedKey => utf8 "did not find expected key"
  | expectedComma closing =>
    utf8 "did not find expected ',' or '" ++ Text.encode closing ++ utf8 "'"
  | unknownAnchor name => utf8 "unknown anchor '" ++ name ++ utf8 "' referenced"
  | anchorInItself name => utf8 "anchor '" ++ name ++ utf8 "' value contains itself"
  | wrongTag found value wanted =>
    utf8 "cannot decode " ++ found ++ utf8 " `" ++ value ++ utf8 "` as a " ++ wanted
  | binary => utf8 "!!binary value contains invalid base64 data"
  | mergeShape => utf8 "map merge requires map or sequence of maps as the value"
  | unhashable kind => utf8 "runtime error: hash of unhashable type " ++ kind

/-- A mistake with the line that it names. -/
structure Failure where
  mistake : Mistake
  line : Option Nat
  deriving DecidableEq, Repr

namespace Failure

/-- A mistake that names no line. -/
def bare (mistake : Mistake) : Failure := ⟨mistake, none⟩

/-- The line, counted from zero, that a mistake is named by. Zero if none is. -/
def anchorLine (start noticed : Mark) : Nat := if start.line == 0 then noticed.line else start.line

/-- A mistake in the characters of a file. Its line is counted from one. -/
def ofScan (mistake : Mistake) (start noticed : Mark) : Failure :=
  let line := anchorLine start noticed
  ⟨mistake, if line == 0 then none else some (line + 1)⟩

/-- A mistake in the order of the parts of a file. Its line is counted from zero. -/
def ofParse (mistake : Mistake) (start noticed : Mark) : Failure :=
  let line := anchorLine start noticed
  ⟨mistake, if line == 0 then none else some line⟩

/-- The wording of a mistake with its line. -/
def message (f : Failure) : Text :=
  match f.line with
  | some line => utf8 "line " ++ Text.ofNat line ++ utf8 ": " ++ f.mistake.message
  | none => f.mistake.message

end Failure

end Lox.Yaml
