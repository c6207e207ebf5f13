import Lox.Yaml.Cursor

/-!
# Anchors, tags and directives of a settings file

An **anchor** is a name for a node, and a **reference** stands for the node with that name.

A **tag** says what a node is. It is an address between angle brackets, or a handle and a suffix. A
handle stands for the start of an address: a lone exclamation mark, two of them, or a word between
two of them.

A **directive** stands before a document. It gives the version of the format, or the meaning of a
handle.
-/

namespace Lox.Yaml

open Scan

/-- Reads the name of an anchor or a reference after its mark. -/
def anchorName : Scan Text := do
  let start ← mark
  skip
  let name ← takeWhile isNameChar
  let after ← rest
  if name.isEmpty || !(isGap after || after.head?.any "?:,]\x7d%@`".toList.contains)
    then fail .anchorName start
  else return Text.ofChars name

/-! ## Addresses -/

/-- Whether a character may stand in an address as it is. -/
def isUriChar (c : Char) : Bool := isNameChar c || ";/?:@&=+$,.!~*'()[]".toList.contains c

/-- Reads an octet that is written as two hexadecimal digits. -/
def uriOctet (start : Mark) : Scan UInt8 := do
  require 3
  match ← rest with
  | '%' :: a :: b :: _ =>
    match hexDigit? a, hexDigit? b with
    | some high, some low =>
      skips 3
      return UInt8.ofNat (high * 16 + low)
    | _, _ => fail .uriEscape start
  | _ => fail .uriEscape start

/-- Reads octets that continue a character. -/
def uriTail (start : Mark) : Nat → Scan Text
  | 0 => return []
  | n + 1 => do
    let octet ← uriOctet start
    if Scalar.isTail octet then return octet :: (← uriTail start n) else fail .uriTail start

/-- Reads a character that is written as octets. -/
def uriEscape (start : Mark) : Scan Text := do
  let lead ← uriOctet start
  match octetWidth? lead with
  | some width => return lead :: (← uriTail start (width - 1))
  | none => fail .uriLead start

/-- Reads the characters of an address, in a number of turns. -/
def uriChars (start : Mark) : Nat → Scan Text
  | 0 => return []
  | turns + 1 => do
    require 1
    match ← rest with
    | c :: _ =>
      if c == '%' then
        let octets ← uriEscape start
        return octets ++ (← uriChars start turns)
      else if isUriChar c then
        skip
        return Text.encode c ++ (← uriChars start turns)
      else return []
    | [] => return []

/-- Reads an address in a part that started at a place. What looked like a handle before it belongs
to it, less its exclamation mark; without that it is not empty. -/
def uri (start : Mark) (handle : List Char) : Scan Text := do
  let chars ← uriChars start (← turns)
  if handle.isEmpty && chars.isEmpty then fail .tagUri start
    else return Text.ofChars (handle.drop 1) ++ chars

/-! ## Tags -/

/-- Reads what may be a handle. In a directive it has to be one. -/
def tagHandle (directive : Bool) (start : Mark) : Scan (List Char) := do
  require 1
  if ← nextIs (· == '!') then
    skip
    let word ← takeWhile isNameChar
    if ← nextIs (· == '!') then
      skip
      return '!' :: word ++ ['!']
    else if directive && !word.isEmpty then fail .tagMark start
    else return '!' :: word
  else fail .tagMark start

/-- Reads a tag: its handle, which is empty if the tag is an address or a lone exclamation mark, and
the rest. -/
def tagParts : Scan (Text × Text) := do
  let start ← mark
  require 2
  let parts ← do
    match ← rest with
    | '!' :: '<' :: _ =>
      skips 2
      let address ← uri start []
      if ← nextIs (· == '>') then
        skip
        pure ([], address)
      else fail .tagBracket start
    | _ =>
      let handle ← tagHandle false start
      if 1 < handle.length && handle.getLast? == some '!' then
        let suffix ← uri start []
        pure (Text.ofChars handle, suffix)
      else
        let suffix ← uri start handle
        pure (if suffix.isEmpty then ([], utf8 "!") else (utf8 "!", suffix))
  require 1
  if isGap (← rest) then return parts else fail .tagEnd start

/-! ## Directives -/

/-- What a directive says. -/
inductive Directive
  | version (major minor : Nat)
  | handle (name address : Text)
  deriving DecidableEq, Repr

/-- The most digits of a number of a version. -/
def versionDigits : Nat := 2

/-- Reads a number of a version. -/
def versionNumber (start : Mark) : Scan Nat := do
  let digits ← takeWhile Char.isDigit
  if versionDigits < digits.length then fail .versionLength start
  else if digits.isEmpty then fail .versionNumber start
  else return digits.foldl (fun n c => n * 10 + (c.toNat - '0'.toNat)) 0

/-- Reads the version that a directive gives. -/
def versionDirective (start : Mark) : Scan Directive := do
  skipSpaces
  let major ← versionNumber start
  if ← nextIs (· == '.') then
    skip
    return .version major (← versionNumber start)
  else fail .versionPoint start

/-- Reads the handle and the address that a directive gives. -/
def handleDirective (start : Mark) : Scan Directive := do
  skipSpaces
  let handle ← tagHandle true start
  require 1
  if ← nextIs isSpace then
    skipSpaces
    let address ← uri start []
    require 1
    if isGap (← rest) then return .handle (Text.ofChars handle) address else fail .tagEnd start
  else fail .tagGap start

/-- Reads a directive that starts with its mark, to the end of its line. -/
def directive : Scan Directive := do
  let start ← mark
  skip
  let name ← takeWhile isNameChar
  if name.isEmpty then fail .directiveName start
  else if !isGap (← rest) then fail .directiveLetter start
  else
    let found ←
      if name == "YAML".toList then versionDirective start
      else if name == "TAG".toList then handleDirective start
      else fail .directiveUnknown start
    skipSpaces
    if ← nextIs (· == '#') then discard (takeWhile fun c => !isBreak c)
    if !isLineEnd (← rest) then fail .lineRest start
    else
      if ← nextIs isBreak then
        require 2
        discard skipBreak
      return found

end Lox.Yaml
