import Lox.Number.Whole
import Lox.Text.Base64
import Lox.Yaml.Mistake
import Lox.Yaml.Timestamp

/-!
# What scalars mean

A plain scalar of a settings file may be written like a number, a truth value, a time or nothing at
all, and then it means that. Everything else is a string, as quoted scalars always are. An explicit
tag says what is meant; one that names no known type means a string.
-/

namespace Lox.Yaml

/-- What a scalar means. -/
inductive Meaning
  | null
  | bool (b : Bool)
  | int (n : Int)
  | float (x : Float)
  | time
  | string (t : Text)

/-- The types that a tag can name and that scalars are checked against. -/
inductive Kind
  | null
  | bool
  | int
  | float
  | time
  deriving DecidableEq, Repr

namespace Kind

/-- All types. -/
def all : List Kind := [null, bool, int, float, time]

/-- The tag of a type. -/
def tag : Kind → Text
  | null => utf8 "!!null"
  | bool => utf8 "!!bool"
  | int => utf8 "!!int"
  | float => utf8 "!!float"
  | time => utf8 "!!timestamp"

end Kind

/-- The tag of strings. -/
def stringTag : Text := utf8 "!!str"

/-- The tag of strings that are written in base 64. -/
def binaryTag : Text := utf8 "!!binary"

/-- The tag of the key that merges mappings. -/
def mergeTag : Text := utf8 "!!merge"

/-- The key that merges mappings. -/
def mergeKey : Text := utf8 "<<"

/-- The type of what is meant. Strings have none. -/
def Meaning.kind? : Meaning → Option Kind
  | null => some .null
  | bool _ => some .bool
  | int _ => some .int
  | float _ => some .float
  | time => some .time
  | string _ => none

/-- The tag of what is meant. -/
def Meaning.tag (m : Meaning) : Text := (m.kind?.map Kind.tag).getD stringTag

/-- The words with a meaning of their own. -/
def words : List (String × Meaning) :=
  [("", .null), ("~", .null), ("null", .null), ("Null", .null), ("NULL", .null),
    ("true", .bool true), ("True", .bool true), ("TRUE", .bool true),
    ("false", .bool false), ("False", .bool false), ("FALSE", .bool false),
    (".nan", .float notANumber), (".NaN", .float notANumber), (".NAN", .float notANumber),
    (".inf", .float (1.0 / 0.0)), (".Inf", .float (1.0 / 0.0)), (".INF", .float (1.0 / 0.0)),
    ("+.inf", .float (1.0 / 0.0)), ("+.Inf", .float (1.0 / 0.0)), ("+.INF", .float (1.0 / 0.0)),
    ("-.inf", .float (-1.0 / 0.0)), ("-.Inf", .float (-1.0 / 0.0)), ("-.INF", .float (-1.0 / 0.0))]

/-- The meaning of a word that has one of its own. -/
def wordMeaning? (t : Text) : Option Meaning := (words.find? fun w => utf8 w.1 == t).map Prod.snd

/-! ## Whole numbers -/

/-- The number that is read first in a sequence of ways. -/
def firstInt? : List (Except Whole.Mistake Int) → Option Int
  | [] => none
  | .ok n :: _ => some n
  | .error _ :: rest => firstInt? rest

/-- A whole number with a sign and a base, from the least of 64 bits with a sign to the greatest of
64 bits without. -/
def integer? (t : Text) : Option Int := firstInt? [Whole.signed t, (Whole.natural t).map Int.ofNat]

/-- A whole number after the mark of a base. There may be a second sign after the mark if there is
none before it. -/
def marked? (base : Nat) (mark : String) (t : Text) : Option Int :=
  if (utf8 mark).isPrefixOf t then
    let digits := t.drop mark.length
    firstInt? [Whole.signedIn base digits, (Whole.naturalIn base digits).map Int.ofNat]
  else if (0x2D :: utf8 mark).isPrefixOf t
    then firstInt? [Whole.signedIn base (0x2D :: t.drop (mark.length + 1))]
  else none

/-! ## Fractions -/

/-- Whether a text is digits, at least one. -/
def isDigits (t : Text) : Bool := !t.isEmpty && t.all Numeral.isDigit

/-- Whether a text is an exponent or nothing. -/
def isExponent : Text → Bool
  | [] => true
  | e :: rest => Numeral.lowerByte e == 0x65 && isDigits (Numeral.sign rest).2.2

/-- Whether a text is written as a decimal number. -/
def isDecimal (t : Text) : Bool :=
  let body := (Numeral.sign t).2.2
  let whole := body.takeWhile Numeral.isDigit
  match body.dropWhile Numeral.isDigit with
  | 0x2E :: rest =>
    let fraction := rest.takeWhile Numeral.isDigit
    !(whole.isEmpty && fraction.isEmpty) && isExponent (rest.dropWhile Numeral.isDigit)
  | rest => !whole.isEmpty && isExponent rest

/-! ## Scalars -/

/-- What a scalar means that starts like a number. It is a time only where one may stand. -/
def numeric (times : Bool) (t : Text) : Meaning :=
  if times && isTimestamp t then .time
  else
    let digits := t.filter (· != 0x5F)
    match integer? digits with
    | some n => .int n
    | none =>
      match isDecimal digits, Numeral.read? digits with
      | true, some x => .float x
      | _, _ =>
        match marked? 2 "0b" digits <|> marked? 8 "0o" digits with
        | some n => .int n
        | none => .string t

/-- What a scalar means by the way it is written. -/
def writtenMeaning (times : Bool) (t : Text) : Meaning :=
  match wordMeaning? t with
  | some meaning => meaning
  | none =>
    match t with
    | 0x2E :: _ => match Numeral.read? t with
      | some x => .float x
      | none => .string t
    | b :: _ => if b == 0x2B || b == 0x2D || Numeral.isDigit b then numeric times t else .string t
    | [] => .null

/-- What a scalar means that is said to be of a type. Whole numbers of 64 bits with a sign are also
fractions. -/
def Kind.meaning (kind : Kind) (value : Text) : Except Failure Meaning :=
  let found := writtenMeaning (kind == .time) value
  if found.kind? == some kind then .ok found
  else
    match kind, found with
    | .float, .int n => if n < Int.pow 2 63 then .ok (.float (Float.ofInt n)) else wrong found
    | _, _ => wrong found
where wrong (found : Meaning) : Except Failure Meaning :=
  .error (.bare (.wrongTag found.tag value kind.tag))

/-- The tag of a scalar: the one it has, or the one of what it means. -/
def scalarTag (tag : Option Text) (plain : Bool) (value : Text) : Text :=
  match tag with
  | some tag => tag
  | none =>
    if !plain then stringTag else if value == mergeKey then mergeTag
      else (writtenMeaning true value).tag

/-- What a scalar means. -/
def scalarMeaning (tag : Option Text) (plain : Bool) (value : Text) : Except Failure Meaning :=
  let tag := scalarTag tag plain value
  if tag == binaryTag then
    match Base64.decode? value with
    | some bytes => .ok (.string bytes)
    | none => .error (.bare .binary)
  else
    match Kind.all.find? fun kind => kind.tag == tag with
    | some kind => kind.meaning value
    | none => .ok (.string value)

end Lox.Yaml
