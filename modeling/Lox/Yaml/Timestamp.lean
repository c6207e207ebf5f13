import Lox.Number.Numeral

/-!
# Times in a settings file

A time is a year of four digits, a month and a day with hyphens between, alone or with a time of
day. The time of day follows a letter and has a zone, or follows spaces and has none. Numbers other
than the year have one or two digits, and seconds may have a fraction.
-/

namespace Lox.Yaml.Timestamp

/-- Whether a year has a day more. -/
def isLeap (year : Nat) : Bool := year % 4 == 0 && (year % 100 != 0 || year % 400 == 0)

/-- The number of days of a month. -/
def daysIn (year month : Nat) : Nat :=
  if month == 2 then if isLeap year then 29 else 28
  else if month == 4 || month == 6 || month == 9 || month == 11 then 30
  else 31

/-- Reads a number of one or two digits. -/
def short? : Text → Option (Nat × Text)
  | a :: b :: rest => do
    let high ← Numeral.digitValue? 10 a
    match Numeral.digitValue? 10 b with
    | some low => return (high * 10 + low, rest)
    | none => return (high, b :: rest)
  | [a] => do return (← Numeral.digitValue? 10 a, [])
  | [] => none

/-- Passes over a character. -/
def mark? (c : Char) : Text → Option Text
  | b :: rest => if b.toNat == c.toNat then some rest else none
  | [] => none

/-- Reads a date, and gives what follows it. -/
def date? (t : Text) : Option Text := do
  let year := t.takeWhile Numeral.isDigit
  guard (year.length == 4)
  let (month, t) ← short? (← mark? '-' (t.drop 4))
  guard (1 ≤ month && month ≤ 12)
  let (day, t) ← short? (← mark? '-' t)
  guard (1 ≤ day && day ≤ daysIn (Numeral.value 10 0 year) month)
  return t

/-- What follows the fraction of a second, if there is one. -/
def afterFraction : Text → Text
  | point :: digit :: rest =>
    if (point == 0x2E || point == 0x2C) && Numeral.isDigit digit then rest.dropWhile Numeral.isDigit
    else point :: digit :: rest
  | t => t

/-- Reads a time of day, and gives what follows it. -/
def clock? (t : Text) : Option Text := do
  let (hour, t) ← short? t
  guard (hour < 24)
  let (minute, t) ← short? (← mark? ':' t)
  guard (minute < 60)
  let (second, t) ← short? (← mark? ':' t)
  guard (second < 60)
  return afterFraction t

/-- Whether a text is a zone: none at all, or hours and minutes of two digits with a sign. -/
def isZone : Text → Bool
  | [0x5A] => true
  | [sign, a, b, colon, c, d] =>
    (sign == 0x2B || sign == 0x2D) && colon == 0x3A && [a, b, c, d].all Numeral.isDigit &&
      Numeral.value 10 0 [a, b] ≤ 24 && Numeral.value 10 0 [c, d] ≤ 60
  | _ => false

/-- Whether a text is a time of day after a date. -/
def isClock : Text → Bool
  | b :: rest =>
    if b == 0x54 || b == 0x74 then (clock? rest).any isZone
    else b == 0x20 && (clock? (rest.dropWhile (· == 0x20))).any List.isEmpty
  | [] => false

end Timestamp

/-- Whether a text is a time. -/
def isTimestamp (t : Text) : Bool :=
  (Timestamp.date? t).any fun rest => rest.isEmpty || Timestamp.isClock rest

end Lox.Yaml
