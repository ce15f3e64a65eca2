import QuantGraph.Toml.Quoted
import QuantGraph.Toml.Value

namespace QuantGraph.Toml

/-! Values that are written without marks around them: truth values, numbers,
dates and times. Of the last three only the form is checked. -/

namespace Literal

/-- The digits of a number. A single underscore may stand between two of them. -/
def isDigitRun (isDigit : Char → Bool) : List Char → Bool
  | [] => false
  | [char] => isDigit char
  | char :: '_' :: rest => isDigit char && isDigitRun isDigit rest
  | char :: rest => isDigit char && isDigitRun isDigit rest

/-- The number that digits stand for in a base. -/
def number (base : Nat) (digits : List Char) : Nat :=
  (digits.filterMap hexValue?).foldl (fun total digit => base * total + digit) 0

def dropSign : List Char → List Char
  | '+' :: rest | '-' :: rest => rest
  | text => text

/-! ## Numbers -/

/-- Decimal digits without a zero in front. -/
def isDecimal (text : List Char) : Bool :=
  isDigitRun Char.isDigit text && (text.length = 1 || text.head? ≠ some '0')

/-- Whole numbers have 64 bits. Those with a base in front have no sign. -/
def isInteger (text : List Char) : Bool :=
  match text with
  | '0' :: 'x' :: digits =>
      isDigitRun (fun char => (hexValue? char).isSome) digits && number 16 digits < Nat.pow 2 63
  | '0' :: 'o' :: digits =>
      isDigitRun (fun char => '0' ≤ char && char ≤ '7') digits && number 8 digits < Nat.pow 2 63
  | '0' :: 'b' :: digits =>
      isDigitRun (fun char => char = '0' || char = '1') digits && number 2 digits < Nat.pow 2 63
  | '-' :: digits => isDecimal digits && number 10 digits ≤ Nat.pow 2 63
  | text => isDecimal (dropSign text) && number 10 (dropSign text) < Nat.pow 2 63

/-- The parts of an unsigned number with a point or an exponent; `none` for a part
that is missing. -/
structure Fraction where
  whole : List Char
  decimals : Option (List Char)
  exponent : Option (List Char)

namespace Fraction

/-- Cut a number at its point and its exponent. -/
def ofText (text : List Char) : Fraction :=
  let isExponent (char : Char) : Bool := char = 'e' || char = 'E'
  let mantissa := text.takeWhile (!isExponent ·)
  { whole := mantissa.takeWhile (· ≠ '.')
    decimals := (mantissa.dropWhile (· ≠ '.')).tail?
    exponent := (text.dropWhile (!isExponent ·)).tail? }

def isWellFormed (parts : Fraction) : Bool :=
  isDecimal parts.whole && (parts.decimals.isSome || parts.exponent.isSome) &&
    parts.decimals.all (isDigitRun Char.isDigit) &&
    parts.exponent.all fun exponent => isDigitRun Char.isDigit (dropSign exponent)

def exponentValue (parts : Fraction) : Int :=
  match parts.exponent with
  | some ('-' :: digits) => -number 10 digits
  | some digits => number 10 digits
  | none => 0

/-- The least number that double precision rounds to infinity: halfway from the
largest double to the next power of two. -/
def overflow : Nat := Nat.pow 2 1024 - Nat.pow 2 970

/-- Whether double precision rounds the number to infinity. With `places` digits
before its point, the number is below `10 ^ places` and not below a tenth of
that, which decides all but one case without any large power. -/
def overflows (parts : Fraction) : Bool :=
  let decimals := (parts.decimals.getD []).filter Char.isDigit
  let digits := (parts.whole.filter Char.isDigit ++ decimals).dropWhile (· = '0')
  let exponent := parts.exponentValue - decimals.length
  let places := digits.length + exponent
  if digits.isEmpty || places < 309 then false
  else if 309 < places then true
  else
    match exponent with
    | .ofNat exponent => overflow ≤ number 10 digits * Nat.pow 10 exponent
    | .negSucc exponent => overflow * Nat.pow 10 (exponent + 1) ≤ number 10 digits

example : (ofText "1.7976931348623158e308".toList).overflows = false := by decide +kernel
example : (ofText "1.7976931348623159e308".toList).overflows = true := by decide +kernel
example : (ofText "0.0e999999".toList).overflows = false := by decide +kernel

end Fraction

/-- A sign, and then a number with a point or an exponent, or one of the two
special values. A positive number must not be too large for double precision. -/
def isFraction (text : List Char) : Bool :=
  let unsigned := dropSign text
  let parts := Fraction.ofText unsigned
  unsigned = ['i', 'n', 'f'] || unsigned = ['n', 'a', 'n'] ||
    (parts.isWellFormed && (text.head? = some '-' || !parts.overflows))

/-! ## Dates and times -/

def isLeapYear (year : Nat) : Bool := year % 4 = 0 && (year % 100 ≠ 0 || year % 400 = 0)

def daysInMonth (year month : Nat) : Nat :=
  if month = 2 then if isLeapYear year then 29 else 28
  else if month = 4 || month = 6 || month = 9 || month = 11 then 30
  else 31

/-- The number that exactly `count` digits at the front stand for. -/
def digits? (count : Nat) (text : List Char) : Option (Nat × List Char) :=
  let front := text.take count
  if front.length = count && front.all Char.isDigit then
    some (number 10 front, text.drop count)
  else none

def mark? (mark : Char) : List Char → Option (List Char)
  | char :: rest => if char = mark then some rest else none
  | [] => none

/-- Read a day of the calendar. -/
def date? (text : List Char) : Option (List Char) := do
  let (year, rest) ← digits? 4 text
  let (month, rest) ← digits? 2 (← mark? '-' rest)
  let (day, rest) ← digits? 2 (← mark? '-' rest)
  if 1 ≤ month && month ≤ 12 && 1 ≤ day && day ≤ daysInMonth year month then return rest
  else none

/-- Read the hours and minutes of a day. -/
def minutes? (text : List Char) : Option (List Char) := do
  let (hour, rest) ← digits? 2 text
  let (minute, rest) ← digits? 2 (← mark? ':' rest)
  if hour ≤ 23 && minute ≤ 59 then return rest else none

/-- Read a time of day. There is room for a leap second. -/
def time? (text : List Char) : Option (List Char) := do
  let (second, rest) ← digits? 2 (← mark? ':' (← minutes? text))
  if second > 60 then none
  else
    match rest with
    | '.' :: fraction =>
        if (fraction.takeWhile Char.isDigit).isEmpty then none
        else return fraction.dropWhile Char.isDigit
    | rest => return rest

/-- The text is the distance from universal time, or empty. -/
def isOffset (text : List Char) : Bool :=
  match text with
  | [] | ['Z'] | ['z'] => true
  | '+' :: rest | '-' :: rest => minutes? rest = some []
  | _ => false

/-- A time of day, with a distance from universal time if there is one. -/
def isTimeOfDate (text : List Char) : Bool :=
  match time? text with
  | some rest => isOffset rest
  | none => false

/-- A date with a time right behind it, or a time alone. -/
def isMoment (text : List Char) : Bool :=
  match date? text with
  | some ('T' :: time) | some ('t' :: time) => isTimeOfDate time
  | some _ => false
  | none => time? text = some []

/-! ## Reading -/

def isLiteralChar (char : Char) : Bool :=
  char.isAlphanum || char = '+' || char = '-' || char = '.' || char = ':' || char = '_'

/-- Past a date: a time may follow behind one blank. -/
def afterDate (text : List Char) : List Char :=
  match text with
  | ' ' :: following =>
      if isTimeOfDate (following.takeWhile isLiteralChar) then following.dropWhile isLiteralChar
      else text
  | _ => text

def read (text : List Char) : Option (Value × List Char) :=
  let literal := text.takeWhile isLiteralChar
  let rest := text.dropWhile isLiteralChar
  if literal = ['t', 'r', 'u', 'e'] then some (.boolean true, rest)
  else if literal = ['f', 'a', 'l', 's', 'e'] then some (.boolean false, rest)
  else if isInteger literal || isFraction literal then some (.number, rest)
  else if isMoment literal then some (.moment, rest)
  else if date? literal = some [] then some (.moment, afterDate rest)
  else none

end Literal

end QuantGraph.Toml
