import DspCheck.Text.Search

/-!
# Dates and times of TOML

A *moment* is a date such as `1979-05-27`, a time of day such as `07:32:00.5`, or both of them, with
a letter `T` or a blank in between.  Only a time of day behind a date may have a zone: `Z`, or the
difference in hours and minutes.  The seconds may be left out.

Each reader below takes what it reads from the start of a text and returns the text behind it.
-/

namespace DspCheck
namespace Toml

/-- A number of exactly `count` digits. -/
def digits? (count : Nat) (t : Text) : Option (Nat × Text) :=
  let digits := t.take count
  if digits.length = count && digits.all Char.isDigit then
    some (Text.digitsValue digits, t.drop count)
  else none

/-- A number of two digits up to a greatest one. -/
def upTo? (greatest : Nat) (t : Text) : Option Text :=
  (digits? 2 t).bind fun p => if p.1 ≤ greatest then some p.2 else none

/-- Whether a year has a leap day. -/
def isLeap (year : Nat) : Bool :=
  year % 4 = 0 && (year % 100 ≠ 0 || year % 400 = 0)

/-- The number of days of a month. -/
def daysIn (year month : Nat) : Nat :=
  if month = 2 then if isLeap year then 29 else 28
  else if month = 4 || month = 6 || month = 9 || month = 11 then 30
  else 31

/-- A date. -/
def date? (t : Text) : Option Text := do
  let (year, t) ← digits? 4 t
  let (month, t) ← digits? 2 (← Text.after? "-" t)
  let (day, t) ← digits? 2 (← Text.after? "-" t)
  if 1 ≤ month && month ≤ 12 && 1 ≤ day && day ≤ daysIn year month then some t else none

/-- The part of a second, if there is a point. -/
def fraction? (t : Text) : Option Text :=
  match Text.after? "." t with
  | none => some t
  | some t => if t.head?.any Char.isDigit then some (t.dropWhile Char.isDigit) else none

/-- The seconds, if there is a colon.  A minute may have one second too many. -/
def seconds? (t : Text) : Option Text :=
  match Text.after? ":" t with
  | none => some t
  | some t => (upTo? 60 t).bind fraction?

/-- The hours and the minutes of a day. -/
def minutes? (t : Text) : Option Text := do
  upTo? 59 (← Text.after? ":" (← upTo? 23 t))

/-- A time of day. -/
def clock? (t : Text) : Option Text :=
  (minutes? t).bind seconds?

/-- Whether a text is a zone. -/
def isZone : Text → Bool
  | [] => false
  | c :: t =>
      if c = 'Z' || c = 'z' then t = []
      else (c = '+' || c = '-') && minutes? t = some []

/-- Whether a text is a time of day that may have a zone. -/
def isZonedClock (t : Text) : Bool :=
  match clock? t with
  | none => false
  | some rest => rest = [] || isZone rest

/-- Whether a text is a date. -/
def isDate (t : Text) : Bool :=
  date? t = some []

/-- Whether a text is a moment. -/
def isMoment (t : Text) : Bool :=
  match date? t with
  | none => clock? t = some []
  | some [] => true
  | some (c :: t) => (c = 'T' || c = 't' || c = ' ') && isZonedClock t

end Toml
end DspCheck
