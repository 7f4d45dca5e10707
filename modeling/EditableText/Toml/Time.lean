import EditableText.Toml.Scan

namespace EditableText.Toml.Time

open Scan

def digit : Scan Nat := do
  let c ← next
  check c.isDigit
  return c.toNat - '0'.toNat

def twoDigits : Scan Nat := do
  let tens ← digit
  let ones ← digit
  return tens * 10 + ones

def between (low high : Nat) : Scan Unit := do
  let n ← twoDigits
  check (low ≤ n && n ≤ high)

def isLeap (year : Nat) : Bool := year % 4 == 0 && (year % 100 != 0 || year % 400 == 0)

def daysIn (year month : Nat) : Nat :=
  if month = 2 then (if isLeap year then 29 else 28)
  else if month ∈ [4, 6, 9, 11] then 30
  else 31

def date : Scan Unit := do
  let century ← twoDigits
  let years ← twoDigits
  char '-'
  let month ← twoDigits
  check (1 ≤ month && month ≤ 12)
  char '-'
  between 1 (daysIn (century * 100 + years) month)

def fraction : Scan Unit := do
  char '.'
  let _ ← takeSome Char.isDigit

def time : Scan Unit := do
  between 0 23
  char ':'
  between 0 59
  char ':'
  between 0 60
  let _ ← optional fraction

def offset : Scan Unit := do
  let c ← next
  if c = 'Z' ∨ c = 'z' then return
  check (c == '+' || c == '-')
  between 0 23
  char ':'
  between 0 59

def timeWithOffset : Scan Unit := do
  time
  let _ ← optional offset

def dateAndTime : Scan Unit := do
  date
  let c ← next
  check (c == 'T' || c == 't')
  timeWithOffset

def isDate (t : Text) : Bool := (readAll? date t).isSome

def isTimeWithOffset (t : Text) : Bool := (readAll? timeWithOffset t).isSome

def isDateTime (t : Text) : Bool :=
  isDate t || (readAll? time t).isSome || (readAll? dateAndTime t).isSome

end EditableText.Toml.Time
