import DocBlock.Yaml.Fault

/-! Dates, with or without a time of day and a distance from universal time. -/

namespace DocBlock.Yaml

structure TimeOfDay where
  hour : Nat
  minute : Nat
  second : Nat
  /-- Minutes ahead of universal time, where given. -/
  offset : Option Int := none
  deriving DecidableEq, Repr, Inhabited

structure Timestamp where
  year : Nat
  month : Nat
  day : Nat
  /-- Month and day are both written with two digits. -/
  isWide : Bool
  time : Option TimeOfDay := none
  deriving DecidableEq, Repr, Inhabited

namespace Timestamp

/-- A number of `least` to `most` digits, how many they are, and what follows. -/
def number? (least most : Nat) (cs : List Char) : Option (Nat × Nat × List Char) :=
  let ds := (cs.takeWhile Char.isDigit).take most
  if ds.length < least then none
  else some (ds.foldl (fun n c => n * 10 + (c.toNat - '0'.toNat)) 0, ds.length, cs.drop ds.length)

def after? (c : Char) : List Char → Option (List Char)
  | d :: cs => if c = d then some cs else none
  | [] => none

def isSpacer (c : Char) : Bool := c = ' ' || c = '\t'

/-- The distance from universal time that ends a timestamp. -/
def offset? (cs : List Char) : Option (Option Int) :=
  if cs.isEmpty then some none
  else
    match cs.dropWhile isSpacer with
    | ['Z'] => some (some 0)
    | sign :: cs => do
      if sign ≠ '+' && sign ≠ '-' then none
      let (hours, _, cs) ← number? 1 2 cs
      let (minutes, cs) ←
        match cs with
        | ':' :: cs => (number? 2 2 cs).map fun (n, _, cs) => (n, cs)
        | cs => some (0, cs)
      let total : Int := hours * 60 + minutes
      if cs.isEmpty then some (some (if sign = '-' then -total else total)) else none
    | [] => none

def dropFraction : List Char → List Char
  | '.' :: cs => cs.dropWhile Char.isDigit
  | cs => cs

/-- What separates the time from the date: one letter or some blanks. -/
def afterDate? : List Char → Option (List Char)
  | 'T' :: cs | 't' :: cs => some cs
  | c :: cs => if isSpacer c then some (cs.dropWhile isSpacer) else none
  | [] => none

def time? (cs : List Char) : Option TimeOfDay := do
  let (hour, _, cs) ← number? 1 2 (← afterDate? cs)
  let (minute, _, cs) ← number? 2 2 (← after? ':' cs)
  let (second, _, cs) ← number? 2 2 (← after? ':' cs)
  return { hour, minute, second, offset := ← offset? (dropFraction cs) }

def ofChars? (cs : List Char) : Option Timestamp := do
  let (year, _, cs) ← number? 4 4 cs
  let (month, monthWidth, cs) ← number? 1 2 (← after? '-' cs)
  let (day, dayWidth, cs) ← number? 1 2 (← after? '-' cs)
  let time ← if cs.isEmpty then some none else (time? cs).map some
  return { year, month, day, isWide := monthWidth = 2 && dayWidth = 2, time }

def isLeapYear (year : Nat) : Bool := year % 4 = 0 && (year % 100 ≠ 0 || year % 400 = 0)

def daysIn (year month : Nat) : Nat :=
  if month = 2 then if isLeapYear year then 29 else 28
  else if [4, 6, 9, 11].contains month then 30
  else 31

def dateProblem? (t : Timestamp) : Option DateProblem :=
  if t.year = 0 then some (.year 0)
  else if t.month = 0 || 12 < t.month then some .month
  else if t.day = 0 || daysIn t.year t.month < t.day then some .day
  else none

def timeProblem? (time : TimeOfDay) : Option DateProblem :=
  if 23 < time.hour then some .hour
  else if 59 < time.minute then some .minute
  else if 59 < time.second then some .second
  else none

def offsetProblem? (time : TimeOfDay) : Option DateProblem :=
  (time.offset.filter fun minutes => 1440 ≤ minutes.natAbs).map .offset

/-- The first thing wrong with a timestamp; the distance from universal time is looked at first. -/
def problem? (t : Timestamp) : Option DateProblem :=
  match t.time with
  | none => t.dateProblem?
  | some time => (offsetProblem? time).or (t.dateProblem?.or (timeProblem? time))

end Timestamp

end DocBlock.Yaml
