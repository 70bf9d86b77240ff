/-!
# Moments

A day of the calendar, or a time of day with it: `2001-12-14`, `2001-12-14 21:59:43.10 -5`. A time
may say by how much it differs from the time of the prime meridian.

* `Moment.read?` reads a moment.
* `Moment.shown` is its text in messages.
-/

namespace RaisingEffects

structure Clock where
  hour : Nat
  minute : Nat
  second : Nat
  micro : Nat
  /-- The difference from the time of the prime meridian in minutes, if it is known. -/
  zone : Option Int
deriving DecidableEq, Repr

/-- A day, and a time of the day if one is given. -/
structure Moment where
  year : Nat
  month : Nat
  day : Nat
  clock : Option Clock
deriving DecidableEq, Repr

inductive MomentFault where
  | year (n : Nat)
  | month
  | day
  | hour
  | minute
  | second
  /-- The difference from the time of the prime meridian is a day or more. -/
  | zone (minutes : Int)
deriving DecidableEq, Repr

namespace Moment

/-! ## Texts -/

/-- A span of minutes: days, which may be negative, and seconds. -/
def shownSpan (minutes : Int) : String :=
  let days := minutes.fdiv 1440
  let seconds := (minutes.fmod 1440) * 60
  let parts := (if days = 0 then [] else [s!"days={days}"]) ++
    (if seconds = 0 then [] else [s!"seconds={seconds}"])
  "datetime.timedelta(" ++ (if parts.isEmpty then "0" else ", ".intercalate parts) ++ ")"

def shownZone (minutes : Int) : String :=
  if minutes = 0 then "datetime.timezone.utc" else s!"datetime.timezone({shownSpan minutes})"

/-- The numbers of a time of day. Seconds and fractions are left out if they are zero. -/
def shownClock (c : Clock) : List Nat :=
  [c.hour, c.minute] ++
    if c.micro ≠ 0 then [c.second, c.micro] else if c.second ≠ 0 then [c.second] else []

def shown (m : Moment) : String :=
  let numbers (ns : List Nat) : List String := ns.map fun n => toString n
  let date := [m.year, m.month, m.day]
  match m.clock with
  | none => "datetime.date(" ++ ", ".intercalate (numbers date) ++ ")"
  | some c =>
    let zone := c.zone.toList.map fun z => s!"tzinfo={shownZone z}"
    "datetime.datetime(" ++ ", ".intercalate (numbers (date ++ shownClock c) ++ zone) ++ ")"

def kindName (m : Moment) : String :=
  if m.clock.isNone then "datetime.date" else "datetime.datetime"

end Moment

def MomentFault.message : MomentFault → String
  | year n => s!"year {n} is out of range"
  | month => "month must be in 1..12"
  | day => "day is out of range for month"
  | hour => "hour must be in 0..23"
  | minute => "minute must be in 0..59"
  | second => "second must be in 0..59"
  | zone minutes =>
    "offset must be a timedelta strictly between -timedelta(hours=24) and timedelta(hours=24), " ++
      s!"not {Moment.shownSpan minutes}."

namespace Moment

/-! ## The calendar -/

def isLeap (year : Nat) : Bool := year % 4 = 0 && (year % 100 ≠ 0 || year % 400 = 0)

def monthLength (year month : Nat) : Nat :=
  if month = 2 then if isLeap year then 29 else 28
  else if month ∈ [4, 6, 9, 11] then 30
  else 31

/-- The first fault of a moment. The difference from the time of the prime meridian is looked at
before everything else. -/
def fault? (m : Moment) : Option MomentFault :=
  let zone := (m.clock.bind Clock.zone).filter fun z => 1440 ≤ z.natAbs
  let outside (test : Clock → Bool) : Bool := m.clock.any test
  match zone with
  | some z => some (.zone z)
  | none =>
    if m.year = 0 then some (.year m.year)
    else if m.month = 0 || 12 < m.month then some .month
    else if m.day = 0 || monthLength m.year m.month < m.day then some .day
    else if outside (23 < ·.hour) then some .hour
    else if outside (59 < ·.minute) then some .minute
    else if outside (59 < ·.second) then some .second
    else none

/-! ## Reading -/

def isDigit (c : Char) : Bool := '0' ≤ c && c ≤ '9'

def isGap (c : Char) : Bool := c == ' ' || c == '\t'

def number (cs : List Char) : Nat := cs.foldl (fun n c => 10 * n + (c.toNat - '0'.toNat)) 0

/-- Up to `most` digits at the front, of which there must be `least`, and what follows them. -/
def digits? (least most : Nat) (cs : List Char) : Option (List Char × List Char) :=
  let ds := (cs.take most).takeWhile isDigit
  if ds.length < least then none else some (ds, cs.drop ds.length)

def after? (c : Char) : List Char → Option (List Char)
  | d :: cs => if c = d then some cs else none
  | [] => none

/-- Reads a difference from the time of the prime meridian, which ends a moment. -/
def zone? (cs : List Char) : Option (Option Int) :=
  match cs.dropWhile isGap with
  | [] => if cs.isEmpty then some none else none
  | ['Z'] => some (some 0)
  | s :: rest =>
    if s == '+' || s == '-' then do
      let (hours, rest) ← digits? 1 2 rest
      let minutes ← match rest with
        | [] => some []
        | rest => do
          let (minutes, rest) ← digits? 2 2 (← after? ':' rest)
          if rest.isEmpty then some minutes else none
      let size : Int := 60 * number hours + number minutes
      return some (if s == '-' then -size else size)
    else none

/-- The millionths that the digits after a point stand for. -/
def millionths (ds : List Char) : Nat := number ((ds ++ List.replicate 6 '0').take 6)

def clock? (cs : List Char) : Option Clock := do
  let (hour, cs) ← digits? 1 2 cs
  let (minute, cs) ← digits? 2 2 (← after? ':' cs)
  let (second, cs) ← digits? 2 2 (← after? ':' cs)
  let (fraction, cs) := match after? '.' cs with
    | some cs => (cs.takeWhile isDigit, cs.dropWhile isDigit)
    | none => ([], cs)
  let zone ← zone? cs
  return ⟨number hour, number minute, number second, millionths fraction, zone⟩

def afterGap? : List Char → Option (List Char)
  | 'T' :: cs | 't' :: cs => some cs
  | c :: cs => if isGap c then some (cs.dropWhile isGap) else none
  | [] => none

/-- Reads a moment, if the characters are written like one. A day without a time has all its
digits. -/
def read? (cs : List Char) : Option (Except MomentFault Moment) := do
  let (year, cs) ← digits? 4 4 cs
  let (month, cs) ← digits? 1 2 (← after? '-' cs)
  let (day, cs) ← digits? 1 2 (← after? '-' cs)
  let clock ← match cs with
    | [] => if month.length = 2 && day.length = 2 then some none else none
    | cs => do some (some (← clock? (← afterGap? cs)))
  let m : Moment := ⟨number year, number month, number day, clock⟩
  return match m.fault? with
    | some fault => .error fault
    | none => .ok m

end Moment

end RaisingEffects
