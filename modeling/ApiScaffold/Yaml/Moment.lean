import ApiScaffold.Calendar

/-! Points of time to the microsecond, with a zone or without, and their written forms. -/
namespace ApiScaffold.Yaml

/-- A point of time. The zone is given in seconds ahead of universal time if there is one. -/
structure Moment where
  time : LocalTime
  microsecond : Nat
  offset : Option Int
  deriving DecidableEq, Repr

def isLeap (year : Nat) : Bool :=
  year % 4 = 0 && (year % 100 ≠ 0 || year % 400 = 0)

def daysIn (year month : Nat) : Nat :=
  if month = 2 then if isLeap year then 29 else 28
  else if [4, 6, 9, 11].contains month then 30
  else 31

/-- The number of days up to a date, from the first year on. -/
def dayNumber (year month day : Nat) : Nat :=
  let years := year - 1
  365 * years + years / 4 - years / 100 + years / 400 +
    (List.range (month - 1)).foldl (fun days m => days + daysIn year (m + 1)) 0 + day

def durationText (seconds : Int) : String :=
  let days := seconds / 86400
  let rest := seconds % 86400
  let parts :=
    (if days = 0 then [] else [s!"days={days}"]) ++ if rest = 0 then [] else [s!"seconds={rest}"]
  "datetime.timedelta(" ++ (if parts.isEmpty then "0" else ", ".intercalate parts) ++ ")"

def padded (width n : Nat) : String :=
  let digits := toString n
  "".pushn '0' (width - digits.length) ++ digits

def dateText (year month day : Nat) : String :=
  padded 4 year ++ "-" ++ padded 2 month ++ "-" ++ padded 2 day

namespace Moment

def text (m : Moment) : String :=
  let t := m.time
  let clock := padded 2 t.hour ++ ":" ++ padded 2 t.minute ++ ":" ++ padded 2 t.second
  let fraction := if m.microsecond = 0 then "" else "." ++ padded 6 m.microsecond
  let zone := match m.offset with
    | none => ""
    | some seconds =>
      let minutes := seconds.natAbs / 60
      (if seconds < 0 then "-" else "+") ++ padded 2 (minutes / 60) ++ ":" ++
        padded 2 (minutes % 60)
  dateText t.year t.month t.day ++ " " ++ clock ++ fraction ++ zone

/-- The parts in order, without seconds and microseconds that are zero, and the zone. -/
def quoted (m : Moment) : String :=
  let t := m.time
  let small :=
    if m.microsecond ≠ 0 then [t.second, m.microsecond] else if t.second ≠ 0 then [t.second] else []
  let parts := ([t.year, t.month, t.day, t.hour, t.minute] ++ small).map toString
  let zone := match m.offset with
    | none => []
    | some 0 => ["tzinfo=datetime.timezone.utc"]
    | some seconds => ["tzinfo=datetime.timezone(" ++ durationText seconds ++ ")"]
  "datetime.datetime(" ++ ", ".intercalate (parts ++ zone) ++ ")"

/-- The microseconds of the calendar up to a moment, counted where it is told. -/
def localCount (m : Moment) : Int :=
  let t := m.time
  let seconds := 86400 * dayNumber t.year t.month t.day + 3600 * t.hour + 60 * t.minute + t.second
  Int.ofNat (1000000 * seconds + m.microsecond)

/-- Whether two moments are the same point of time. One with a zone and one without never are. -/
def isSame (a b : Moment) : Bool :=
  match a.offset, b.offset with
  | none, none => a.localCount = b.localCount
  | some before, some after => a.localCount - 1000000 * before = b.localCount - 1000000 * after
  | _, _ => false

end Moment
end ApiScaffold.Yaml
