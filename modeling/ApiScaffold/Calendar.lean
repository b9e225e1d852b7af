/-! Points of local time, to the second, and their written forms. -/
namespace ApiScaffold

structure LocalTime where
  year : Nat
  month : Nat
  day : Nat
  hour : Nat
  minute : Nat
  second : Nat
  deriving DecidableEq, Repr

namespace LocalTime

def twoDigits (n : Nat) : String :=
  if n < 10 then "0" ++ toString n else toString n

/-- The time as one row of digits, two for each part but the year, which has as many as it needs. -/
def stamp (t : LocalTime) : String :=
  toString t.year ++ twoDigits t.month ++ twoDigits t.day ++ twoDigits t.hour ++
    twoDigits t.minute ++ twoDigits t.second

end LocalTime
end ApiScaffold
