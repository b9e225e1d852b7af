import ApiScaffold.Text.CodePoint
import ApiScaffold.Text.Utf8

/-! What can be wrong with a YAML document. -/
namespace ApiScaffold.Yaml

inductive CalendarPart where
  | year (value : Nat)
  | month
  | day
  | hour
  | minute
  | second
  | offset (text : String)
  deriving DecidableEq, Repr

def CalendarPart.message : CalendarPart → String
  | .year value => s!"year {value} is out of range"
  | .month => "month must be in 1..12"
  | .day => "day is out of range for month"
  | .hour => "hour must be in 0..23"
  | .minute => "minute must be in 0..59"
  | .second => "second must be in 0..59"
  | .offset text =>
    s!"offset must be a timedelta strictly between -timedelta(hours=24) and timedelta(hours=24), not {text}."

/-- The decimal digits that a number may have where it is read from text or written as text. -/
def digitLimit : Nat := 4300

/-- Why a text has no value: it is not well formed, it breaks off, or a scalar does not fit its
tag. -/
inductive Fault where
  | malformed
  | unfinished
  | notText (fault : Text.Utf8Fault)
  /-- An escape for more than the last code point. -/
  | codePoint
  /-- An escape for more than 31 bits. -/
  | codePointSize
  | calendar (part : CalendarPart)
  | notTime
  | timeOfMapping
  | integer (base : Nat) (text : List Text.CodePoint)
  | float (text : List Text.CodePoint)
  | boolean (text : List Text.CodePoint)
  | emptyNumber
  /-- More digits than the limit, and how many where that is known. -/
  | digits (count : Option Nat)
  /-- A sexagesimal part that counts more than floats can hold. -/
  | scale
  /-- A default value that leads back to itself. -/
  | endless
  deriving DecidableEq, Repr

namespace Fault

def shownLength : Nat := 200

def message : Fault → String
  | .malformed | .unfinished => "<YAML error>"
  | .notText fault => fault.message
  | .codePoint => "chr() arg not in range(0x110000)"
  | .codePointSize => "Python int too large to convert to C int"
  | .calendar part => part.message
  | .notTime => "'NoneType' object has no attribute 'groupdict'"
  | .timeOfMapping => "expected string or bytes-like object, got 'list'"
  | .integer base text =>
    s!"invalid literal for int() with base {base}: " ++
      String.ofList ((Text.CodePoint.quote text).take shownLength)
  | .float text =>
    "could not convert string to float: " ++ String.ofList (Text.CodePoint.quote text)
  | .boolean text => String.ofList (Text.CodePoint.quote text)
  | .emptyNumber => "string index out of range"
  | .digits count =>
    let value := match count with
      | none => ""
      | some n => s!": value has {n} digits"
    s!"Exceeds the limit ({digitLimit} digits) for integer string conversion{value}; " ++
      "use sys.set_int_max_str_digits() to increase the limit"
  | .scale => "int too large to convert to float"
  | .endless => "maximum recursion depth exceeded"

/-- Whether a fault is told about like any other failure. One that is not ends a run at once. -/
def isForeseen : Fault → Bool
  | .codePointSize | .notTime | .timeOfMapping | .boolean _ | .emptyNumber | .scale => false
  | _ => true

end Fault
end ApiScaffold.Yaml
