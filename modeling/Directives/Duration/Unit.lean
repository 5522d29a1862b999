import Directives.Duration

/-! The units in which lengths of time are read and written. A year has 365.25 days and a month a
twelfth of that, to the second. -/
namespace Directives.Duration

inductive Unit
  | nanosecond
  | microsecond
  | millisecond
  | second
  | minute
  | hour
  | day
  | week
  | month
  | year
  deriving DecidableEq, Repr

namespace Unit

def spellings : List (Unit × List String) :=
  [(.nanosecond, ["nanos", "nsec", "ns"]),
   (.microsecond, ["usec", "us", "µs"]),
   (.millisecond, ["millis", "msec", "ms"]),
   (.second, ["seconds", "second", "secs", "sec", "s"]),
   (.minute, ["minutes", "minute", "min", "mins", "m"]),
   (.hour, ["hours", "hour", "hrs", "hr", "h"]),
   (.day, ["days", "day", "d"]),
   (.week, ["weeks", "week", "wks", "wk", "w"]),
   (.month, ["months", "month", "M"]),
   (.year, ["years", "year", "yrs", "yr", "y"])]

def ofWord? (word : String) : Option Unit :=
  (spellings.find? fun entry => entry.2.contains word).map (·.1)

def nanos? : Unit → Option Nat
  | nanosecond => some 1
  | microsecond => some 1000
  | millisecond => some 1000000
  | _ => none

/-- The seconds in a unit that is not shorter than a second. -/
def seconds : Unit → Nat
  | nanosecond | microsecond | millisecond => 0
  | second => 1
  | minute => 60
  | hour => 3600
  | day => 86400
  | week => 604800
  | month => 2630016
  | year => 31557600

end Unit
end Directives.Duration
