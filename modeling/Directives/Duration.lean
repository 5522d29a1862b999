/-! Lengths of time: whole seconds in sixty-four bits and a rest in nanoseconds. -/
namespace Directives

def nanosPerSecond : Nat := 1000000000

/-- A length of time. The rest is always less than a second. -/
structure Duration where
  seconds : Nat
  nanos : Nat
  seconds_lt : seconds < 18446744073709551616
  nanos_lt : nanos < 1000000000
  deriving DecidableEq

namespace Duration

protected def zero : Duration := ⟨0, 0, by decide, by decide⟩

instance : Inhabited Duration := ⟨Duration.zero⟩

def toNanos (d : Duration) : Nat := d.seconds * nanosPerSecond + d.nanos

/-- The length of so many nanoseconds, if its seconds fit. -/
def ofNanos? (n : Nat) : Option Duration :=
  if h : n / 1000000000 < 18446744073709551616 then
    some ⟨n / 1000000000, n % 1000000000, h, Nat.mod_lt _ (by decide)⟩
  else none

/-- Seconds and nanoseconds, where a second's worth of nanoseconds is carried over. -/
def ofParts? (seconds nanos : Nat) : Option Duration := ofNanos? (seconds * nanosPerSecond + nanos)

theorem ofNanos?_toNanos (d : Duration) : ofNanos? d.toNanos = some d := by
  obtain ⟨s, n, hs, hn⟩ := d
  have hd : (s * 1000000000 + n) / 1000000000 = s := by omega
  have hm : (s * 1000000000 + n) % 1000000000 = n := by omega
  simp only [ofNanos?, toNanos, nanosPerSecond, hd, hm]
  exact dif_pos hs

protected def min (a b : Duration) : Duration := if a.toNanos ≤ b.toNanos then a else b

end Duration
end Directives
