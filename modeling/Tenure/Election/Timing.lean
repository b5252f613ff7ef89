import Tenure.Error

/-!
# Leases and campaign intervals

A leader renews its lease once per campaign interval. A lease leaves enough room for that if it
has at least thirty seconds and the interval takes at most three quarters of it.
-/

namespace Tenure.Election

/-- The shortest lease that is accepted. -/
def leastTtl : Duration := .seconds 30

/-- Checks that a lease leaves enough room for its renewal. The two multiples are compared as
durations, so a span of more than a quarter of the range overflows. -/
def checkTiming (ttl interval : Duration) : Except Overflow (Option LeaseFault) :=
  if ttl.nanos < leastTtl.nanos then .ok (some (.tooShort ttl leastTtl))
  else if interval.nanos = 0 then .ok (some (.misfit interval ttl))
  else do
    let fourIntervals ← interval.times 4
    let threeTtls ← ttl.times 3
    if threeTtls.nanos < fourIntervals.nanos then .ok (some (.misfit interval ttl))
    else .ok none

end Tenure.Election
