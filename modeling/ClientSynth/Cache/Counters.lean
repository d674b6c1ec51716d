import ClientSynth.Decimal.Binary64

/-!
# `ClientSynth.Cache.Counters` — how the lookups of a cache went

Every lookup is counted once: as a hit, a miss or a conflict. Failures are counted among the misses
a second time.
-/

set_option autoImplicit false

namespace ClientSynth

/-- How often lookups went which way. -/
structure Counters where
  /-- Lookups of an outcome that was there. -/
  hits : Nat := 0
  /-- Lookups that ran synthesis. -/
  misses : Nat := 0
  /-- Runs of synthesis that ended in an error. -/
  failures : Nat := 0
  /-- Lookups with another contract than the first. -/
  conflicts : Nat := 0
  deriving DecidableEq, Repr

namespace Counters

def hit (c : Counters) : Counters := { c with hits := c.hits + 1 }

def miss (c : Counters) : Counters := { c with misses := c.misses + 1 }

def failure (c : Counters) : Counters := { c with failures := c.failures + 1 }

def conflict (c : Counters) : Counters := { c with conflicts := c.conflicts + 1 }

def total (c : Counters) : Nat := c.hits + c.misses + c.conflicts

/-- The share of hits among all lookups; zero if there were none. -/
def hitRate (c : Counters) : Binary64 :=
  .ofFloat (if c.total = 0 then 0.0 else Float.ofNat c.hits / Float.ofNat c.total)

end Counters

end ClientSynth
