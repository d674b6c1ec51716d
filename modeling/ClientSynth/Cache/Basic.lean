import ClientSynth.Cache.Counters
import ClientSynth.Synthesis.Implementation

/-!
# `ClientSynth.Cache.Basic` — implementations that are made once and shared

A cache has one entry for each interface that was ever looked up. The first contract that an interface
is looked up with fixes the fingerprint of its entry, and synthesis runs once for it; what comes of
it, be it an error, is the outcome of all later lookups with that contract. Type names belong to the
interface that got one first.

`getOrSynthesize` is one lookup from beginning to end. It is put together from the sections that
`ClientSynth.Cache.Concurrent` runs one at a time.
-/

set_option autoImplicit false

namespace ClientSynth

/-- An implementation as lookups share it: `maker` is the lookup that made it. -/
structure SharedImplementation where
  maker : Nat
  implementation : Implementation
  deriving DecidableEq, Inhabited

/-- What a lookup comes to. -/
abbrev Outcome := Except SynthesisError SharedImplementation

instance : DecidableEq Outcome
  | .ok a, .ok b =>
    if h : a = b then isTrue (by rw [h]) else isFalse (by intro e; injection e; contradiction)
  | .error a, .error b =>
    if h : a = b then isTrue (by rw [h]) else isFalse (by intro e; injection e; contradiction)
  | .ok _, .error _ => isFalse (by intro e; injection e)
  | .error _, .ok _ => isFalse (by intro e; injection e)

/-- What a cache knows of an interface. -/
structure CacheEntry where
  /-- The fingerprint of the contract it was first looked up with. -/
  fingerprint : String
  /-- What came of synthesis, once it has run. -/
  outcome : Option Outcome := none
  deriving DecidableEq, Inhabited

structure Cache where
  /-- The entries by the identity of the interface, in the order in which they were made. -/
  entries : List (String × CacheEntry) := []
  /-- The interfaces that own type names, by type name. -/
  typeNames : List (String × String) := []
  counters : Counters := {}
  deriving DecidableEq, Inhabited

namespace Cache

/-! ## Sections -/

def entry? (cache : Cache) (interface : String) : Option CacheEntry :=
  cache.entries.lookup interface

/-- The cache with an entry for an interface: a new one with this fingerprint if there was none. -/
def pin (cache : Cache) (interface fingerprint : String) : Cache :=
  match cache.entry? interface with
  | some _ => cache
  | none => { cache with entries := cache.entries ++ [(interface, { fingerprint })] }

/-- The fingerprint of the entry that `pin` leaves. -/
def pinned (cache : Cache) (interface fingerprint : String) : String :=
  match cache.entry? interface with
  | some entry => entry.fingerprint
  | none => fingerprint

/-- The outcome for an interface, if synthesis has run. -/
def outcome? (cache : Cache) (interface : String) : Option Outcome :=
  cache.entry? interface >>= (·.outcome)

/-- The other interface that owns the type name that an interface asks for. -/
def rival? (cache : Cache) (interface : String) : Option String :=
  (cache.typeNames.lookup (TypeName.ofInterface interface)).filter (· ≠ interface)

def nameTaken (interface owner : String) : SynthesisError :=
  .duplicateTypeName (TypeName.ofInterface interface) owner interface

/-- The cache with an interface as the owner of its type name. -/
def claimName (cache : Cache) (interface : String) : Cache :=
  match cache.typeNames.lookup (TypeName.ofInterface interface) with
  | some _ => cache
  | none =>
    { cache with typeNames := cache.typeNames ++ [(TypeName.ofInterface interface, interface)] }

def publishIn (interface : String) (outcome : Outcome) :
    List (String × CacheEntry) → List (String × CacheEntry)
  | [] => []
  | (name, entry) :: rest =>
    if name = interface then (name, { entry with outcome := some outcome }) :: rest
    else (name, entry) :: publishIn interface outcome rest

/-- The cache with an outcome for an interface. -/
def publish (cache : Cache) (interface : String) (outcome : Outcome) : Cache :=
  { cache with entries := publishIn interface outcome cache.entries }

def count (cache : Cache) (change : Counters → Counters) : Cache :=
  { cache with counters := change cache.counters }

/-! ## Lookups -/

/-- What synthesis comes to before the type name is claimed. The name is looked at first, so a name
that is taken is found even where the contract is at fault too. -/
def attempt (cache : Cache) (c : Contract) : Except SynthesisError Implementation :=
  match cache.rival? c.name with
  | some owner => .error (nameTaken c.name owner)
  | none => c.synthesize

/-- Claims the type name for an implementation that a lookup made. -/
def claim (cache : Cache) (caller : Nat) (interface : String) (i : Implementation) :
    Outcome × Cache :=
  match cache.rival? interface with
  -- The name was free at the attempt, but may have found an owner since.
  | some owner => (.error (nameTaken interface owner), cache)
  | none => (.ok ⟨caller, i⟩, cache.claimName interface)

/-- Synthesizes a contract and claims its type name. -/
def synthesizeAndClaim (cache : Cache) (caller : Nat) (c : Contract) : Outcome × Cache :=
  match cache.attempt c with
  | .error e => (.error e, cache)
  | .ok i => cache.claim caller c.name i

def conflict (c : Contract) (cached : String) : SynthesisError :=
  .conflictingContract c.name cached c.fingerprint

/-- Counts a lookup that ran synthesis. -/
def countMiss (cache : Cache) (outcome : Outcome) : Cache :=
  match outcome with
  | .ok _ => cache.count .miss
  | .error _ => (cache.count .miss).count .failure

/-- Looks a contract up, as the lookup of the number `caller`. -/
def getOrSynthesize (cache : Cache) (caller : Nat) (c : Contract) : Outcome × Cache :=
  let cached := cache.pinned c.name c.fingerprint
  let cache := cache.pin c.name c.fingerprint
  -- A contract that changed is refused even where the first one could not be synthesized.
  if cached ≠ c.fingerprint then (.error (conflict c cached), cache.count .conflict)
  else
    match cache.outcome? c.name with
    | some outcome => (outcome, cache.count .hit)
    | none =>
      let (outcome, cache) := cache.synthesizeAndClaim caller c
      (outcome, (cache.publish c.name outcome).countMiss outcome)

/-! ## What is there -/

/-- The implementation of an interface, if synthesis has run and succeeded. -/
def get? (cache : Cache) (interface : String) : Option Implementation :=
  match cache.outcome? interface with
  | some (.ok shared) => some shared.implementation
  | _ => none

def source? (cache : Cache) (interface : String) : Option String :=
  (cache.get? interface).map (·.source)

/-- The interfaces with an entry, in ascending order. -/
def interfaces (cache : Cache) : List String :=
  (cache.entries.map (·.1)).mergeSort fun a b => decide (a ≤ b)

def resetCounters (cache : Cache) : Cache :=
  { cache with counters := {} }

end Cache

end ClientSynth
