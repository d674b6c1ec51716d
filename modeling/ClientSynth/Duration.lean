/-!
# `ClientSynth.Duration` — spans of time

A duration is a number of whole seconds, and the nanoseconds of a further one that is not over.
Settings give seconds or milliseconds. Errors show the milliseconds that are over, in a word of 64
bits: what is less than one of them does not show, nor does what the word has no room for.
-/

set_option autoImplicit false

namespace ClientSynth

/-- A span of time. -/
structure Duration where
  seconds : UInt64
  /-- The nanoseconds after the last whole second. -/
  nanos : Fin 1000000000
  deriving DecidableEq, Repr, Inhabited

namespace Duration

def ofSeconds (n : UInt64) : Duration where
  seconds := n
  nanos := ⟨0, by decide⟩

def zero : Duration := ofSeconds 0

def ofMillis (n : UInt64) : Duration where
  seconds := n / 1000
  nanos := ⟨n.toNat % 1000 * 1000000, by omega⟩

def inNanos (d : Duration) : Nat := d.seconds.toNat * 1000000000 + d.nanos.val

/-- The milliseconds that are over at its end. -/
def inMillis (d : Duration) : Nat := d.seconds.toNat * 1000 + d.nanos.val / 1000000

/-- The milliseconds as errors show them. -/
def shownMillis (d : Duration) : UInt64 := d.inMillis.toUInt64

instance : LE Duration where
  le d e := d.seconds < e.seconds ∨ d.seconds = e.seconds ∧ d.nanos ≤ e.nanos

instance (d e : Duration) : Decidable (d ≤ e) :=
  inferInstanceAs (Decidable (d.seconds < e.seconds ∨ d.seconds = e.seconds ∧ d.nanos ≤ e.nanos))

/-- A duration is no longer than another if it has no more nanoseconds. -/
theorem le_iff {d e : Duration} : d ≤ e ↔ d.inNanos ≤ e.inNanos := by
  have hd := d.nanos.isLt
  have he := e.nanos.isLt
  show d.seconds < e.seconds ∨ d.seconds = e.seconds ∧ d.nanos ≤ e.nanos ↔ _
  rw [UInt64.lt_iff_toNat_lt, ← UInt64.toNat_inj, Fin.le_def, inNanos, inNanos]
  omega

theorem inMillis_eq (d : Duration) : d.inMillis = d.inNanos / 1000000 := by
  rw [inMillis, inNanos]
  omega

@[simp]
theorem inMillis_ofMillis (n : UInt64) : (ofMillis n).inMillis = n.toNat := by
  have hseconds : (n / 1000).toNat = n.toNat / 1000 := UInt64.toNat_div n 1000
  show (n / 1000).toNat * 1000 + n.toNat % 1000 * 1000000 / 1000000 = n.toNat
  omega

@[simp]
theorem shownMillis_ofMillis (n : UInt64) : (ofMillis n).shownMillis = n := by
  rw [shownMillis, inMillis_ofMillis]
  exact UInt64.ofNat_toNat

end Duration

end ClientSynth
