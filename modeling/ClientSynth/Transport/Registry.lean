/-!
# `ClientSynth.Transport.Registry` — which transport an interface uses

A registry names a transport for each of some interfaces and may have one for all others. What a
transport is does not matter here.
-/

set_option autoImplicit false

namespace ClientSynth

/-- Transports by the identity of the interface that uses them. -/
structure Registry (τ : Type) where
  registered : List (String × τ) := []
  fallback : Option τ := none

namespace Registry

variable {τ : Type}

/-- A registry with one transport for every interface. -/
def ofFallback (t : τ) : Registry τ :=
  { fallback := some t }

/-- The registry with a transport for an interface, in the place of an earlier one. -/
def register (r : Registry τ) (interface : String) (t : τ) : Registry τ :=
  { r with registered := (interface, t) :: r.registered }

/-- The registry with a transport for the interfaces that have none of their own. -/
def setFallback (r : Registry τ) (t : τ) : Registry τ :=
  { r with fallback := some t }

/-- Whether an interface has a transport of its own. -/
def isRegistered (r : Registry τ) (interface : String) : Bool :=
  (r.registered.lookup interface).isSome

def resolve? (r : Registry τ) (interface : String) : Option τ :=
  r.registered.lookup interface <|> r.fallback

@[simp]
theorem resolve?_register_self (r : Registry τ) (interface : String) (t : τ) :
    (r.register interface t).resolve? interface = some t := by
  simp [resolve?, register]

theorem resolve?_register_of_ne (r : Registry τ) {interface other : String} (t : τ)
    (h : other ≠ interface) : (r.register interface t).resolve? other = r.resolve? other := by
  have : (other == interface) = false := by simpa using h
  simp [resolve?, register, List.lookup_cons, this]

end Registry

end ClientSynth
