/-
A store of values by domain and name.
-/
import ConsoleShell.Text.Bytes

namespace ConsoleShell

/-- What a registry does not store: the names that it refuses in each domain. -/
structure Refusal where
  refuses : Bytes → Bytes → Bool := fun _ _ => false

/-- The refusal of some names in every domain. -/
instance : Coe (List Bytes) Refusal where
  coe names := { refuses := fun _ name => names.contains name }

/-- Values by domain and name. -/
structure Registry (α : Type) where
  entries : List ((Bytes × Bytes) × α) := []
  refused : Refusal := {}

namespace Registry

variable {α : Type}

/-- The value stored under a domain and name. -/
def find? (r : Registry α) (domain name : Bytes) : Option α :=
  (r.entries.find? fun e => e.1 == (domain, name)).map (·.2)

/-- Stores a value in place of an earlier one; none if the name is empty or refused. -/
def add? (r : Registry α) (domain name : Bytes) (value : α) : Option (Registry α) :=
  if name.isEmpty || r.refused.refuses domain name then none
  else some { r with
    entries := ((domain, name), value) :: r.entries.filter fun e => e.1 != (domain, name) }

/-- The number of values in a domain. -/
def size (r : Registry α) (domain : Bytes) : Nat := r.entries.countP fun e => e.1.1 == domain

end Registry

end ConsoleShell
