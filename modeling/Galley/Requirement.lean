import Galley.Failure

/-!
# Requirements

A component may need packages that are not installed everywhere.  Before it runs, every
package it needs is tried, and all that are missing are reported together.
-/

namespace Galley

/-- A package that a component needs. -/
structure Requirement where
  /-- The name under which the package is installed. -/
  installName : String
  /-- The name under which the package is used. -/
  importName : String
  /-- Whether it can be used. -/
  available : Bool
  deriving Repr

/-- Run a component if all that it needs is at hand. -/
def withRequirements [MonadExceptOf Fault m] (component : String) (requirements : List Requirement)
    (action : m α) : m α :=
  match (requirements.filter fun requirement => !requirement.available).map (·.installName) with
  | [] => action
  | missing =>
      throw (.failure { Failure.missingPackages component missing with
        cause := some .missingPackage })

end Galley
