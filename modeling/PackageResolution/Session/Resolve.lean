import PackageResolution.Session.Load
/-!
# Resolution

A pass makes one load attempt for every package that is registered when the pass starts. Passes are
repeated until one finds nothing new: no package is left pending and none was registered.

Features and dependencies only come from what the packages of the registry declare, and each pass
but the last finds one that was not there, so `passBound` passes are enough.
-/
namespace PackageResolution

/-- What a finished resolution came to. -/
structure Summary where
  /-- The number of passes, the last and quiet one included. -/
  passes : Nat
  packages : Nat
  features : Nat
  deriving DecidableEq

namespace Session

/-- One load attempt for each identity, up to the first that fails. Answers whether any is left
pending. -/
def loadEach (r : Registry) (s : Session) : List PackageId → Outcome Bool
  | [] => (.ok false, s)
  | id :: ids =>
    match loadPackage r s id with
    | (.error e, s') => (.error e, s')
    | (.ok state, s') =>
      let (rest, s'') := loadEach r s' ids
      (rest.map (decide (state = .pending) || ·), s'')

/-- One pass (`resolve_pass`). Answers whether it found anything new. -/
def resolvePass (r : Registry) (s : Session) : Outcome Bool :=
  let (result, s') := loadEach r s s.order
  (result.map (· || decide (s.order.length < s'.order.length)), s')

def summary (s : Session) (passes : Nat) : Summary := ⟨passes, s.order.length, s.features.size⟩

/-- A number of passes within which resolution ends: one quiet pass, one for each feature that a
package declares, and two for each dependency, which can be found and can bring in a package. -/
def passBound (r : Registry) : Nat :=
  1 + (r.packages.flatMap fun p =>
    p.settings.declared .features ++ p.settings.declared .deps ++ p.settings.declared .deps).length

/-- Makes passes until one is quiet, after `passes` that were made before and within a further
`fuel`. -/
def resolveWithin (r : Registry) (s : Session) (passes : Nat) : Nat → Outcome Summary
  | 0 => (.ok (s.summary passes), s)
  | fuel + 1 =>
    match resolvePass r s with
    | (.error e, s') => (.error e, s')
    | (.ok false, s') => (.ok (s'.summary (passes + 1)), s')
    | (.ok true, s') => resolveWithin r s' (passes + 1) fuel

/-- Makes passes until one is quiet (`resolve`). -/
def resolve (r : Registry) (s : Session) : Outcome Summary := resolveWithin r s 0 (passBound r)

end Session
end PackageResolution
