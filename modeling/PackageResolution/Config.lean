import PackageResolution.Toml.Decode
/-!
# Configuration

Defaults for a run, taken from a file of the user and one of the project. Where both set something,
the layer merged later wins; features add up.

Main statement: `merge_default`, that a layer that sets nothing changes nothing.
-/
namespace PackageResolution

/-- One layer of configuration, or several merged. -/
structure Config where
  target : Option String := none
  features : List String := []
  /-- Whether required capabilities are checked. -/
  verifyCaps : Option Bool := none
  deriving DecidableEq, Inhabited

namespace Config

def fileName : String := "config.toml"

def directoryName : String := ".keelson"

/-- Whether required capabilities are checked: yes, unless a layer says no (`verify_caps`). -/
def effectiveVerifyCaps (c : Config) : Bool := c.verifyCaps.getD true

/-- Adds a feature at the end, unless it is there. -/
def addFeature (features : List String) (feature : String) : List String :=
  if feature ∈ features then features else features ++ [feature]

/-- One layer over another (`merge`). -/
def merge (c upper : Config) : Config where
  target := upper.target <|> c.target
  features := upper.features.foldl addFeature c.features
  verifyCaps := upper.verifyCaps <|> c.verifyCaps

/-- A layer that sets nothing changes nothing. -/
theorem merge_default (c : Config) : c.merge {} = c := by
  cases c
  simp [merge]

def buildRecord : Schema.Record Config where
  name := "BuildConfig"
  fields := [
    { name := "target", isRequired := false,
      read := fun v c => ({ c with target := some · }) <$> Schema.text v },
    { name := "features", isRequired := false,
      read := fun v c => ({ c with features := · }) <$> Schema.list Schema.text v },
    { name := "verify_caps", isRequired := false,
      read := fun v c => ({ c with verifyCaps := some · }) <$> Schema.boolean v }]
  initial := {}

def record : Schema.Record Config where
  name := "Config"
  fields := [{ name := "build", isRequired := false, read := fun v _ => buildRecord.read v }]
  initial := {}

/-- Reads a layer (`load`). -/
def parse (text : String) : Except DecodeError Config := Toml.decode record.read text

end Config
end PackageResolution
