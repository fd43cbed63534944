import PackageResolution.Descriptor
import PackageResolution.Schema
/-!
# Descriptors in documents

A descriptor is written as a text; one without repository points into the project itself.
-/
namespace PackageResolution.Descriptor

/-- Reads a descriptor (`deserialize`). -/
def ofValue : Schema Descriptor := fun v => do
  (parse (← Schema.text v) localRepo).mapError (.refused ·.message)

/-- A descriptor as a value (`serialize`). -/
def toValue (d : Descriptor) : Value := .text d.display

end PackageResolution.Descriptor
