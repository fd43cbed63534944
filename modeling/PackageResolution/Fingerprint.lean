import PackageResolution.Digest
import PackageResolution.Path
/-!
# Fingerprints

A fingerprint is the digest of a sequence of components. Each component is fed as its bytes and a
NUL byte after them, so how the components were grouped when they were given leaves no trace.

Main statement: `bytes_append`, that feeding is by component.
-/
namespace PackageResolution

namespace Fingerprint

/-- What can be fed to a fingerprint at once. -/
inductive Part where
  | text (s : String)
  | texts (ss : List String)
  | path (p : Path)

def Part.components : Part → List String
  | text s => [s]
  | texts ss => ss
  | path p => [p.text]

/-- The bytes that are fed for components (`update_str`). -/
def bytes (components : List String) : List UInt8 :=
  components.flatMap fun c => Text.utf8 c ++ [0]

/-- The bytes that are fed for parts. -/
def bytesOfParts (parts : List Part) : List UInt8 := bytes (parts.flatMap Part.components)

def full (components : List String) : String := Digest.sha256Hex (bytes components)

/-- The first sixteen digits of a fingerprint (`finish_short`). -/
def shorten (fingerprint : String) : String := String.ofList (fingerprint.toList.take 16)

@[simp] theorem bytes_append (a b : List String) : bytes (a ++ b) = bytes a ++ bytes b := by
  simp [bytes]

end Fingerprint
end PackageResolution
