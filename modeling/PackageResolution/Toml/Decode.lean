import PackageResolution.Schema
import PackageResolution.Toml.Reader
/-!
# Decoding texts

A TOML text read as what a program expects: the text can fail to be a document at all, or its
document can fail to fit.
-/
namespace PackageResolution

/-- Why a text cannot be decoded. -/
inductive DecodeError where
  | notADocument
  | misfit (cause : SchemaError)
  deriving DecidableEq

namespace Toml

def decode {α : Type} (schema : Schema α) (text : String) : Except DecodeError α :=
  match read? text with
  | none => .error .notADocument
  | some v => (schema v).mapError .misfit

end Toml
end PackageResolution
