/-!
# Package identities

A package is identified by its place in the registry that holds it. An identity is a word of 32
bits, so a place is taken modulo 2^32.
-/
namespace PackageResolution

/-- The identity of a package within its registry. -/
structure PackageId where
  word : UInt32
  deriving DecidableEq, Inhabited

namespace PackageId

def ofIndex (index : Nat) : PackageId := ⟨UInt32.ofNat index⟩

def index (id : PackageId) : Nat := id.word.toNat

/-- The short form in messages. -/
def display (id : PackageId) : String := "#" ++ toString id.index

/-- The long form. -/
def describe (id : PackageId) : String := "PackageId(" ++ toString id.index ++ ")"

theorem index_ofIndex (index : Nat) : (ofIndex index).index = index % UInt32.size := rfl

theorem ofIndex_index (id : PackageId) : ofIndex id.index = id := by
  simp [ofIndex, index]

end PackageId
end PackageResolution
