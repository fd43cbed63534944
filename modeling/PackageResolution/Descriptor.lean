import PackageResolution.Text.Blank
import PackageResolution.Text.Segments
/-!
# Dependency descriptors

A descriptor names a package by its repository and its name. It is written `@repo/name`, or
`name` alone where the repository is understood: a package's own dependencies default to the
package's repository, everything else to the project's.

A text is refused for one cause, and the causes are looked for in this order: nothing but blanks,
a blank anywhere, a qualified text without a name, one without a repository, an empty segment.
-/
namespace PackageResolution

/-- The name of a package together with the repository that provides it. -/
structure Descriptor where
  repo : String
  name : String
  deriving DecidableEq, Inhabited

namespace Descriptor

/-- The repository that is the project itself. -/
def localRepo : String := "local"

/-- Why a text is no descriptor. -/
inductive ParseError where
  | empty
  | whitespace (text : String)
  | missingName (text : String)
  | emptyRepo (text : String)
  | emptySegment (text : String)
  deriving DecidableEq

def ParseError.message : ParseError → String
  | empty => "dependency string is empty"
  | whitespace text => "dependency `" ++ text ++ "` contains whitespace"
  | missingName text =>
    "dependency `" ++ text ++ "` names a repository but no package (expected `@repo/name`)"
  | emptyRepo text => "dependency `" ++ text ++ "` has an empty repository name"
  | emptySegment text => "dependency `" ++ text ++ "` has an empty path segment"

/-- The descriptor with a given repository, unless the name has an empty segment. -/
def checked (text repo name : String) : Except ParseError Descriptor :=
  if Text.hasEmptySegment name then .error (.emptySegment text) else .ok ⟨repo, name⟩

/-- Reads the part of a qualified text after its `@`: the repository ends at the first slash. -/
def parseQualified (text : String) (rest : List Char) : Except ParseError Descriptor :=
  match rest.dropWhile (· != '/') with
  | [] => .error (.missingName text)
  | _ :: name =>
    let repo := rest.takeWhile (· != '/')
    if repo = [] then .error (.emptyRepo text)
    else if name = [] then .error (.missingName text)
    else checked text (String.ofList repo) (String.ofList name)

/-- Reads a descriptor (`parse`). A name without repository belongs to `defaultRepo`. -/
def parse (text defaultRepo : String) : Except ParseError Descriptor :=
  if text.toList.all Text.isBlank then .error .empty
  else if text.toList.any Text.isBlank then .error (.whitespace text)
  else match text.toList with
    | '@' :: rest => parseQualified text rest
    | _ => checked text defaultRepo text

/-- The qualified form. -/
def display (d : Descriptor) : String := "@" ++ d.repo ++ "/" ++ d.name

/-- Whether a descriptor points into the project itself (`is_local`). -/
def isLocal (d : Descriptor) : Bool := d.repo == localRepo

/-- Descriptors are ordered by repository, then by name. -/
instance : Ord Descriptor := ⟨fun a b => (compare a.repo b.repo).then (compare a.name b.name)⟩

end Descriptor
end PackageResolution
