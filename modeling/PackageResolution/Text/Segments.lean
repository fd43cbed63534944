/-!
# Segments of a name

Package names are written as segments with a slash between them. A text always has at least one
segment, which may be empty: `a//b` has three, and the empty text has one.

Main statement: `segments_ne_nil`; so every name has a last segment.
-/
namespace PackageResolution.Text

def segments (name : String) : List (List Char) := name.toList.splitOn '/'

/-- The text after the last slash of a name. -/
def lastSegment (name : String) : String := String.ofList ((segments name).getLast?.getD [])

/-- Whether two slashes meet in a name, or a slash begins or ends it, or the name is empty. -/
def hasEmptySegment (name : String) : Bool := (segments name).any List.isEmpty

theorem segments_ne_nil (name : String) : segments name ≠ [] := by
  simp [segments, List.splitOn_ne_nil]

example : lastSegment "hw/drivers/uart" = "uart" := by decide +kernel
example : hasEmptySegment "a//b" = true ∧ hasEmptySegment "a/b" = false := by decide +kernel

end PackageResolution.Text
