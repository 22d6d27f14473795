/-!
# Columns of text

Texts are filled up with spaces to the width of a column. A text that is wider than its column is
not cut.
-/

namespace Reckoner.Text

/-- Fills up with spaces on the left to the given width. -/
def padLeft (width : Nat) (s : String) : String :=
  String.ofList (List.replicate (width - s.length) ' ') ++ s

/-- Fills up with spaces on the right to the given width. -/
def padRight (width : Nat) (s : String) : String :=
  s ++ String.ofList (List.replicate (width - s.length) ' ')

end Reckoner.Text
