/-!
# Lines

A line ends at a line feed and nowhere else, and the text after the last line feed is a line too, even
when it is empty.
-/

namespace Bundling.Text

/-- The number of lines of a text; the empty text is one line. -/
def lineCount (s : String) : Nat := s.toList.count '\n' + 1

end Bundling.Text
