/-!
# Splitting text at a character
-/

namespace SolText.Text

/-- The parts of a text between the occurrences of `separator`; one more than there are of these. -/
def splitAll (separator : Char) : List Char → List (List Char)
  | [] => [[]]
  | c :: rest =>
    if c = separator then [] :: splitAll separator rest
    else
      match splitAll separator rest with
      | part :: parts => (c :: part) :: parts
      | [] => [[c]]

/-- The text before the first `separator`, and the text behind it if there is one. -/
def splitFirst (separator : Char) : List Char → List Char × Option (List Char)
  | [] => ([], none)
  | c :: rest =>
    if c = separator then ([], some rest)
    else
      match splitFirst separator rest with
      | (before, after) => (c :: before, after)

end SolText.Text
