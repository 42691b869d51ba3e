/-!
Letters regardless of case, as far as ASCII words are concerned: some letters outside ASCII have
ASCII letters as their lower case or count as the same letter.
-/

namespace EnvFill.Text

/-- The lower case of a letter whose lower case holds an ASCII letter; any other character stays.
The Kelvin sign is a `k`, and the dotted capital I is an `i` and a dot. -/
def lower (c : Char) : List Char :=
  if c.isUpper then [c.toLower]
  else if c = '\u212A' then ['k']
  else if c = '\u0130' then ['i', '\u0307']
  else [c]

/-- The text in lower case, as far as it is compared with ASCII words. -/
def lowerText (text : List Char) : List Char := text.flatMap lower

/-- The letters outside ASCII that count as the ASCII letter `c` when case is ignored. -/
def lookalikes (c : Char) : List Char :=
  if c.toLower = 'i' then ['\u0130', '\u0131']
  else if c.toLower = 's' then ['\u017F']
  else if c.toLower = 'k' then ['\u212A']
  else []

def sameLetter (c d : Char) : Bool := d.toLower == c.toLower || (lookalikes c).contains d

end EnvFill.Text
