/-!
White space as Unicode defines it.

`isBlank` holds the characters with the property White_Space, which readers of loose formats skip.
-/

namespace FleetHealth.Text

/-- A character with the Unicode property White_Space: the six ASCII blanks, the next-line control,
the no-break space and the separators of the categories Zs, Zl and Zp. -/
def isBlank (c : Char) : Bool :=
  ('\t' ≤ c && c ≤ '\r') || c == ' ' || c == '\u0085' || c == '\u00a0' || c == '\u1680' ||
    ('\u2000' ≤ c && c ≤ '\u200a') || c == '\u2028' || c == '\u2029' || c == '\u202f' ||
    c == '\u205f' || c == '\u3000'

end FleetHealth.Text
