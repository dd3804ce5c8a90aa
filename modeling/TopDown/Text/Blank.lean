import TopDown.Text.CharSet

/-!
# White space

The characters with the Unicode property White_Space. They include the line and paragraph
separators and the spaces of other scripts, but no zero-width space.
-/

namespace TopDown

namespace CharSet

/-- The characters with the property White_Space. -/
def blank : CharSet := ⟨[
    (0x9, 0xD), (0x20, 0x20), (0x85, 0x85), (0xA0, 0xA0), (0x1680, 0x1680), (0x2000, 0x200A),
    (0x2028, 0x2029), (0x202F, 0x202F), (0x205F, 0x205F), (0x3000, 0x3000)]⟩

end CharSet

/-- Whether the character is white space. -/
def isBlank (c : Char) : Bool := CharSet.blank.contains c

end TopDown
