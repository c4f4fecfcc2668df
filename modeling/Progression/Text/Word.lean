import Progression.Text.Alphabetic

/-!
# Word characters

A word character is alphabetic, a mark, a decimal digit, a connector
punctuation such as the underscore, or one of the two join controls. The class
is that of version 16.0 of the Unicode standard, while alphabetic characters are
read with version 17.0: a letter that came with the later version is alphabetic
but belongs to no word. No character before it changed sides, so the class is
the later one without the newcomers.

## Main definitions

* `isNewcomer` — the characters of version 17.0 that version 16.0 leaves unassigned.
* `isWord` — the character class.
-/

namespace Progression.Text

/-- The boundaries of the word characters beyond ASCII that are not alphabetic. -/
def wordBounds : InversionList :=
  [
    0x300, 0x345, 0x346, 0x363, 0x483, 0x48A, 0x591, 0x5B0, 0x658, 0x659,
    0x660, 0x66A, 0x6DF, 0x6E1, 0x6EA, 0x6ED, 0x6F0, 0x6FA, 0x740, 0x74B,
    0x7C0, 0x7CA, 0x7EB, 0x7F4, 0x7FD, 0x7FE, 0x818, 0x81A, 0x82D, 0x82E,
    0x859, 0x85C, 0x898, 0x8A0, 0x8CA, 0x8D4, 0x8E0, 0x8E2, 0x8EA, 0x8F0,
    0x93C, 0x93D, 0x94D, 0x94E, 0x951, 0x955, 0x966, 0x970, 0x9BC, 0x9BD,
    0x9CD, 0x9CE, 0x9E6, 0x9F0, 0x9FE, 0x9FF, 0xA3C, 0xA3D, 0xA4D, 0xA4E,
    0xA66, 0xA70, 0xABC, 0xABD, 0xACD, 0xACE, 0xAE6, 0xAF0, 0xAFD, 0xB00,
    0xB3C, 0xB3D, 0xB4D, 0xB4E, 0xB55, 0xB56, 0xB66, 0xB70, 0xBCD, 0xBCE,
    0xBE6, 0xBF0, 0xC3C, 0xC3D, 0xC4D, 0xC4E, 0xC66, 0xC70, 0xCBC, 0xCBD,
    0xCCD, 0xCCE, 0xCE6, 0xCF0, 0xD3B, 0xD3D, 0xD4D, 0xD4E, 0xD66, 0xD70,
    0xDCA, 0xDCB, 0xDE6, 0xDF0, 0xE47, 0xE4D, 0xE4E, 0xE4F, 0xE50, 0xE5A,
    0xEBA, 0xEBB, 0xEC8, 0xECD, 0xECE, 0xECF, 0xED0, 0xEDA, 0xF18, 0xF1A,
    0xF20, 0xF2A, 0xF35, 0xF36, 0xF37, 0xF38, 0xF39, 0xF3A, 0xF3E, 0xF40,
    0xF84, 0xF85, 0xF86, 0xF88, 0xFC6, 0xFC7, 0x1037, 0x1038, 0x1039, 0x103B,
    0x1040, 0x104A, 0x1090, 0x109A, 0x135D, 0x1360, 0x1714, 0x1716, 0x1734, 0x1735,
    0x17B4, 0x17B6, 0x17C9, 0x17D4, 0x17DD, 0x17DE, 0x17E0, 0x17EA, 0x180B, 0x180E,
    0x180F, 0x181A, 0x1939, 0x193C, 0x1946, 0x1950, 0x19D0, 0x19DA, 0x1A60, 0x1A61,
    0x1A75, 0x1A7D, 0x1A7F, 0x1A8A, 0x1A90, 0x1A9A, 0x1AB0, 0x1ABF, 0x1AC1, 0x1ACC,
    0x1ACF, 0x1ADE, 0x1AE0, 0x1AEC, 0x1B34, 0x1B35, 0x1B44, 0x1B45, 0x1B50, 0x1B5A,
    0x1B6B, 0x1B74, 0x1BAA, 0x1BAC, 0x1BB0, 0x1BBA, 0x1BE6, 0x1BE7, 0x1BF2, 0x1BF4,
    0x1C37, 0x1C38, 0x1C40, 0x1C4A, 0x1C50, 0x1C5A, 0x1CD0, 0x1CD3, 0x1CD4, 0x1CE9,
    0x1CED, 0x1CEE, 0x1CF4, 0x1CF5, 0x1CF7, 0x1CFA, 0x1DC0, 0x1DD3, 0x1DF5, 0x1E00,
    0x200C, 0x200E, 0x203F, 0x2041, 0x2054, 0x2055, 0x20D0, 0x20F1, 0x2CEF, 0x2CF2,
    0x2D7F, 0x2D80, 0x302A, 0x3030, 0x3099, 0x309B, 0xA620, 0xA62A, 0xA66F, 0xA673,
    0xA67C, 0xA67E, 0xA6F0, 0xA6F2, 0xA806, 0xA807, 0xA82C, 0xA82D, 0xA8C4, 0xA8C5,
    0xA8D0, 0xA8DA, 0xA8E0, 0xA8F2, 0xA900, 0xA90A, 0xA92B, 0xA92E, 0xA953, 0xA954,
    0xA9B3, 0xA9B4, 0xA9C0, 0xA9C1, 0xA9D0, 0xA9DA, 0xA9F0, 0xA9FA, 0xAA50, 0xAA5A,
    0xAABF, 0xAAC0, 0xAAC1, 0xAAC2, 0xAAF6, 0xAAF7, 0xABEC, 0xABEE, 0xABF0, 0xABFA,
    0xFE00, 0xFE10, 0xFE20, 0xFE30, 0xFE33, 0xFE35, 0xFE4D, 0xFE50, 0xFF10, 0xFF1A,
    0xFF3F, 0xFF40, 0x101FD, 0x101FE, 0x102E0, 0x102E1, 0x104A0, 0x104AA, 0x10A38, 0x10A3B,
    0x10A3F, 0x10A40, 0x10AE5, 0x10AE7, 0x10D30, 0x10D3A, 0x10D40, 0x10D4A, 0x10D6A, 0x10D6E,
    0x10EFD, 0x10F00, 0x10F46, 0x10F51, 0x10F82, 0x10F86, 0x11046, 0x11047, 0x11066, 0x11071,
    0x1107F, 0x11080, 0x110B9, 0x110BB, 0x110F0, 0x110FA, 0x11133, 0x11135, 0x11136, 0x11140,
    0x11173, 0x11174, 0x111C0, 0x111C1, 0x111C9, 0x111CD, 0x111D0, 0x111DA, 0x11235, 0x11237,
    0x112E9, 0x112EB, 0x112F0, 0x112FA, 0x1133B, 0x1133D, 0x1134D, 0x1134E, 0x11366, 0x1136D,
    0x11370, 0x11375, 0x113CE, 0x113D1, 0x113D2, 0x113D3, 0x113E1, 0x113E3, 0x11442, 0x11443,
    0x11446, 0x11447, 0x11450, 0x1145A, 0x1145E, 0x1145F, 0x114C2, 0x114C4, 0x114D0, 0x114DA,
    0x115BF, 0x115C1, 0x1163F, 0x11640, 0x11650, 0x1165A, 0x116B6, 0x116B8, 0x116C0, 0x116CA,
    0x116D0, 0x116E4, 0x1172B, 0x1172C, 0x11730, 0x1173A, 0x11839, 0x1183B, 0x118E0, 0x118EA,
    0x1193D, 0x1193F, 0x11943, 0x11944, 0x11950, 0x1195A, 0x119E0, 0x119E1, 0x11A33, 0x11A35,
    0x11A47, 0x11A48, 0x11A98, 0x11A9A, 0x11BF0, 0x11BFA, 0x11C3F, 0x11C40, 0x11C50, 0x11C5A,
    0x11D42, 0x11D43, 0x11D44, 0x11D46, 0x11D50, 0x11D5A, 0x11D97, 0x11D98, 0x11DA0, 0x11DAA,
    0x11DE0, 0x11DEA, 0x11F41, 0x11F43, 0x11F50, 0x11F5B, 0x13440, 0x13441, 0x13447, 0x13456,
    0x1612F, 0x1613A, 0x16A60, 0x16A6A, 0x16AC0, 0x16ACA, 0x16AF0, 0x16AF5, 0x16B30, 0x16B37,
    0x16B50, 0x16B5A, 0x16D70, 0x16D7A, 0x16FE4, 0x16FE5, 0x1BC9D, 0x1BC9E, 0x1CCF0, 0x1CCFA,
    0x1CF00, 0x1CF2E, 0x1CF30, 0x1CF47, 0x1D165, 0x1D16A, 0x1D16D, 0x1D173, 0x1D17B, 0x1D183,
    0x1D185, 0x1D18C, 0x1D1AA, 0x1D1AE, 0x1D242, 0x1D245, 0x1D7CE, 0x1D800, 0x1DA00, 0x1DA37,
    0x1DA3B, 0x1DA6D, 0x1DA75, 0x1DA76, 0x1DA84, 0x1DA85, 0x1DA9B, 0x1DAA0, 0x1DAA1, 0x1DAB0,
    0x1E130, 0x1E137, 0x1E140, 0x1E14A, 0x1E2AE, 0x1E2AF, 0x1E2EC, 0x1E2FA, 0x1E4EC, 0x1E4FA,
    0x1E5EE, 0x1E5F0, 0x1E5F1, 0x1E5FB, 0x1E8D0, 0x1E8D7, 0x1E944, 0x1E947, 0x1E948, 0x1E94B,
    0x1E950, 0x1E95A, 0x1FBF0, 0x1FBFA, 0xE0100, 0xE01F0
  ]

/-- The boundaries of the letters, marks and digits that came with version 17.0. -/
def newcomerBounds : InversionList :=
  [
    0x88F, 0x890, 0xC5C, 0xC5D, 0xCDC, 0xCDD, 0x1ACF, 0x1ADE, 0x1AE0, 0x1AEC,
    0xA7CE, 0xA7D0, 0xA7D2, 0xA7D3, 0xA7D4, 0xA7D5, 0xA7F1, 0xA7F2, 0x10940, 0x1095A,
    0x10EC5, 0x10EC8, 0x10EFA, 0x10EFC, 0x11B60, 0x11B68, 0x11DB0, 0x11DDC, 0x11DE0, 0x11DEA,
    0x16EA0, 0x16EB9, 0x16EBB, 0x16ED4, 0x16FF2, 0x16FF7, 0x187F8, 0x18800, 0x18D09, 0x18D1F,
    0x18D80, 0x18DF3, 0x1E6C0, 0x1E6DF, 0x1E6E0, 0x1E6F6, 0x1E6FE, 0x1E700, 0x2B73A, 0x2B740,
    0x2CEA2, 0x2CEAE, 0x323B0, 0x3347A
  ]

/-- A letter, mark or digit that came with version 17.0 and is still unassigned in 16.0. -/
def isNewcomer (c : Char) : Bool := newcomerBounds.contains c.toNat

/-- A character of a word. -/
def isWord (c : Char) : Bool :=
  (isAlphabetic c || c.isDigit || c == '_' || wordBounds.contains c.toNat) && !isNewcomer c

/-- No newcomer comes before the Arabic extensions. -/
theorem isNewcomer_eq_false_of_lt {c : Char} (h : c.toNat < 0x88F) : isNewcomer c = false :=
  InversionList.contains_eq_false_of_lt newcomerBounds.tail h

/-- Apart from the newcomers, every alphabetic character is one of a word. -/
theorem isWord_of_isAlphabetic {c : Char} (h : isAlphabetic c = true)
    (hc : isNewcomer c = false) : isWord c = true := by
  simp [isWord, h, hc]

end Progression.Text
