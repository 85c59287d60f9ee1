import Slang.Text.Utf8
/-!
# Small letters

The small form of a text, as far as it matters to a text in ASCII. A letter beyond ASCII whose small
form is beyond ASCII as well, and takes as many bytes, is as far from every ASCII text as its small
form is, so it stays. The table holds the others.
-/

namespace Slang.Text

/-- Letters beyond ASCII whose small form is in ASCII or takes another number of bytes, with that
form. -/
def smallForms : List (Nat × Nat) :=
  [(0x130, 0x69), (0x23A, 0x2C65), (0x23E, 0x2C66), (0x1E9E, 0xDF), (0x2126, 0x3C9), (0x212A, 0x6B),
    (0x212B, 0xE5), (0x2C62, 0x26B), (0x2C64, 0x27D), (0x2C6D, 0x251), (0x2C6E, 0x271),
    (0x2C6F, 0x250), (0x2C70, 0x252), (0x2C7E, 0x23F), (0x2C7F, 0x240), (0xA78D, 0x265),
    (0xA7AA, 0x266), (0xA7AB, 0x25C), (0xA7AC, 0x261), (0xA7AD, 0x26C), (0xA7AE, 0x26A),
    (0xA7B0, 0x29E), (0xA7B1, 0x287), (0xA7B2, 0x29D), (0xA7C5, 0x282), (0xA7CB, 0x264),
    (0xA7DC, 0x19B)]

/-- The small form of a character. -/
def lowerChar (c : Char) : Char :=
  match smallForms.lookup c.toNat with
  | some n => Char.ofNat n
  | none => c.toLower

/-- The small form of a text. A byte that belongs to no character becomes the character that stands
for such bytes. -/
def lower (t : Text) : Text :=
  t.runes.flatMap fun
    | .char c => ofChar (lowerChar c)
    | .stray _ => ofChar replacement

end Slang.Text
