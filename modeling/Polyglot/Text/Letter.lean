import Polyglot.Text.Printable

/-!
# Letters of names

Which characters may stand in a name and which of them may start one. Beyond ASCII, both are given by places: those of
names among the printable characters, and those that start a name among those of names.
-/
namespace Polyglot.Text

def nameRanges : List Nat := [
  9, 1, 9, 1, 1, 1, 2, 1, 5, 23, 1, 31, 1, 458, 4, 12, 14, 5, 7, 1, 1, 1, 17, 117, 1, 2, 1, 3, 1, 1, 2, 109, 1, 139, 1,
  5, 2, 205, 6, 41, 5, 45, 1, 1, 1, 2, 1, 2, 1, 32, 12, 11, 4, 74, 4, 102, 1, 8, 1, 10, 1, 19, 2, 1, 14, 214, 4, 2, 2,
  46, 15, 28, 1, 35, 1, 209, 2, 10, 1, 98, 10, 1, 1, 80, 1, 82, 2, 90, 1, 1, 6, 61, 11, 91, 9, 4, 1, 160, 1, 4, 7, 15,
  10, 96, 1, 58, 1, 15, 1, 10, 2, 83, 23, 2, 6, 10, 11, 1, 1, 1, 1, 1, 4, 66, 1, 54, 8, 1, 19, 74, 6, 78, 2, 83, 1, 589,
  9, 9, 11, 16, 10, 92, 1, 620, 2, 43, 2, 75, 3, 55, 2, 122, 3, 1, 4, 12, 21, 271, 3, 126, 34, 28, 2, 113, 7, 1, 6, 14,
  1, 103, 17, 9, 11, 116, 4, 56, 5, 59, 2, 55, 8, 3, 1, 725, 1, 1, 3, 10, 3, 10, 3, 13, 3, 10, 41, 2, 19, 1, 11, 1, 11,
  1, 15, 13, 33, 13, 4, 1, 3, 12, 2, 1, 4, 1, 2, 10, 1, 1, 2, 6, 6, 1, 1, 1, 1, 1, 1, 16, 2, 4, 5, 5, 4, 1, 17, 41,
  2626, 229, 6, 9, 7, 97, 1, 112, 439, 3, 25, 15, 1, 5, 2, 5, 3, 88, 2, 3, 1, 90, 1, 141, 16, 32, 36, 16, 511, 6592, 64,
  22157, 55, 46, 2, 269, 3, 76, 4, 10, 1, 115, 29, 9, 2, 103, 2, 126, 4, 1, 10, 52, 4, 70, 2, 34, 3, 1, 1, 49, 2, 36, 1,
  94, 13, 11, 2, 110, 4, 23, 3, 76, 2, 16, 2, 80, 1, 14, 2, 123, 1, 11752, 1, 131, 17, 139, 6, 218, 18, 118, 1, 10, 6,
  16, 10, 16, 3, 2, 24, 3, 27, 1, 1, 1, 2, 1, 1, 1, 1, 1, 1, 1, 1, 126, 15, 10, 7, 26, 4, 1, 1, 26, 11, 110, 16, 211,
  57, 53, 85, 80, 27, 32, 4, 103, 1, 44, 1, 337, 1, 545, 9, 23, 9, 31, 9, 21, 5, 22, 7, 26, 1, 56, 2, 2, 62, 50, 18, 29,
  3, 29, 3, 8, 1, 30, 12, 54, 7, 22, 8, 19, 8, 18, 11, 175, 6, 50, 31, 44, 1, 31, 10, 34, 9, 22, 4, 21, 7, 94, 27, 76,
  6, 99, 4, 40, 2, 70, 4, 4, 1, 13, 1, 1, 23, 55, 6, 38, 1, 230, 5, 10, 3, 74, 1, 74, 23, 71, 3, 11, 13, 57, 1, 62, 6,
  66, 1, 74, 9, 60, 3, 72, 1, 65, 8, 75, 3, 1, 5, 136, 5, 10, 21, 227, 2, 1, 51, 1033, 5, 293, 2, 2264, 2, 124, 1, 55,
  9, 4, 2, 10, 7, 104, 27, 151, 1, 8233, 1, 2, 1, 69, 461, 5, 3, 14, 2, 7, 30, 4, 127, 3, 133, 679, 1, 25, 1, 31, 1, 25,
  1, 31, 1, 25, 1, 31, 1, 25, 1, 31, 1, 25, 1, 58, 512, 55, 4, 50, 8, 1, 14, 1, 7, 159, 1, 89, 1, 225, 9, 93, 131, 141,
  2517, 66061]

def nameStartRanges : List Nat := [
  0, 2, 1, 532, 112, 12, 1, 246, 5, 246, 51, 31, 11, 43, 31, 2, 1, 100, 13, 2, 6, 2, 10, 5, 1, 30, 27, 89, 11, 1, 10,
  33, 9, 3, 1, 22, 4, 1, 9, 1, 3, 1, 5, 25, 3, 41, 8, 42, 57, 54, 3, 1, 18, 1, 7, 10, 12, 16, 3, 44, 1, 1, 12, 1, 1, 5,
  12, 3, 4, 43, 12, 5, 12, 3, 4, 48, 1, 1, 14, 3, 12, 1, 9, 46, 1, 1, 15, 5, 12, 1, 1, 36, 12, 1, 16, 50, 1, 1, 16, 6,
  12, 1, 3, 49, 1, 1, 16, 4, 12, 2, 4, 53, 2, 1, 14, 4, 1, 3, 12, 6, 3, 59, 28, 48, 1, 1, 8, 7, 18, 43, 1, 1, 10, 7, 16,
  5, 17, 44, 22, 5, 48, 43, 20, 1, 10, 6, 4, 4, 3, 1, 3, 2, 7, 3, 4, 13, 12, 1, 15, 669, 12, 875, 4, 19, 3, 18, 2, 16,
  2, 52, 32, 2, 25, 130, 1, 102, 34, 105, 11, 23, 5, 53, 60, 1, 35, 47, 17, 8, 22, 30, 13, 2, 10, 44, 14, 36, 30, 3, 10,
  91, 24, 4, 1, 6, 1, 2, 3, 193, 64, 474, 3, 15, 26, 322, 3, 99, 1, 79, 32, 12, 6, 96, 2, 29362, 10, 49, 11, 31, 2, 80,
  2, 200, 1, 3, 1, 4, 1, 23, 6, 52, 2, 50, 46, 9, 11, 28, 8, 23, 13, 29, 4, 47, 14, 1, 10, 5, 1, 10, 10, 46, 14, 3, 1,
  8, 12, 24, 3, 50, 1, 1, 3, 2, 2, 5, 2, 1, 1, 15, 5, 3, 2, 204, 20, 11729, 1, 626, 37, 132, 10, 26, 1, 82, 2, 316, 1,
  78, 1, 100, 5, 237, 10, 891, 9, 36, 4, 94, 2, 324, 14, 42, 2, 54, 11, 18, 4, 44, 3, 53, 26, 2, 2, 1, 4, 45, 12, 25,
  13, 36, 24, 1, 2, 36, 1, 1, 3, 48, 14, 4, 16, 45, 13, 84, 26, 46, 2, 1, 12, 1, 1, 5, 14, 53, 18, 4, 11, 51, 20, 3, 10,
  47, 16, 4, 2, 48, 17, 1, 10, 43, 13, 1, 10, 27, 25, 51, 15, 64, 10, 43, 12, 1, 1, 1, 12, 47, 14, 2, 1, 1, 10, 40, 7,
  1, 5, 1, 11, 46, 16, 120, 16, 1, 10, 30, 36, 47, 16, 1, 11, 40, 12, 1, 10, 19, 4, 3581, 10, 79, 10, 30, 5, 48, 7, 4,
  10, 179, 1, 1, 59, 16, 3, 8229, 104, 936, 177, 31, 38, 45, 7, 7, 10, 31, 1, 44, 14, 225, 7, 68, 7, 1, 10, 141, 10,
  65811]

def namePlace? (c : Char) : Option Nat := (placeIn? printableRanges c.toNat).bind (placeIn? nameRanges)

def isNameStart (c : Char) : Bool :=
  if c.toNat < 128 then c.isAlpha || c == '_' else ((namePlace? c).bind (placeIn? nameStartRanges)).isSome

def isNameRest (c : Char) : Bool :=
  if c.toNat < 128 then c.isAlphanum || c == '_' else (namePlace? c).isSome

end Polyglot.Text
