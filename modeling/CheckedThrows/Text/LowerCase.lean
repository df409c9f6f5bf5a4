import CheckedThrows.Text.Ranges

/-!
# Lower case

Full lower-casing of Unicode 14.  One capital has two letters in lower case
(the dotted capital I), and the capital sigma is written `ς` at the end of a
word: after a cased letter and not before one, where case-ignorable characters
such as apostrophes and accents are passed over.
-/

namespace CheckedThrows

/-- Runs of capitals: how many code points to skip, how many are in the run, distance
between capitals, and what to add for the small letter. -/
def capitalRuns : List (Nat × Nat × Nat × Int) := [
  (65,26,1,32), (101,23,1,32), (1,7,1,32), (33,47,2,1), (3,5,2,1), (2,15,2,1), (2,45,2,1),
  (1,1,1,-121), (0,5,2,1), (3,1,1,210), (0,3,2,1), (1,1,1,206), (0,1,1,1), (1,2,1,205), (0,1,1,1),
  (2,1,1,79), (0,1,1,202), (0,1,1,203), (0,1,1,1), (1,1,1,205), (0,1,1,207), (1,1,1,211),
  (0,1,1,209), (0,1,1,1), (3,1,1,211), (0,1,1,213), (1,1,1,214), (0,5,2,1), (1,1,1,218), (0,1,1,1),
  (1,1,1,218), (2,1,1,1), (1,1,1,218), (0,1,1,1), (1,2,1,217), (0,3,2,1), (1,1,1,219), (0,1,1,1),
  (3,1,1,1), (7,1,1,2), (0,1,1,1), (1,1,1,2), (0,1,1,1), (1,1,1,2), (0,17,2,1), (2,17,2,1),
  (2,1,1,2), (0,3,2,1), (1,1,1,-97), (0,1,1,-56), (0,39,2,1), (1,1,1,-130), (1,17,2,1),
  (7,1,1,10795), (0,1,1,1), (1,1,1,-163), (0,1,1,10792), (2,1,1,1), (1,1,1,-195), (0,1,1,69),
  (0,1,1,71), (0,9,2,1), (289,3,2,1), (3,1,1,1), (8,1,1,116), (6,1,1,38), (1,3,1,37), (1,1,1,64),
  (1,2,1,63), (1,17,1,32), (1,9,1,32), (35,1,1,8), (8,23,2,1), (5,1,1,-60), (2,1,1,1), (1,1,1,-7),
  (0,1,1,1), (2,3,1,-130), (0,16,1,80), (0,32,1,32), (48,33,2,1), (9,53,2,1), (1,1,1,15),
  (0,13,2,1), (2,95,2,1), (2,38,1,48), (2889,38,1,7264), (1,1,1,7264), (5,1,1,7264),
  (722,80,1,38864), (0,6,1,8), (2202,43,1,-3008), (2,3,1,-3008), (320,149,2,1), (9,1,1,-7615),
  (1,95,2,1), (9,8,1,-8), (8,6,1,-8), (10,8,1,-8), (8,8,1,-8), (8,6,1,-8), (11,7,2,-8), (8,8,1,-8),
  (24,8,1,-8), (8,8,1,-8), (8,8,1,-8), (8,2,1,-8), (0,2,1,-74), (0,1,1,-9), (11,4,1,-86),
  (0,1,1,-9), (11,2,1,-8), (0,2,1,-100), (12,2,1,-8), (0,2,1,-112), (0,1,1,-7), (11,2,1,-128),
  (0,2,1,-126), (0,1,1,-9), (297,1,1,-7517), (3,1,1,-8383), (0,1,1,-8262), (6,1,1,28), (45,16,1,16),
  (19,1,1,1), (818,26,1,26), (1840,48,1,48), (48,1,1,1), (1,1,1,-10743), (0,1,1,-3814),
  (0,1,1,-10727), (2,5,2,1), (1,1,1,-10780), (0,1,1,-10749), (0,1,1,-10783), (0,1,1,-10782),
  (1,1,1,1), (2,1,1,1), (8,2,1,-10815), (0,99,2,1), (8,3,2,1), (4,1,1,1), (31053,45,2,1),
  (19,27,2,1), (135,13,2,1), (3,61,2,1), (10,3,2,1), (1,1,1,-35332), (0,9,2,1), (4,1,1,1),
  (1,1,1,-42280), (2,3,2,1), (3,19,2,1), (1,1,1,-42308), (0,1,1,-42319), (0,1,1,-42315),
  (0,1,1,-42305), (0,1,1,-42308), (1,1,1,-42258), (0,1,1,-42282), (0,1,1,-42261), (0,1,1,928),
  (0,15,2,1), (1,1,1,-48), (0,1,1,-42307), (0,1,1,-35384), (0,3,2,1), (6,1,1,1), (5,3,2,1),
  (28,1,1,1), (22315,26,1,32), (1221,40,1,40), (136,36,1,40), (156,11,1,39), (1,15,1,39),
  (1,7,1,39), (1,2,1,39), (1770,51,1,64), (3053,32,1,32), (21888,32,1,32), (31392,34,1,34)]

/-- Characters passed over in the search for a cased neighbour. -/
def caseIgnorableRanges : CodeRanges := .ofRuns 0 [
  39,1, 6,1, 11,1, 35,1, 1,1, 71,1, 4,1, 1,1, 4,1, 2,2, 503,192, 4,2, 4,1, 9,2, 1,1, 251,7, 207,1,
  5,1, 49,45, 1,1, 1,2, 1,2, 1,1, 44,1, 11,6, 10,11, 1,1, 35,1, 10,21, 16,1, 101,8, 1,10, 1,4, 33,1,
  1,1, 30,27, 91,11, 58,11, 4,1, 2,1, 24,24, 43,3, 44,1, 7,2, 6,8, 41,58, 55,1, 1,1, 4,8, 4,1, 3,7,
  10,2, 13,1, 15,1, 58,1, 4,4, 8,1, 20,2, 26,1, 2,2, 57,1, 4,2, 4,2, 2,3, 3,1, 30,2, 3,1, 11,2,
  57,1, 4,5, 1,2, 4,1, 20,2, 22,6, 1,1, 58,1, 2,1, 1,4, 8,1, 7,2, 11,2, 30,1, 61,1, 12,1, 50,1, 3,1,
  55,1, 1,3, 5,3, 1,4, 7,2, 11,2, 29,1, 58,1, 2,1, 6,1, 5,2, 20,2, 28,2, 57,2, 4,4, 8,1, 20,2, 29,1,
  72,1, 7,3, 1,1, 90,1, 2,7, 11,9, 98,1, 2,9, 9,1, 1,6, 74,2, 27,1, 1,1, 1,1, 55,14, 1,5, 1,2, 5,11,
  1,36, 9,1, 102,4, 1,6, 1,2, 2,2, 25,2, 4,3, 16,4, 13,1, 2,2, 6,1, 15,1, 94,1, 608,3, 946,3, 29,2,
  30,2, 30,2, 64,2, 1,7, 8,1, 2,11, 3,1, 5,1, 45,5, 51,1, 65,2, 34,1, 118,3, 4,2, 9,1, 6,3, 219,2,
  2,1, 58,1, 1,7, 1,1, 1,1, 2,8, 6,10, 2,1, 39,1, 8,31, 49,4, 48,1, 1,5, 1,1, 5,1, 40,9, 12,2, 32,4,
  2,2, 1,3, 56,1, 1,2, 3,1, 1,3, 58,8, 2,2, 64,6, 82,3, 1,13, 1,7, 4,1, 6,1, 3,2, 50,63, 13,1,
  34,101, 445,1, 1,3, 11,3, 13,3, 13,3, 13,2, 12,5, 8,2, 10,1, 2,1, 2,5, 49,5, 1,10, 1,1, 13,1,
  16,13, 51,33, 2955,2, 113,3, 125,1, 15,1, 96,32, 47,1, 469,1, 36,4, 3,5, 5,1, 93,6, 93,3, 28438,1,
  1250,6, 270,1, 98,4, 1,10, 1,1, 28,4, 80,2, 14,34, 78,1, 23,3, 103,3, 3,2, 8,1, 3,1, 4,1, 25,2,
  5,1, 151,2, 26,18, 13,1, 38,8, 25,11, 46,3, 48,1, 2,4, 2,2, 17,1, 21,2, 66,6, 2,2, 2,2, 12,1, 8,1,
  35,1, 11,1, 51,1, 1,3, 2,2, 5,2, 1,1, 27,1, 14,2, 5,2, 1,1, 100,5, 9,3, 121,1, 2,1, 4,1, 20272,1,
  147,17, 573,16, 3,1, 12,16, 34,1, 2,1, 169,1, 7,1, 6,1, 11,1, 35,1, 1,1, 47,1, 45,2, 67,1, 21,3,
  513,1, 226,1, 149,5, 1029,6, 1,42, 1,9, 582,3, 1,2, 5,4, 40,3, 4,1, 165,2, 573,4, 387,2, 153,11,
  49,4, 123,1, 54,15, 41,1, 2,2, 10,3, 49,4, 2,2, 2,1, 4,1, 10,1, 50,3, 36,5, 1,8, 62,1, 12,2, 52,9,
  10,4, 2,1, 95,3, 2,1, 1,2, 6,1, 160,1, 3,8, 21,2, 57,2, 3,1, 37,7, 3,5, 195,8, 2,3, 1,1, 23,1,
  84,6, 1,1, 4,2, 1,2, 238,4, 6,2, 1,2, 27,2, 85,8, 2,1, 1,2, 106,1, 1,1, 2,6, 1,1, 101,3, 2,4, 1,5,
  259,9, 1,2, 256,2, 1,1, 4,1, 144,4, 2,2, 4,1, 32,10, 40,6, 2,4, 8,1, 9,6, 2,3, 46,13, 1,2, 406,7,
  1,6, 1,1, 82,22, 2,7, 1,2, 1,2, 122,6, 3,1, 1,2, 1,7, 1,1, 72,2, 3,1, 1,1, 347,2, 5435,9, 14007,5,
  59,7, 9,4, 1035,1, 63,17, 64,2, 1,2, 16395,4, 1,7, 1,2, 3230,2, 1,4, 4700,46, 2,23, 544,3, 9,16,
  2,7, 30,4, 148,3, 1979,55, 4,50, 8,1, 14,1, 22,5, 1,15, 1360,7, 1,17, 2,7, 1,2, 1,5, 261,14,
  368,1, 61,4, 1504,7, 109,8, 2735,5, 789505,1, 30,96, 128,240]

/-- Cased letters that are not passed over. -/
def casedRanges : CodeRanges := .ofRuns 0 [
  65,26, 6,26, 47,1, 10,1, 4,1, 5,23, 1,31, 1,195, 1,4, 4,208, 1,27, 192,4, 2,2, 3,3, 1,1, 6,1, 1,3,
  1,1, 1,20, 1,83, 1,139, 8,166, 1,38, 9,41, 2839,38, 1,1, 5,1, 2,43, 2,3, 672,86, 2,6, 2178,9,
  7,43, 2,3, 64,44, 63,13, 1,34, 101,278, 2,6, 2,38, 2,6, 2,8, 1,1, 1,1, 1,1, 1,31, 2,53, 1,7, 1,1,
  3,3, 1,7, 3,4, 2,6, 4,13, 5,3, 1,7, 261,1, 4,1, 2,10, 1,1, 3,5, 6,1, 1,1, 1,1, 1,4, 1,6, 4,1, 2,4,
  5,5, 4,1, 17,32, 3,2, 817,52, 1814,124, 2,103, 6,4, 3,2, 12,38, 1,1, 5,1, 30994,46, 18,28, 134,78,
  1,23, 3,4, 1,59, 5,2, 1,1, 1,5, 27,2, 3,1, 821,43, 5,9, 7,80, 20288,7, 12,5, 1033,26, 6,26,
  1189,80, 96,36, 4,36, 116,11, 1,15, 1,7, 1,2, 1,11, 1,15, 1,7, 1,2, 1731,51, 13,51, 2989,64,
  21856,64, 25984,85, 1,71, 1,2, 2,1, 2,2, 2,4, 1,12, 1,1, 1,7, 1,65, 1,4, 2,8, 1,7, 1,28, 1,4, 1,5,
  1,1, 3,7, 1,340, 2,25, 1,25, 1,31, 1,25, 1,31, 1,25, 1,31, 1,25, 1,31, 1,25, 1,8, 1844,10, 1,20,
  2529,68, 2028,26, 6,26, 6,26]

/-- What to add for the small letter of `n`, in runs that are counted from `start` on. -/
def capitalOffset? (start n : Nat) : List (Nat × Nat × Nat × Int) → Option Int
  | [] => none
  | (skip, size, distance, offset) :: rest =>
    let first := start + skip
    if first ≤ n && n < first + size && (n - first) % distance = 0 then some offset
    else capitalOffset? (first + size) n rest

def simpleLower (c : Char) : Char :=
  match capitalOffset? 0 c.toNat capitalRuns with
  | some offset => Char.ofNat (c.toNat + offset).toNat
  | none => c

/-- Whether the nearest character that is not passed over is cased. -/
def meetsCased (cs : List Char) : Bool :=
  match cs.dropWhile fun c => caseIgnorableRanges.contains c.toNat with
  | c :: _ => casedRanges.contains c.toNat
  | [] => false

/-- Lower case of a text, given the characters before it, nearest first. -/
def lowerAfter (before : List Char) : List Char → List Char
  | [] => []
  | c :: rest =>
    let small :=
      if c = 'Σ' then
        [if meetsCased before && !meetsCased rest then 'ς' else 'σ']
      else if c = 'İ' then ['i', '\u0307']
      else [simpleLower c]
    small ++ lowerAfter (c :: before) rest

def lowerCase (s : String) : String :=
  String.ofList (lowerAfter [] s.toList)

end CheckedThrows
