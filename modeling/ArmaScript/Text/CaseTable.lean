/-!
# Letter case of characters beyond ASCII

The code points of a property are listed as runs: all points from a first to a last one, or every
second of them. Only points above ASCII are listed, apart from the characters that a word's case
looks through, which are listed in full.
-/

namespace ArmaScript.Text

/-- The code points `first`, `first + step`, ... up to `last`. -/
structure Run where
  first : Nat
  last : Nat
  step : Nat

def Run.contains (r : Run) (n : Nat) : Bool :=
  r.first ≤ n && n ≤ r.last && (n - r.first) % r.step == 0

/-- A run whose members have their lower-case form at a common distance. -/
structure Shift where
  run : Run
  distance : Int

/-- Runs with the same step. Each is given by how far it starts behind the start of the one before, and
by how far it reaches. -/
def runsAfter (step : Nat) : Nat → List (Nat × Nat) → List Run
  | _, [] => []
  | before, (gap, extent) :: rest =>
    let first := before + gap
    ⟨first, first + extent, step⟩ :: runsAfter step first rest

/-- Runs with the same step, of which the first is counted from zero. -/
def every (step : Nat) (runs : List (Nat × Nat)) : List Run :=
  runsAfter step 0 runs

/-- Code points that stand alone, each given by its distance from the one before. -/
def singles (gaps : List Nat) : List Run :=
  every 1 (gaps.map (·, 0))

/-- Runs under their distances from their lower-case forms. -/
def shifted {α : Type} (runs : List α → List Run) (rows : List (Int × List α)) : List Shift :=
  rows.flatMap fun (distance, given) => (runs given).map (⟨·, distance⟩)

def lowercaseRuns : List Run :=
  every 1 [(223, 23), (25, 7), (161, 2), (36, 2), (291, 4), (154, 3), (50, 34), (132, 47),
    (304, 40), (2928, 42), (45, 2), (763, 5), (2184, 8), (128, 191), (528, 5), (16, 7), (16, 7),
    (16, 5), (16, 7), (16, 7), (16, 13), (16, 7), (16, 7), (16, 7), (16, 4), (18, 2), (14, 3),
    (16, 7), (18, 2), (158, 12), (182, 3), (42, 15), (864, 25), (1888, 47), (208, 37), (32304, 42),
    (44, 12), (20, 79), (20368, 6), (19, 4), (1070, 25), (1255, 39), (176, 35), (2024, 50),
    (3072, 31), (21920, 31), (26042, 25), (104, 25), (52, 3), (52, 25), (52, 25), (52, 25),
    (52, 25), (52, 25), (52, 25), (52, 25), (52, 25), (52, 27), (56, 24), (26, 5), (32, 24),
    (26, 5), (32, 24), (26, 5), (32, 24), (26, 5), (32, 24), (26, 5), (1852, 9), (11, 19),
    (2583, 33)] ++
  every 2 [(257, 54), (55, 16), (17, 46), (49, 6), (39, 4), (43, 16), (17, 18), (28, 64), (59, 4),
    (19, 112), (9, 66), (70, 34), (319, 32), (140, 32), (42, 52), (55, 12), (13, 96), (6450, 262),
    (149, 6), (106, 6), (3432, 4), (12, 8), (3, 6), (10, 98), (31168, 44), (64, 28), (162, 84),
    (77, 12), (15, 8), (18, 24), (36, 14), (28, 8), (37, 4), (23969, 36), (1, 8), (12, 12), (16, 4),
    (463, 44), (5, 50), (43, 6), (52379, 24), (1, 4), (8, 16), (100, 20), (3, 4), (8, 8)] ++
  singles [170, 11, 5, 197, 4, 2, 3, 4, 1, 5, 3, 9, 10, 2, 1, 2, 3, 4, 2, 3, 1, 12, 3, 39, 3, 2, 71,
    3, 1, 2, 126, 1, 132, 44, 2, 4, 25, 64, 1, 5, 26, 2, 6, 3, 1, 7098, 1, 7, 8, 1, 15, 1, 31, 1,
    122, 14, 139, 4, 1, 4, 28, 5, 5, 3, 1, 17, 54, 2781, 4, 1, 11, 2, 113, 8, 2, 5, 52, 6, 31087,
    148, 92, 2, 6, 27, 25, 2, 47, 24003, 452, 4, 53319]

/-- Upper-case letters without a lower-case form of a single character. -/
def capitalRuns : List Run :=
  every 1 [(978, 2), (7481, 2), (5, 2), (9, 4), (111335, 25), (52, 25), (52, 25), (65, 3), (5, 7),
    (34, 25), (55, 3), (6, 7), (9, 6), (37, 3), (5, 4), (10, 6), (34, 25), (52, 25), (52, 25),
    (52, 25), (52, 25), (52, 25), (56, 24), (58, 24), (58, 24), (58, 24), (58, 24), (6560, 25),
    (32, 25), (32, 25)] ++
  singles [304, 627, 7519, 5, 14, 15, 4, 4, 1, 3, 1, 2, 11, 1, 6, 111447, 2, 1, 3, 3, 1, 94, 1, 51,
    1, 13, 644]

/-- Title-case letters: digraphs of which only the first half is upper-case. -/
def titlecaseRuns : List Run :=
  every 1 [(8072, 7), (16, 7), (16, 7)] ++
  singles [453, 3, 3, 39, 7626, 16, 48]

/-- Characters that do not end a word when its case is looked at: marks, apostrophes, modifiers. -/
def ignorableRuns : List Run :=
  every 1 [(688, 191), (467, 6), (270, 44), (111, 5), (16, 10), (59, 20), (139, 7), (9, 9), (11, 3),
    (70, 26), (118, 10), (69, 10), (43, 23), (67, 2), (63, 7), (49, 57), (120, 7), (16, 6),
    (112, 3), (138, 2), (118, 4), (57, 5), (583, 3), (145, 2), (98, 6), (18, 8), (110, 8),
    (189, 13), (15, 4), (173, 3), (5, 5), (44, 2), (19, 3), (748, 2), (949, 2), (165, 6), (18, 10),
    (66, 4), (277, 2), (25, 2), (300, 7), (14, 9), (61, 30), (80, 3), (107, 8), (55, 3), (9, 2),
    (129, 7), (76, 5), (180, 62), (111, 100), (562, 2), (16, 2), (16, 2), (30, 4), (31, 4),
    (102, 12), (64, 32), (3103, 2), (241, 31), (586, 3), (7, 4), (104, 5), (99, 2), (29692, 5),
    (375, 3), (5, 9), (40, 3), (100, 33), (136, 2), (106, 2), (238, 17), (70, 7), (33, 10), (57, 2),
    (54, 3), (115, 5), (306, 4), (14, 2), (20553, 16), (590, 15), (32, 15), (473, 2), (893, 4),
    (1034, 5), (7, 41), (43, 8), (591, 2), (11, 3), (44, 2), (748, 3), (546, 10), (60, 3),
    (182, 14), (71, 2), (52, 3), (77, 2), (182, 8), (19, 3), (102, 2), (180, 7), (131, 6), (10, 4),
    (200, 7), (10, 2), (113, 5), (255, 3), (129, 7), (125, 5), (109, 2), (5, 3), (5, 4), (264, 8),
    (421, 3), (45, 9), (50, 5), (8, 3), (22, 5), (8, 2), (49, 12), (422, 6), (8, 5), (90, 21),
    (24, 6), (135, 5), (5887, 8), (14016, 4), (64, 6), (16, 3), (1103, 16), (16481, 3), (5, 6),
    (3243, 3), (4704, 45), (48, 22), (567, 2), (12, 15), (18, 6), (37, 3), (152, 2), (1982, 54),
    (59, 49), (1504, 6), (11, 4), (266, 13), (444, 3), (1508, 6), (116, 7), (2743, 4), (789541, 95),
    (224, 239)] ++
  every 2 [(2879, 4), (253, 4), (10, 6), (640, 6), (3, 4), (108, 4), (88, 46), (1, 8), (12, 34),
    (2748, 12), (3, 4), (219, 8), (185, 4), (227, 24), (5, 10), (14, 4), (730, 4), (163, 14),
    (7, 10), (35401, 4), (26231, 12), (7, 6), (3087, 10), (3, 4), (48475, 20), (7, 12), (1374, 24),
    (1, 4), (8, 14)] ++
  singles [39, 7, 12, 36, 2, 72, 5, 2, 5, 3, 1, 700, 1, 5, 10, 1, 2, 466, 6, 96, 2, 1, 2, 1, 2, 45,
    40, 36, 48, 159, 2, 233, 3, 139, 8, 1, 169, 2, 17, 21, 1, 14, 16, 59, 17, 21, 1, 27, 3, 1, 58,
    5, 1, 5, 1, 9, 31, 1, 4, 12, 1, 58, 11, 1, 5, 21, 1, 30, 59, 6, 2, 9, 8, 1, 12, 1, 31, 62, 13,
    51, 4, 59, 8, 4, 2, 8, 1, 12, 1, 30, 59, 3, 7, 6, 1, 21, 1, 29, 1, 58, 1, 17, 21, 1, 30, 73, 12,
    91, 128, 103, 1, 109, 1, 63, 115, 1, 3, 1, 26, 1, 41, 3, 1, 7, 16, 95, 1590, 1, 31, 1, 31, 1,
    65, 1, 17, 17, 6, 102, 66, 1, 35, 126, 1, 10, 229, 1, 3, 100, 40, 144, 2, 9, 62, 1, 39, 1, 61,
    2, 1, 7, 70, 1, 154, 28, 7, 4, 1, 127, 584, 61, 1, 26, 1, 11, 3, 58, 2, 28, 3069, 1, 242, 16,
    176, 470, 54, 28634, 1527, 115, 113, 1, 127, 136, 1, 9, 4, 5, 26, 1, 6, 152, 1, 58, 180, 9, 1,
    18, 22, 1, 75, 1, 3, 1, 13, 9, 36, 12, 55, 4, 1, 6, 1, 2, 28, 15, 1, 6, 1, 2, 239, 3, 5, 20273,
    757, 63, 3, 170, 8, 7, 12, 36, 2, 48, 46, 1, 68, 538, 227, 1829, 1, 57, 166, 1, 965, 1, 341,
    111, 3, 1, 69, 1, 3, 5, 11, 91, 2, 73, 13, 1, 78, 101, 2, 1, 7, 161, 33, 1, 58, 1, 4, 262, 24,
    92, 5, 1, 2, 1, 249, 1, 2, 1, 28, 1, 96, 2, 1, 107, 2, 10, 386, 1, 257, 1, 2, 5, 151, 1, 5, 103,
    81, 1, 422, 115, 1, 2, 1, 132, 2, 84, 1, 4, 2, 348, 1, 20571, 145, 1, 2, 1, 16409, 1, 3231, 1,
    7639, 15, 24, 2, 1413, 1, 650, 793939]

/-- Letters that have a lower-case form of one character. -/
def lowerShifts : List Shift :=
  shifted (every 1) [(32, [(192, 22), (24, 6), (697, 16), (19, 7), (108, 31), (64273, 25),
    (6527, 31), (21920, 31)]), (-130, [(1021, 2)]), (37, [(904, 2)]), (64, [(68736, 50)]),
    (8, [(5104, 5)]), (80, [(1024, 15)]), (48, [(1329, 37), (9935, 47)]), (7264, [(4256, 37)]),
    (38864, [(5024, 79)]), (-3008, [(7312, 42), (45, 2)]), (-8, [(7944, 7), (16, 5), (16, 7),
    (16, 7), (16, 5), (32, 7), (32, 7), (16, 7), (16, 7)]), (-86, [(8136, 3)]), (16, [(8544, 15)]),
    (26, [(9398, 25)]), (40, [(66560, 39), (176, 35)]), (34, [(125184, 33)])] ++
  shifted (every 2) [(1, [(256, 46), (50, 4), (7, 14), (17, 44), (47, 4), (39, 4), (43, 16),
    (19, 16), (26, 38), (42, 16), (36, 8), (402, 22), (136, 32), (42, 52), (55, 12), (15, 94),
    (6448, 148), (160, 94), (3527, 4), (25, 98), (31168, 44), (64, 26), (162, 12), (16, 60),
    (76, 8), (24, 18), (30, 14)]), (-8, [(8025, 6)]), (39, [(66928, 36), (1, 8), (12, 12),
    (16, 4)])] ++
  shifted singles [(1, [386, 2, 3, 4, 6, 7, 15, 5, 3, 4, 2, 3, 4, 9, 3, 42, 2, 71, 6, 303, 2, 4,
    129, 3, 7561, 2781, 18, 3, 118, 2, 5, 31367, 2, 16, 5, 2, 53, 2, 7, 6, 2, 29]),
    (205, [393, 1, 9]), (211, [406, 6]), (218, [422, 3, 5]), (217, [433, 1]), (2, [452, 3, 3, 39]),
    (-130, [544]), (64, [908]), (63, [910, 1]), (8, [975]), (-7, [1017, 7155]), (7264, [4295, 6]),
    (-8, [8120, 1, 31, 1, 15, 1]), (-74, [8122, 1]), (-9, [8124, 16, 48]), (-100, [8154, 1]),
    (-112, [8170, 1]), (-128, [8184, 1]), (-126, [8186, 1]), (-10815, [11390, 1]),
    (-42308, [42922, 4]), (39, [66965])] ++
  [(376, -121), (385, 210), (390, 206), (398, 79), (399, 202), (400, 203), (404, 207), (407, 209),
    (413, 213), (415, 214), (439, 219), (502, -97), (503, -56), (570, 10795), (573, -163),
    (574, 10792), (579, -195), (580, 69), (581, 71), (895, 116), (902, 38), (1012, -60), (1216, 15),
    (7838, -7615), (8486, -7517), (8490, -8383), (8491, -8262), (8498, 28), (11362, -10743),
    (11363, -3814), (11364, -10727), (11373, -10780), (11374, -10749), (11375, -10783),
    (11376, -10782), (42877, -35332), (42893, -42280), (42923, -42319), (42924, -42315),
    (42925, -42305), (42928, -42258), (42929, -42282), (42930, -42261), (42931, 928), (42948, -48),
    (42949, -42307), (42950, -35384)].map fun (n, distance) => ⟨⟨n, n, 1⟩, distance⟩

end ArmaScript.Text
