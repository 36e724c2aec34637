/-!
# Case data of the Unicode character set

The tables that lower-casing a text needs: the letters with a lower-case partner, the letters that have
a case and do not count as case-ignorable, and the marks, format characters and modifier letters that
are skipped when the neighbourhood of a letter is examined.  The last two are long, so that they are
written as the lengths of the gaps between their ranges and of the ranges themselves.
-/

namespace SqlAnalysis.Text

/-- A run of upper-case code points `first, first + step, ..., last` whose lower-case partners are
`partner, partner + step, ...`. -/
structure CaseRun where
  first : Nat
  last : Nat
  step : Nat
  partner : Nat

/-- The run as a function: the partner of a member, nothing for any other code point. -/
def CaseRun.partnerOf? (run : CaseRun) (code : Nat) : Option Nat :=
  if run.first ≤ code ∧ code ≤ run.last ∧ (code - run.first) % run.step = 0 then
    some (run.partner + (code - run.first))
  else
    none

/-- Ranges in which every other character is followed by its partner. -/
def alternatingLetters : List (Nat × Nat) :=
  [
    (0x100, 0x12E), (0x132, 0x136), (0x139, 0x147), (0x14A, 0x176), (0x179, 0x17D), (0x182, 0x184),
    (0x1A0, 0x1A4), (0x1B3, 0x1B5), (0x1CB, 0x1DB), (0x1DE, 0x1EE), (0x1F2, 0x1F4), (0x1F8, 0x21E),
    (0x222, 0x232), (0x246, 0x24E), (0x370, 0x372), (0x3D8, 0x3EE), (0x460, 0x480), (0x48A, 0x4BE),
    (0x4C1, 0x4CD), (0x4D0, 0x52E), (0x1E00, 0x1E94), (0x1EA0, 0x1EFE), (0x2C67, 0x2C6B),
    (0x2C80, 0x2CE2), (0x2CEB, 0x2CED), (0xA640, 0xA66C), (0xA680, 0xA69A), (0xA722, 0xA72E),
    (0xA732, 0xA76E), (0xA779, 0xA77B), (0xA77E, 0xA786), (0xA790, 0xA792), (0xA796, 0xA7A8),
    (0xA7B4, 0xA7C2), (0xA7C7, 0xA7C9), (0xA7CC, 0xA7DA)
  ]

/-- Ranges and the partner of their first character. -/
def letterBlocks : List (Nat × Nat × Nat) :=
  [
    (0x41, 0x5A, 0x61), (0xC0, 0xD6, 0xE0), (0xD8, 0xDE, 0xF8), (0x189, 0x18A, 0x256),
    (0x1B1, 0x1B2, 0x28A), (0x388, 0x38A, 0x3AD), (0x38E, 0x38F, 0x3CD), (0x391, 0x3A1, 0x3B1),
    (0x3A3, 0x3AB, 0x3C3), (0x3FD, 0x3FF, 0x37B), (0x400, 0x40F, 0x450), (0x410, 0x42F, 0x430),
    (0x531, 0x556, 0x561), (0x10A0, 0x10C5, 0x2D00), (0x13A0, 0x13EF, 0xAB70),
    (0x13F0, 0x13F5, 0x13F8), (0x1C90, 0x1CBA, 0x10D0), (0x1CBD, 0x1CBF, 0x10FD),
    (0x1F08, 0x1F0F, 0x1F00), (0x1F18, 0x1F1D, 0x1F10), (0x1F28, 0x1F2F, 0x1F20),
    (0x1F38, 0x1F3F, 0x1F30), (0x1F48, 0x1F4D, 0x1F40), (0x1F68, 0x1F6F, 0x1F60),
    (0x1F88, 0x1F8F, 0x1F80), (0x1F98, 0x1F9F, 0x1F90), (0x1FA8, 0x1FAF, 0x1FA0),
    (0x1FB8, 0x1FB9, 0x1FB0), (0x1FBA, 0x1FBB, 0x1F70), (0x1FC8, 0x1FCB, 0x1F72),
    (0x1FD8, 0x1FD9, 0x1FD0), (0x1FDA, 0x1FDB, 0x1F76), (0x1FE8, 0x1FE9, 0x1FE0),
    (0x1FEA, 0x1FEB, 0x1F7A), (0x1FF8, 0x1FF9, 0x1F78), (0x1FFA, 0x1FFB, 0x1F7C),
    (0x2160, 0x216F, 0x2170), (0x24B6, 0x24CF, 0x24D0), (0x2C00, 0x2C2F, 0x2C30),
    (0x2C7E, 0x2C7F, 0x23F), (0xFF21, 0xFF3A, 0xFF41), (0x10400, 0x10427, 0x10428),
    (0x104B0, 0x104D3, 0x104D8), (0x10570, 0x1057A, 0x10597), (0x1057C, 0x1058A, 0x105A3),
    (0x1058C, 0x10592, 0x105B3), (0x10594, 0x10595, 0x105BB), (0x10C80, 0x10CB2, 0x10CC0),
    (0x10D50, 0x10D65, 0x10D70), (0x118A0, 0x118BF, 0x118C0), (0x16E40, 0x16E5F, 0x16E60),
    (0x16EA0, 0x16EB8, 0x16EBB), (0x1E900, 0x1E921, 0x1E922)
  ]

/-- The other characters with a single lower-case partner. -/
def singleLetters : List (Nat × Nat) :=
  [
    (0x178, 0xFF), (0x181, 0x253), (0x186, 0x254), (0x187, 0x188), (0x18B, 0x18C), (0x18E, 0x1DD),
    (0x18F, 0x259), (0x190, 0x25B), (0x191, 0x192), (0x193, 0x260), (0x194, 0x263), (0x196, 0x269),
    (0x197, 0x268), (0x198, 0x199), (0x19C, 0x26F), (0x19D, 0x272), (0x19F, 0x275), (0x1A6, 0x280),
    (0x1A7, 0x1A8), (0x1A9, 0x283), (0x1AC, 0x1AD), (0x1AE, 0x288), (0x1AF, 0x1B0), (0x1B7, 0x292),
    (0x1B8, 0x1B9), (0x1BC, 0x1BD), (0x1C4, 0x1C6), (0x1C5, 0x1C6), (0x1C7, 0x1C9), (0x1C8, 0x1C9),
    (0x1CA, 0x1CC), (0x1F1, 0x1F3), (0x1F6, 0x195), (0x1F7, 0x1BF), (0x220, 0x19E), (0x23A, 0x2C65),
    (0x23B, 0x23C), (0x23D, 0x19A), (0x23E, 0x2C66), (0x241, 0x242), (0x243, 0x180), (0x244, 0x289),
    (0x245, 0x28C), (0x376, 0x377), (0x37F, 0x3F3), (0x386, 0x3AC), (0x38C, 0x3CC), (0x3CF, 0x3D7),
    (0x3F4, 0x3B8), (0x3F7, 0x3F8), (0x3F9, 0x3F2), (0x3FA, 0x3FB), (0x4C0, 0x4CF),
    (0x10C7, 0x2D27), (0x10CD, 0x2D2D), (0x1C89, 0x1C8A), (0x1E9E, 0xDF), (0x1F59, 0x1F51),
    (0x1F5B, 0x1F53), (0x1F5D, 0x1F55), (0x1F5F, 0x1F57), (0x1FBC, 0x1FB3), (0x1FCC, 0x1FC3),
    (0x1FEC, 0x1FE5), (0x1FFC, 0x1FF3), (0x2126, 0x3C9), (0x212A, 0x6B), (0x212B, 0xE5),
    (0x2132, 0x214E), (0x2183, 0x2184), (0x2C60, 0x2C61), (0x2C62, 0x26B), (0x2C63, 0x1D7D),
    (0x2C64, 0x27D), (0x2C6D, 0x251), (0x2C6E, 0x271), (0x2C6F, 0x250), (0x2C70, 0x252),
    (0x2C72, 0x2C73), (0x2C75, 0x2C76), (0x2CF2, 0x2CF3), (0xA77D, 0x1D79), (0xA78B, 0xA78C),
    (0xA78D, 0x265), (0xA7AA, 0x266), (0xA7AB, 0x25C), (0xA7AC, 0x261), (0xA7AD, 0x26C),
    (0xA7AE, 0x26A), (0xA7B0, 0x29E), (0xA7B1, 0x287), (0xA7B2, 0x29D), (0xA7B3, 0xAB53),
    (0xA7C4, 0xA794), (0xA7C5, 0x282), (0xA7C6, 0x1D8E), (0xA7CB, 0x264), (0xA7DC, 0x19B),
    (0xA7F5, 0xA7F6)
  ]

/-- Every character with a single lower-case partner. -/
def lowerRuns : List CaseRun :=
  alternatingLetters.map (fun (first, last) => ⟨first, last, 2, first + 1⟩) ++
    letterBlocks.map (fun (first, last, partner) => ⟨first, last, 1, partner⟩) ++
    singleLetters.map fun (code, partner) => ⟨code, code, 1, partner⟩

def casedRanges : List (Nat × Nat) :=
  [
    (65, 26), (6, 26), (47, 1), (10, 1), (4, 1), (5, 23), (1, 31), (1, 195), (1, 4), (4, 208),
    (2, 26), (192, 4), (2, 2), (3, 3), (1, 1), (6, 1), (1, 3), (1, 1), (1, 20), (1, 83), (1, 139),
    (8, 166), (1, 38), (9, 41), (2839, 38), (1, 1), (5, 1), (2, 43), (2, 3), (672, 86), (2, 6),
    (2178, 11), (5, 43), (2, 3), (64, 44), (63, 13), (1, 34), (101, 278), (2, 6), (2, 38), (2, 6),
    (2, 8), (1, 1), (1, 1), (1, 1), (1, 31), (2, 53), (1, 7), (1, 1), (3, 3), (1, 7), (3, 4),
    (2, 6), (4, 13), (5, 3), (1, 7), (261, 1), (4, 1), (2, 10), (1, 1), (3, 5), (6, 1), (1, 1),
    (1, 1), (1, 4), (1, 6), (4, 1), (2, 4), (5, 5), (4, 1), (17, 32), (3, 2), (817, 52),
    (1814, 124), (2, 103), (6, 4), (3, 2), (12, 38), (1, 1), (5, 1), (30994, 46), (18, 28),
    (134, 78), (1, 23), (3, 4), (1, 77), (24, 2), (3, 1), (821, 43), (5, 9), (7, 80), (20288, 7),
    (12, 5), (1033, 26), (6, 26), (1189, 80), (96, 36), (4, 36), (116, 11), (1, 15), (1, 7), (1, 2),
    (1, 11), (1, 15), (1, 7), (1, 2), (1731, 51), (13, 51), (93, 22), (10, 22), (2842, 64),
    (21856, 64), (32, 25), (2, 25), (25900, 85), (1, 71), (1, 2), (2, 1), (2, 2), (2, 4), (1, 12),
    (1, 1), (1, 7), (1, 65), (1, 4), (2, 8), (1, 7), (1, 28), (1, 4), (1, 5), (1, 1), (3, 7),
    (1, 340), (2, 25), (1, 25), (1, 31), (1, 25), (1, 31), (1, 25), (1, 31), (1, 25), (1, 31),
    (1, 25), (1, 8), (1844, 10), (1, 20), (6, 6), (2517, 68), (2028, 26), (6, 26), (6, 26)
  ]

def caseIgnorableRanges : List (Nat × Nat) :=
  [
    (39, 1), (6, 1), (11, 1), (35, 1), (1, 1), (71, 1), (4, 1), (1, 1), (4, 1), (2, 2), (503, 192),
    (4, 2), (4, 1), (9, 2), (1, 1), (251, 7), (207, 1), (5, 1), (49, 45), (1, 1), (1, 2), (1, 2),
    (1, 1), (44, 1), (11, 6), (10, 11), (1, 1), (35, 1), (10, 21), (16, 1), (101, 8), (1, 10),
    (1, 4), (33, 1), (1, 1), (30, 27), (91, 11), (58, 11), (4, 1), (2, 1), (24, 24), (43, 3),
    (44, 1), (7, 2), (5, 9), (41, 58), (55, 1), (1, 1), (4, 8), (4, 1), (3, 7), (10, 2), (13, 1),
    (15, 1), (58, 1), (4, 4), (8, 1), (20, 2), (26, 1), (2, 2), (57, 1), (4, 2), (4, 2), (2, 3),
    (3, 1), (30, 2), (3, 1), (11, 2), (57, 1), (4, 5), (1, 2), (4, 1), (20, 2), (22, 6), (1, 1),
    (58, 1), (2, 1), (1, 4), (8, 1), (7, 2), (11, 2), (30, 1), (61, 1), (12, 1), (50, 1), (3, 1),
    (55, 1), (1, 3), (5, 3), (1, 4), (7, 2), (11, 2), (29, 1), (58, 1), (2, 1), (6, 1), (5, 2),
    (20, 2), (28, 2), (57, 2), (4, 4), (8, 1), (20, 2), (29, 1), (72, 1), (7, 3), (1, 1), (90, 1),
    (2, 7), (11, 9), (98, 1), (2, 9), (9, 1), (1, 7), (73, 2), (27, 1), (1, 1), (1, 1), (55, 14),
    (1, 5), (1, 2), (5, 11), (1, 36), (9, 1), (102, 4), (1, 6), (1, 2), (2, 2), (25, 2), (4, 3),
    (16, 4), (13, 1), (2, 2), (6, 1), (15, 1), (94, 1), (608, 3), (946, 3), (29, 2), (30, 2),
    (30, 2), (64, 2), (1, 7), (8, 1), (2, 11), (3, 1), (5, 1), (45, 5), (51, 1), (65, 2), (34, 1),
    (118, 3), (4, 2), (9, 1), (6, 3), (219, 2), (2, 1), (58, 1), (1, 7), (1, 1), (1, 1), (2, 8),
    (6, 10), (2, 1), (39, 1), (8, 46), (2, 12), (20, 4), (48, 1), (1, 5), (1, 1), (5, 1), (40, 9),
    (12, 2), (32, 4), (2, 2), (1, 3), (56, 1), (1, 2), (3, 1), (1, 3), (58, 8), (2, 2), (64, 6),
    (82, 3), (1, 13), (1, 7), (4, 1), (6, 1), (3, 2), (50, 63), (13, 1), (34, 101), (445, 1),
    (1, 3), (11, 3), (13, 3), (13, 3), (13, 2), (12, 5), (8, 2), (10, 1), (2, 1), (2, 5), (49, 5),
    (1, 10), (1, 1), (13, 1), (16, 13), (51, 33), (2955, 2), (113, 3), (125, 1), (15, 1), (96, 32),
    (47, 1), (469, 1), (36, 4), (3, 5), (5, 1), (93, 6), (93, 3), (28438, 1), (1250, 6), (270, 1),
    (98, 4), (1, 10), (1, 1), (28, 4), (80, 2), (14, 34), (78, 1), (23, 3), (102, 4), (3, 2),
    (8, 1), (3, 1), (4, 1), (25, 2), (5, 1), (151, 2), (26, 18), (13, 1), (38, 8), (25, 11),
    (46, 3), (48, 1), (2, 4), (2, 2), (17, 1), (21, 2), (66, 6), (2, 2), (2, 2), (12, 1), (8, 1),
    (35, 1), (11, 1), (51, 1), (1, 3), (2, 2), (5, 2), (1, 1), (27, 1), (14, 2), (5, 2), (1, 1),
    (100, 5), (9, 3), (121, 1), (2, 1), (4, 1), (20272, 1), (147, 17), (573, 16), (3, 1), (12, 16),
    (34, 1), (2, 1), (169, 1), (7, 1), (6, 1), (11, 1), (35, 1), (1, 1), (47, 1), (45, 2), (67, 1),
    (21, 3), (513, 1), (226, 1), (149, 5), (1029, 6), (1, 42), (1, 9), (582, 3), (1, 2), (5, 4),
    (40, 3), (4, 1), (165, 2), (573, 4), (38, 1), (26, 5), (1, 1), (315, 2), (24, 1), (52, 6),
    (70, 11), (49, 4), (123, 1), (54, 15), (41, 1), (2, 2), (10, 3), (49, 4), (2, 2), (2, 1),
    (4, 1), (10, 1), (50, 3), (36, 5), (1, 8), (62, 1), (12, 2), (52, 9), (10, 4), (2, 1), (95, 3),
    (2, 1), (1, 2), (6, 1), (2, 1), (157, 1), (3, 8), (21, 2), (57, 2), (3, 1), (37, 7), (3, 5),
    (70, 6), (13, 1), (1, 1), (1, 1), (14, 2), (85, 8), (2, 3), (1, 1), (23, 1), (84, 6), (1, 1),
    (4, 2), (1, 2), (238, 4), (6, 2), (1, 2), (27, 2), (85, 8), (2, 1), (1, 2), (106, 1), (1, 1),
    (2, 6), (1, 1), (101, 1), (1, 1), (2, 4), (1, 5), (259, 9), (1, 2), (256, 2), (1, 1), (4, 1),
    (144, 4), (2, 2), (4, 1), (32, 10), (40, 6), (2, 4), (8, 1), (9, 6), (2, 3), (46, 13), (1, 2),
    (198, 1), (1, 3), (1, 1), (201, 7), (1, 6), (1, 1), (82, 22), (2, 7), (1, 2), (1, 2), (122, 6),
    (3, 1), (1, 2), (1, 7), (1, 1), (72, 2), (3, 1), (1, 1), (65, 1), (281, 2), (11, 2), (52, 5),
    (5, 1), (1, 1), (23, 1), (5333, 17), (6, 15), (11464, 12), (3, 3), (2496, 5), (59, 7), (9, 4),
    (508, 3), (40, 2), (482, 1), (63, 17), (64, 2), (1, 2), (13, 2), (16380, 4), (1, 7), (1, 2),
    (3230, 2), (1, 4), (4700, 46), (2, 23), (544, 3), (9, 16), (2, 7), (30, 4), (148, 3),
    (1979, 55), (4, 50), (8, 1), (14, 1), (22, 5), (1, 15), (1360, 7), (1, 17), (2, 7), (1, 2),
    (1, 5), (5, 62), (33, 1), (160, 14), (368, 1), (61, 4), (507, 5), (254, 2), (243, 1), (2, 1),
    (7, 2), (5, 1), (9, 1), (464, 7), (109, 8), (2735, 5), (789505, 1), (30, 96), (128, 240)
  ]

end SqlAnalysis.Text
