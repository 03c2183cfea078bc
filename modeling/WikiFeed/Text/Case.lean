/-! # Letter case

Most letters have a partner of the other case, and partners form runs: along a run of small letters
their capitals stand at the same distance. A few letters have a partner that has another partner
itself, and a few have a capital form of two or three characters. -/

namespace WikiFeed.Text

/-- Letters from a first one on, at a stride, with partners that stand at the same stride. -/
structure CaseRun where
  first : Nat
  partner : Nat
  count : Nat
  stride : Nat

namespace CaseRun

def partner? (r : CaseRun) (n : Nat) : Option Nat :=
  let i := n - r.first
  if r.first ≤ n && i % r.stride == 0 && i / r.stride < r.count then some (r.partner + i) else none

def flip (r : CaseRun) : CaseRun := { r with first := r.partner, partner := r.first }

def block : Nat × Nat × Nat → CaseRun
  | (first, partner, count) => ⟨first, partner, count, 1⟩

end CaseRun

/-- Places where capital and small letters take turns, with the number of pairs. -/
def turns : List (Nat × Nat) := [
  (256, 24), (306, 3), (313, 8), (330, 23), (377, 3), (386, 2), (391, 1), (395, 1), (401, 1),
  (408, 1), (416, 3), (423, 1), (428, 1), (431, 1), (435, 2), (440, 1), (444, 1), (461, 8),
  (478, 9), (500, 1), (504, 20), (546, 9), (571, 1), (577, 1), (582, 5), (880, 2), (886, 1),
  (984, 12), (1015, 1), (1018, 1), (1120, 17), (1162, 27), (1217, 7), (1232, 48), (7680, 75),
  (7840, 48), (8579, 1), (11360, 1), (11367, 3), (11378, 1), (11381, 1), (11392, 50), (11499, 2),
  (11506, 1), (42560, 23), (42624, 14), (42786, 7), (42802, 31), (42873, 2), (42878, 5), (42891, 1),
  (42896, 2), (42902, 10), (42932, 8), (42951, 2), (42960, 1), (42966, 2), (42997, 1)]

/-- Runs of small letters: the first one, its capital, and how many there are. -/
def blocks : List (Nat × Nat × Nat) := [
  (224, 192, 23), (248, 216, 7), (575, 11390, 2), (598, 393, 2), (650, 433, 2), (891, 1021, 3),
  (941, 904, 3), (945, 913, 17), (963, 931, 9), (973, 910, 2), (1072, 1040, 32), (1104, 1024, 16),
  (1377, 1329, 38), (4304, 7312, 43), (4349, 7357, 3), (5112, 5104, 6), (7936, 7944, 8),
  (7952, 7960, 6), (7968, 7976, 8), (7984, 7992, 8), (8000, 8008, 6), (8032, 8040, 8),
  (8048, 8122, 2), (8050, 8136, 4), (8054, 8154, 2), (8056, 8184, 2), (8058, 8170, 2),
  (8060, 8186, 2), (8112, 8120, 2), (8144, 8152, 2), (8160, 8168, 2), (8560, 8544, 16),
  (9424, 9398, 26), (11312, 11264, 48), (11520, 4256, 38), (43888, 5024, 80), (65345, 65313, 26),
  (66600, 66560, 40), (66776, 66736, 36), (66967, 66928, 11), (66979, 66940, 15), (66995, 66956, 7),
  (67003, 66964, 2), (68800, 68736, 51), (71872, 71840, 32), (93792, 93760, 32),
  (125218, 125184, 34)]

def singles : List (Nat × Nat) := [
  (255, 376), (384, 579), (405, 502), (410, 573), (414, 544), (447, 503), (454, 452), (457, 455),
  (460, 458), (477, 398), (499, 497), (592, 11375), (593, 11373), (594, 11376), (595, 385),
  (596, 390), (601, 399), (603, 400), (604, 42923), (608, 403), (609, 42924), (611, 404),
  (613, 42893), (614, 42922), (616, 407), (617, 406), (618, 42926), (619, 11362), (620, 42925),
  (623, 412), (625, 11374), (626, 413), (629, 415), (637, 11364), (640, 422), (642, 42949),
  (643, 425), (647, 42929), (648, 430), (649, 580), (652, 581), (658, 439), (669, 42930),
  (670, 42928), (940, 902), (972, 908), (983, 975), (1010, 1017), (1011, 895), (1231, 1216),
  (7545, 42877), (7549, 11363), (7566, 42950), (8017, 8025), (8019, 8027), (8021, 8029),
  (8023, 8031), (8165, 8172), (8526, 8498), (11365, 570), (11366, 574), (11559, 4295),
  (11565, 4301), (42900, 42948), (43859, 42931)]

/-- Small letters with the capitals of which they are the small form. -/
def casePairs : List CaseRun :=
  turns.map (fun t => ⟨t.1 + 1, t.1, t.2, 2⟩) ++ blocks.map .block ++
    singles.map fun s => .block (s.1, s.2, 1)

/-- Letters with a capital that has another small form. -/
def capitalsOnly : List (Nat × Nat × Nat) := [
  (181, 924, 1), (305, 73, 1), (383, 83, 1), (453, 452, 1), (456, 455, 1), (459, 458, 1),
  (498, 497, 1), (837, 921, 1), (962, 931, 1), (976, 914, 1), (977, 920, 1), (981, 934, 1),
  (982, 928, 1), (1008, 922, 1), (1009, 929, 1), (1013, 917, 1), (7296, 1042, 1), (7297, 1044, 1),
  (7298, 1054, 1), (7299, 1057, 2), (7301, 1058, 1), (7302, 1066, 1), (7303, 1122, 1),
  (7304, 42570, 1), (7835, 7776, 1), (8126, 921, 1)]

/-- Letters with a small form that has another capital. -/
def smallOnly : List (Nat × Nat × Nat) := [
  (453, 454, 1), (456, 457, 1), (459, 460, 1), (498, 499, 1), (1012, 952, 1), (7838, 223, 1),
  (8072, 8064, 8), (8088, 8080, 8), (8104, 8096, 8), (8124, 8115, 1), (8140, 8131, 1),
  (8188, 8179, 1), (8486, 969, 1), (8490, 107, 1), (8491, 229, 1)]

/-- Rows of eight letters with a capital and an iota as their capital form. -/
def iotaRows : List (Nat × Nat) := [
  (8064, 7944), (8072, 7944), (8080, 7976), (8088, 7976), (8096, 8040), (8104, 8040)]

/-- The other letters whose capital form is longer than one character. -/
def longCapitals : List (Nat × List Nat) := [
  (223, [83, 83]), (329, [700, 78]), (496, [74, 780]), (912, [921, 776, 769]),
  (944, [933, 776, 769]), (1415, [1333, 1362]), (7830, [72, 817]), (7831, [84, 776]),
  (7832, [87, 778]), (7833, [89, 778]), (7834, [65, 702]), (8016, [933, 787]),
  (8018, [933, 787, 768]), (8020, [933, 787, 769]), (8022, [933, 787, 834]), (8114, [8122, 921]),
  (8115, [913, 921]), (8116, [902, 921]), (8118, [913, 834]), (8119, [913, 834, 921]),
  (8124, [913, 921]), (8130, [8138, 921]), (8131, [919, 921]), (8132, [905, 921]),
  (8134, [919, 834]), (8135, [919, 834, 921]), (8140, [919, 921]), (8146, [921, 776, 768]),
  (8147, [921, 776, 769]), (8150, [921, 834]), (8151, [921, 776, 834]), (8162, [933, 776, 768]),
  (8163, [933, 776, 769]), (8164, [929, 787]), (8166, [933, 834]), (8167, [933, 776, 834]),
  (8178, [8186, 921]), (8179, [937, 921]), (8180, [911, 921]), (8182, [937, 834]),
  (8183, [937, 834, 921]), (8188, [937, 921]), (64256, [70, 70]), (64257, [70, 73]),
  (64258, [70, 76]), (64259, [70, 70, 73]), (64260, [70, 70, 76]), (64261, [83, 84]),
  (64262, [83, 84]), (64275, [1348, 1350]), (64276, [1348, 1333]), (64277, [1348, 1339]),
  (64278, [1358, 1350]), (64279, [1348, 1341])]

def longCapital? (n : Nat) : Option (List Nat) :=
  (longCapitals.lookup n).or
    (iotaRows.findSome? fun r => ((CaseRun.block (r.1, r.2, 8)).partner? n).map ([·, 921]))

def mapped (runs : List CaseRun) (c : Char) : Char :=
  match runs.findSome? (·.partner? c.toNat) with
  | some n => Char.ofNat n
  | none => c

def capital (c : Char) : List Char :=
  if c.toNat < 128 then [c.toUpper]
  else match longCapital? c.toNat with
    | some ns => ns.map Char.ofNat
    | none => [mapped (casePairs ++ capitalsOnly.map .block) c]

def small (c : Char) : List Char :=
  if c.toNat < 128 then [c.toLower]
  else if c.toNat = 304 then [Char.ofNat 105, Char.ofNat 775]
  else [mapped (casePairs.map .flip ++ smallOnly.map .block) c]

def upper (s : String) : String := String.ofList (s.toList.flatMap capital)

def lower (s : String) : String := String.ofList (s.toList.flatMap small)

end WikiFeed.Text
