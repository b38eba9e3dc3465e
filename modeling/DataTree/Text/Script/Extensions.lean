/-!
# DataTree.Text.Script.Extensions

Characters that several scripts use (Unicode property Script_Extensions, edition
16.0), where these are others than the one script that `DataTree.Text.Script.Table`
gives.
-/

namespace DataTree.Text.Script

/-- First and last character of a run, and the numbers of the scripts. -/
def extensions0 : List (Nat × Nat × List Nat) := [
  (183, 183, [5, 18, 25, 34, 36, 40, 41, 42, 44, 46, 49, 73, 80, 81, 113, 133]),
  (700, 700, [10, 29, 31, 73, 78, 155, 160]), (711, 711, [12, 73]), (713, 715, [12, 73]),
  (717, 717, [73, 78]), (727, 727, [73, 155]), (729, 729, [12, 73]),
  (768, 768, [22, 25, 29, 44, 73, 113, 141, 146]),
  (769, 769, [22, 29, 44, 73, 120, 141, 146, 159]), (770, 770, [22, 29, 73, 157]),
  (771, 771, [41, 73, 141, 143, 155]),
  (772, 772, [19, 22, 25, 29, 42, 44, 73, 120, 143, 157, 159]),
  (773, 773, [25, 36, 41, 42, 63, 73]), (774, 774, [29, 44, 73, 113]),
  (775, 775, [25, 34, 54, 73, 113, 143, 146, 157, 159]),
  (776, 776, [4, 29, 34, 42, 44, 54, 73, 113, 143, 146]), (777, 777, [73, 157]),
  (778, 778, [34, 73, 143]), (779, 779, [22, 29, 73, 120]), (780, 780, [22, 73, 146]),
  (781, 781, [73, 141]), (782, 782, [38, 73]), (784, 784, [73, 141]), (785, 785, [29, 73, 159]),
  (787, 787, [44, 73, 113, 159]), (800, 800, [73, 143]), (803, 803, [22, 34, 63, 73, 143]),
  (804, 804, [22, 34, 73, 143]), (805, 805, [73, 143]), (813, 813, [73, 141, 143]),
  (814, 814, [73, 143]), (816, 816, [22, 73, 143]), (817, 817, [19, 22, 42, 73, 141, 155]),
  (834, 834, [44]), (837, 837, [44]), (856, 856, [73, 120]), (862, 862, [19, 73, 159]),
  (867, 879, [73]), (884, 885, [25, 44]), (1155, 1155, [29, 113]), (1156, 1156, [29, 41]),
  (1157, 1158, [29, 73]), (1159, 1159, [29, 41]), (1417, 1417, [4, 40, 41]),
  (1548, 1548, [3, 39, 51, 104, 143, 154, 167]), (1563, 1563, [3, 39, 51, 104, 143, 154, 167]),
  (1564, 1564, [3, 143, 154]), (1567, 1567, [0, 3, 39, 51, 104, 143, 154, 167]),
  (1600, 1600, [0, 3, 51, 84, 85, 118, 127, 137, 143]), (1611, 1621, [3, 143]),
  (1632, 1641, [3, 154, 167]), (1648, 1648, [3, 143]), (1748, 1748, [3, 51]),
  (2385, 2385, [10, 31, 43, 45, 47, 62, 73, 83, 119, 132, 150, 153, 158]),
  (2386, 2386, [10, 31, 43, 45, 47, 62, 73, 83, 119, 150, 153, 158]),
  (2404, 2404, [10, 31, 33, 43, 45, 46, 47, 62, 70, 81, 83, 87, 101, 109, 119, 136, 142, 149, 150,
    153, 158]),
  (2405, 2405, [10, 31, 33, 43, 45, 46, 47, 48, 62, 70, 75, 81, 83, 87, 101, 109, 119, 136, 142,
    149, 150, 153, 158]),
  (2406, 2415, [31, 33, 61, 81]), (2534, 2543, [10, 20, 142]), (2662, 2671, [47, 97])]

/-- Further runs. -/
def extensions1 : List (Nat × Nat × List Nat) := [
  (2790, 2799, [45, 69]), (3046, 3059, [43, 150]), (3302, 3311, [62, 101, 161]),
  (4160, 4169, [20, 98, 146]), (4347, 4347, [40, 41, 73]), (5867, 5869, [129]),
  (5941, 5942, [16, 52, 144, 145]), (6146, 6147, [95, 125]), (6149, 6149, [95, 125]),
  (7376, 7376, [10, 31, 43, 62]), (7377, 7377, [31]), (7378, 7378, [10, 31, 43, 62]),
  (7379, 7379, [31, 43, 62]), (7380, 7380, [31]), (7381, 7382, [10, 31]), (7383, 7383, [31, 132]),
  (7384, 7384, [10, 31]), (7385, 7385, [31, 132]), (7386, 7386, [31, 62, 83, 119, 150, 153]),
  (7387, 7387, [31]), (7388, 7389, [31, 132]), (7390, 7391, [31]), (7392, 7392, [31, 132]),
  (7393, 7393, [10, 31]), (7394, 7400, [31]), (7401, 7401, [31, 101]), (7402, 7402, [10, 31]),
  (7403, 7404, [31]), (7405, 7405, [10, 31]), (7406, 7409, [31]),
  (7410, 7410, [10, 31, 43, 62, 83, 101, 119, 136, 153, 158, 161]), (7411, 7411, [31, 43]),
  (7412, 7412, [31, 43, 62, 161]), (7413, 7414, [10, 31]), (7415, 7415, [10]),
  (7416, 7417, [31, 43]), (7418, 7418, [101]), (7616, 7617, [44]), (7672, 7672, [29, 73, 143]),
  (7674, 7674, [143]), (8239, 8239, [73, 95, 125]), (8271, 8271, [0, 3]),
  (8282, 8282, [18, 40, 41, 79, 110, 117]), (8285, 8285, [18, 44, 92, 110]),
  (8432, 8432, [31, 43, 73]), (11799, 11799, [25, 73]), (11824, 11824, [5, 117]),
  (11825, 11825, [5, 18, 40, 61, 80, 110, 130]), (11836, 11836, [34]),
  (11841, 11841, [0, 3, 110]), (11843, 11843, [29, 41]), (12272, 12287, [49, 152]),
  (12289, 12289, [12, 49, 50, 55, 63, 95, 168]),
  (12290, 12290, [12, 49, 50, 55, 63, 95, 125, 168]), (12291, 12291, [12, 49, 50, 55, 63]),
  (12294, 12294, [49]), (12296, 12297, [12, 49, 50, 55, 63, 95, 156, 168]),
  (12298, 12299, [12, 49, 50, 55, 63, 78, 95, 156, 168]),
  (12300, 12305, [12, 49, 50, 55, 63, 168]), (12307, 12307, [12, 49, 50, 55, 63])]

/-- Further runs. -/
def extensions2 : List (Nat × Nat × List Nat) := [
  (12308, 12315, [12, 49, 50, 55, 63, 168]), (12316, 12319, [12, 49, 50, 55, 63]),
  (12330, 12333, [12, 49]), (12336, 12336, [12, 49, 50, 55, 63]), (12337, 12341, [55, 63]),
  (12343, 12343, [12, 49, 50, 55, 63]), (12348, 12349, [49, 55, 63]), (12350, 12351, [49]),
  (12441, 12444, [55, 63]), (12448, 12448, [55, 63]), (12539, 12539, [12, 49, 50, 55, 63, 168]),
  (12540, 12540, [55, 63]), (12688, 12703, [49]), (12736, 12773, [49]), (12783, 12783, [49, 152]),
  (12832, 12871, [49]), (12928, 12976, [49]), (12992, 13003, [49]), (13055, 13055, [49]),
  (13144, 13168, [49]), (13179, 13183, [49]), (13280, 13310, [49]), (42607, 42607, [29, 41]),
  (42752, 42759, [49, 73]),
  (43056, 43058, [31, 33, 45, 47, 61, 62, 69, 70, 81, 83, 94, 101, 132, 149, 158, 161]),
  (43059, 43061, [31, 33, 45, 47, 61, 62, 69, 70, 81, 94, 101, 132, 149, 158, 161]),
  (43062, 43063, [31, 33, 45, 47, 61, 69, 70, 81, 94, 149, 158]),
  (43064, 43064, [31, 33, 45, 47, 61, 69, 70, 81, 94, 132, 149, 158]),
  (43065, 43065, [31, 33, 45, 47, 61, 69, 70, 81, 94, 149, 158]), (43249, 43249, [10, 31, 161]),
  (43251, 43251, [31, 150]), (43310, 43310, [65, 73, 98]), (43471, 43471, [15, 60]),
  (64830, 64831, [3, 104]), (65010, 65010, [3, 154]), (65021, 65021, [3, 154]),
  (65093, 65094, [12, 49, 50, 55, 63]), (65377, 65381, [12, 49, 50, 55, 63, 168]),
  (65392, 65392, [55, 63]), (65438, 65439, [55, 63]), (65792, 65793, [27, 28, 77]),
  (65794, 65794, [27, 77]), (65799, 65843, [27, 76, 77]), (65847, 65855, [27, 77]),
  (66272, 66299, [3, 25]), (68338, 68338, [85, 118]), (70401, 70401, [43, 150]),
  (70403, 70403, [43, 150]), (70459, 70460, [43, 150]), (73680, 73681, [43, 150]),
  (73683, 73683, [43, 150]), (113824, 113827, [34]), (119648, 119665, [49]),
  (127568, 127569, [49])]

/-- All runs, in ascending order. -/
def extensions : List (Nat × Nat × List Nat) :=
  extensions0 ++ extensions1 ++ extensions2

end DataTree.Text.Script
