import Chip8.Numeral
import Chip8.Screen
import Chip8.Text.Labelled
import Chip8.Text.Lines

/-!
# The screen as text

There are two pictures of a screen. The block picture is made of the bytes as
they are: eight of them at a time are written in base two between two bars, with a
space for each zero and a full block for each one. It also shows a screen of any
other number of bytes, as many rows as are complete. The dot picture puts two
columns and four rows into one character: an empty cell is a blank, and any other
is the Braille pattern with a dot for each lit pixel. It is 33 characters by 9
lines, so the last column and the last line, which lie outside the grid, stay blank.
-/

namespace Chip8.Screen

/-- Takes `size` entries at a time from the front. If too few are left in the end, they are left
out. -/
def chunksExact {α : Type} (size : Nat) (entries : List α) : List (List α) :=
  if 0 < size ∧ size ≤ entries.length then
    entries.take size :: chunksExact size (entries.drop size)
  else []
termination_by entries.length
decreasing_by
  rw [List.length_drop]
  omega

/-- The chunks follow one another, and there are as many as are complete. -/
theorem chunksExact_eq {α : Type} {size : Nat} (hsize : 0 < size) (entries : List α) :
    chunksExact size entries =
      (List.range (entries.length / size)).map fun y => (entries.drop (size * y)).take size := by
  induction entries using chunksExact.induct size with
  | case1 entries h ih =>
    have hcount : entries.length / size = (entries.drop size).length / size + 1 := by
      rw [List.length_drop, Nat.div_eq_sub_div hsize h.2]
    rw [chunksExact, if_pos h, ih, hcount, List.range_succ_eq_map, List.map_cons, List.map_map,
      Nat.mul_zero, List.drop_zero]
    refine congrArg _ (List.map_congr_left fun y _ => ?_)
    rw [List.drop_drop, Function.comp_apply, Nat.mul_succ, Nat.add_comm]
  | case2 entries h =>
    have hcount : entries.length / size = 0 := Nat.div_eq_of_lt (by omega)
    rw [chunksExact, if_neg h, hcount]
    rfl

/-- A byte in base two, with a space for each zero and a full block for each one. -/
def blockText (byte : UInt8) : String :=
  Text.replaceChar (Text.replaceChar (Numeral.binaryPadded 8 byte.toNat) '0' " ") '1' "█"

/-- The line of the block picture that shows the bytes of a row. -/
def blockLine (row : List UInt8) : String :=
  "|" ++ String.join (row.map blockText) ++ "|\n"

/-- The block picture; every line ends in a line feed. -/
def blocks (s : Screen) : String :=
  String.join ((chunksExact (width / 8) s.bytes.toList).map blockLine)

/-- The dots of a cell: column, row, and what the dot adds to the character. -/
def dots : List (Nat × Nat × Nat) :=
  [(0, 0, 0x01), (0, 1, 0x02), (0, 2, 0x04), (0, 3, 0x40),
   (1, 0, 0x08), (1, 1, 0x10), (1, 2, 0x20), (1, 3, 0x80)]

/-- The sum of the dots that are lit in a cell. -/
def cellDots (s : Screen) (cx cy : Nat) : Nat :=
  dots.foldl
    (fun total (dx, dy, value) =>
      if s.pixel (2 * cx + dx) (4 * cy + dy) then total + value else total)
    0

def cell (s : Screen) (cx cy : Nat) : Char :=
  if s.cellDots cx cy = 0 then ' ' else Char.ofNat (0x2800 + s.cellDots cx cy)

/-- The number of characters in a line of the dot picture. -/
def dotColumns : Nat := 33

/-- The number of lines of the dot picture. -/
def dotRows : Nat := 9

def dotLines (s : Screen) : List (List Char) :=
  (List.range dotRows).map fun cy => (List.range dotColumns).map fun cx => s.cell cx cy

/-- The dot picture, its lines separated by line feeds. -/
def dotPicture (s : Screen) : String :=
  String.ofList (List.intercalate ['\n'] s.dotLines)

def labelled (s : Screen) : String :=
  Text.labelled "Screen" [("bytes", Text.bracketed (s.bytes.toList.map UInt8.toNat))]

/-! ## The lines of the dot picture -/

/-- There are no controls in a picture. -/
theorem cell_ne (s : Screen) (cx cy : Nat) {c : Char} (hc : 0 < c.toNat ∧ c.toNat < 0x20) :
    s.cell cx cy ≠ c := by
  intro h
  rw [cell] at h
  split at h
  · exact absurd hc.2 (h ▸ by decide)
  · by_cases hvalid : (0x2800 + s.cellDots cx cy).isValidChar
    · rw [Char.ofNat, dif_pos hvalid] at h
      have hnat : 0x2800 + s.cellDots cx cy = c.toNat := congrArg Char.toNat h
      omega
    · rw [Char.ofNat, dif_neg hvalid] at h
      exact absurd hc.1 (h ▸ by decide)

theorem length_dotLines (s : Screen) : s.dotLines.length = dotRows := by
  rw [dotLines, List.length_map, List.length_range]

theorem length_of_mem_dotLines {s : Screen} {line : List Char} (h : line ∈ s.dotLines) :
    line.length = dotColumns := by
  obtain ⟨cy, -, rfl⟩ := List.mem_map.mp h
  rw [List.length_map, List.length_range]

theorem not_mem_of_mem_dotLines {s : Screen} {line : List Char} (h : line ∈ s.dotLines) {c : Char}
    (hc : 0 < c.toNat ∧ c.toNat < 0x20) : c ∉ line := by
  obtain ⟨cy, -, rfl⟩ := List.mem_map.mp h
  intro hmem
  obtain ⟨cx, -, hcell⟩ := List.mem_map.mp hmem
  exact s.cell_ne cx cy hc hcell

/-- Line by line, the text of the picture is the picture. -/
theorem readLines_dotPicture (s : Screen) : Text.readLines s.dotPicture = s.dotLines := by
  refine Text.readLines_intercalate fun line hline => ⟨?_, ?_, ?_⟩
  · exact List.ne_nil_of_length_pos (length_of_mem_dotLines hline ▸ by decide)
  · exact not_mem_of_mem_dotLines hline (by decide)
  · exact not_mem_of_mem_dotLines hline (by decide)

theorem getElem?_dotLines (s : Screen) (cx cy : Nat) :
    s.dotLines[cy]?.bind (·[cx]?) =
      if cy < dotRows ∧ cx < dotColumns then some (s.cell cx cy) else none := by
  by_cases hcy : cy < dotRows
  · by_cases hcx : cx < dotColumns
    · simp [dotLines, hcy, hcx]
    · simp [dotLines, hcy, hcx]
  · simp [dotLines, hcy]

end Chip8.Screen
