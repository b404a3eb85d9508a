import Chip8.Proofs.Pixels
import Chip8.Proofs.Terminal

/-!
# Both pictures of a screen can be read back

The dot picture goes over the screen cell by cell, two columns and four rows at a time. The block
picture goes over it byte by byte, and writes each byte in base two; its eight digits are the bits
from the highest to the lowest, and that is the order of the pixels from left to right. Read line
by line, each of the pictures has a place for every pixel of the grid, and shows there whether it
is lit. The dots of a Braille character are numbered down the left column and then the right one,
but for the lowest row, which comes behind both. The dot picture has a line and a column more than
the grid fills, and these are always blank. So two whole screens with the same picture, of either
kind, are the same screen.

The Braille characters come from a canvas on which single dots are set. All that the picture needs
of it is what its text is behind any dots in the grid.
-/

namespace Chip8

namespace Text

/-- The lines of a text, between its line feeds. -/
def lines (text : String) : List (List Char) :=
  text.toList.splitOn '\n'

/-- The character in that column of that line. -/
def charAt? (text : String) (column line : Nat) : Option Char :=
  (lines text)[line]?.bind (·[column]?)

theorem lines_intercalate {ls : List (List Char)} (hne : ls ≠ []) (h : ∀ l ∈ ls, '\n' ∉ l) :
    lines (String.ofList (List.intercalate ['\n'] ls)) = ls := by
  rw [lines, String.toList_ofList, List.splitOn_intercalate '\n' h hne]

/-- A line feed behind every line leaves an empty line at the end. -/
theorem flatMap_lineFeed (ls : List (List Char)) :
    ls.flatMap (· ++ ['\n']) = List.intercalate ['\n'] (ls ++ [[]]) := by
  induction ls with
  | nil => rfl
  | cons l rest ih =>
    rw [List.flatMap_cons, ih]
    cases rest with
    | nil => exact List.intercalate_cons_cons.symm
    | cons l' rest => exact List.intercalate_cons_cons.symm

end Text

namespace Numeral

/-- Also behind padding, the last digit stands behind those of the quotient. -/
theorem leftpad_toDigits {base : Nat} (hbase : 1 < base) (width n : Nat) :
    (Nat.toDigits base n).leftpad (width + 2) '0' =
      (Nat.toDigits base (n / base)).leftpad (width + 1) '0' ++ [Nat.digitChar (n % base)] := by
  by_cases h : n < base
  · rw [Nat.toDigits_of_lt_base h, Nat.div_eq_of_lt h, Nat.mod_eq_of_lt h, Nat.toDigits_zero,
      List.leftpad, List.leftpad]
    simp [List.replicate_succ']
  · rw [Nat.toDigits_of_base_le hbase (Nat.le_of_not_lt h), List.leftpad, List.leftpad,
      List.length_append, List.length_singleton, Nat.add_sub_add_right (width + 1) 1,
      List.append_assoc]

/-- The digits of a number in base two are its bits from the highest to the lowest. -/
theorem leftpad_toDigits_two (width : Nat) {n : Nat} (hn : n < 2 ^ (width + 1)) :
    (Nat.toDigits 2 n).leftpad (width + 1) '0' =
      (List.range (width + 1)).map fun k => if n.testBit (width - k) then '1' else '0' := by
  induction width generalizing n with
  | zero =>
    have hcases : n = 0 ∨ n = 1 := by omega
    obtain rfl | rfl := hcases <;> rfl
  | succ width ih =>
    have hhalf : n / 2 < 2 ^ (width + 1) := by omega
    have hlast : Nat.digitChar (n % 2) = if n.testBit 0 then '1' else '0' := by
      rw [Nat.testBit_zero]
      obtain h | h := Nat.mod_two_eq_zero_or_one n <;> rw [h] <;> rfl
    rw [leftpad_toDigits (by decide), ih hhalf, List.range_succ (n := width + 1), List.map_append,
      List.map_singleton, Nat.sub_self, hlast]
    refine congrArg (· ++ _) (List.map_congr_left fun k hk => ?_)
    have hk : k < width + 1 := List.mem_range.mp hk
    rw [Nat.testBit_div_two, show width - k + 1 = width + 1 - k by omega]

theorem toList_binaryPadded (width : Nat) {n : Nat} (hn : n < 2 ^ (width + 1)) :
    (binaryPadded (width + 1) n).toList =
      (List.range (width + 1)).map fun k => if n.testBit (width - k) then '1' else '0' := by
  rw [binaryPadded, String.toList_ofList, leftpad_toDigits_two width hn]

end Numeral

namespace Screen

/-! ## Dots and characters -/

/-- The bit of a Braille character that is the dot in that column and row of its cell. -/
def dotBit (dx dy : Nat) : Nat :=
  if dy < 3 then 3 * dx + dy else 6 + dx

/-- The character has that dot. Only Braille characters have dots. -/
def HasDot (c : Char) (dx dy : Nat) : Prop :=
  0x2800 ≤ c.toNat ∧ c.toNat < 0x2900 ∧ (c.toNat - 0x2800).testBit (dotBit dx dy) = true

/-- The sum of the dots that are lit in a cell. -/
def dotSum (lit : Nat → Nat → Bool) : Nat :=
  dots.foldl (fun total (dx, dy, value) => if lit dx dy then total + value else total) 0

/-- The character with the dots that are lit, or a space if none is. -/
def dotChar (lit : Nat → Nat → Bool) : Char :=
  if dotSum lit = 0 then ' ' else Char.ofNat (0x2800 + dotSum lit)

/-- The character is a space if nothing is lit, and else a Braille character with the lit dots. -/
structure Dotted (lit : Nat → Nat → Bool) (c : Char) : Prop where
  blank : (∀ dx < 2, ∀ dy < 4, lit dx dy = false) → c = ' '
  braille : (∃ dx < 2, ∃ dy < 4, lit dx dy = true) → 0x2800 ≤ c.toNat ∧ c.toNat < 0x2900
  dot : ∀ dx < 2, ∀ dy < 4, HasDot c dx dy ↔ lit dx dy = true

variable {lit : Nat → Nat → Bool}

theorem dotSum_eq (lit : Nat → Nat → Bool) :
    dotSum lit = (lit 0 0).toNat + 2 * (lit 0 1).toNat + 4 * (lit 0 2).toNat +
      64 * (lit 0 3).toNat + 8 * (lit 1 0).toNat + 16 * (lit 1 1).toNat +
      32 * (lit 1 2).toNat + 128 * (lit 1 3).toNat := by
  have hadd (b : Bool) (total value : Nat) :
      (if b then total + value else total) = total + value * b.toNat := by
    cases b <;> simp
  simp only [dotSum, dots, List.foldl_cons, List.foldl_nil, hadd]
  omega

/-- The dots fill a byte, each its own bit of it. -/
theorem dotSum_bits (lit : Nat → Nat → Bool) :
    dotSum lit < 256 ∧
      ∀ dx < 2, ∀ dy < 4, (dotSum lit).testBit (dotBit dx dy) = lit dx dy := by
  have hle (dx dy : Nat) : (lit dx dy).toNat ≤ 1 := Bool.toNat_le _
  have h00 := hle 0 0
  have h01 := hle 0 1
  have h02 := hle 0 2
  have h03 := hle 0 3
  have h10 := hle 1 0
  have h11 := hle 1 1
  have h12 := hle 1 2
  have h13 := hle 1 3
  have hbit {n : Nat} {b : Bool} (h : n = b.toNat) : decide (n = 1) = b := by
    cases b <;> simp [h]
  rw [dotSum_eq]
  -- the values of the dots are eight powers of two, so a quotient by one of them ends in its dot
  refine ⟨by omega, fun dx hx dy hy => ?_⟩
  rw [Nat.testBit_eq_decide_div_mod_eq]
  apply hbit
  have hcolumns : dx = 0 ∨ dx = 1 := by omega
  have hrows : dy = 0 ∨ dy = 1 ∨ dy = 2 ∨ dy = 3 := by omega
  rcases hcolumns with rfl | rfl
  · rcases hrows with rfl | rfl | rfl | rfl <;> simp [dotBit] <;> omega
  · rcases hrows with rfl | rfl | rfl | rfl <;> simp [dotBit] <;> omega

theorem toNat_dotChar (h : dotSum lit ≠ 0) : (dotChar lit).toNat = 0x2800 + dotSum lit := by
  have hlt := (dotSum_bits lit).1
  have hvalid : (0x2800 + dotSum lit).isValidChar := Or.inl (by omega)
  rw [dotChar, if_neg h, Char.ofNat, dif_pos hvalid]
  rfl

theorem dotted_dotChar (lit : Nat → Nat → Bool) : Dotted lit (dotChar lit) := by
  obtain ⟨hlt, hbits⟩ := dotSum_bits lit
  have hne : (∃ dx < 2, ∃ dy < 4, lit dx dy = true) → dotSum lit ≠ 0 := by
    rintro ⟨dx, hx, dy, hy, hlit⟩ hzero
    have hbit := hbits dx hx dy hy
    rw [hzero, Nat.zero_testBit, hlit] at hbit
    cases hbit
  refine ⟨?_, ?_, ?_⟩
  · intro hdark
    have hzero : dotSum lit = 0 := by simp [dotSum_eq, hdark]
    rw [dotChar, if_pos hzero]
  · intro hlit
    rw [toNat_dotChar (hne hlit)]
    omega
  · intro dx hx dy hy
    by_cases hzero : dotSum lit = 0
    · have hbit := hbits dx hx dy hy
      rw [hzero, Nat.zero_testBit] at hbit
      rw [dotChar, if_pos hzero, ← hbit]
      simp [HasDot]
    · rw [HasDot, toNat_dotChar hzero, Nat.add_sub_cancel_left, hbits dx hx dy hy]
      constructor
      · rintro ⟨-, -, h⟩
        exact h
      · intro h
        exact ⟨by omega, by omega, h⟩

/-! ## The dot picture -/

/-- Read line by line, the text is a dot picture of the screen. -/
structure DotsOf (s : Screen) (text : String) : Prop where
  lines : (Text.lines text).length = 9
  columns : ∀ line ∈ Text.lines text, line.length = 33
  cell : ∀ cx < 33, ∀ cy < 9, ∃ c, Text.charAt? text cx cy = some c ∧
    Dotted (fun dx dy => s.pixel (2 * cx + dx) (4 * cy + dy)) c
  pixel : ∀ x < 64, ∀ y < 32, s.pixel x y = true ↔
    ∃ c, Text.charAt? text (x / 2) (y / 4) = some c ∧ HasDot c (x % 2) (y % 4)
  margin : ∀ cx < 33, ∀ cy < 9, cx = 32 ∨ cy = 8 → Text.charAt? text cx cy = some ' '

variable {s t : Screen}

theorem cell_eq (s : Screen) (cx cy : Nat) :
    s.cell cx cy = dotChar fun dx dy => s.pixel (2 * cx + dx) (4 * cy + dy) :=
  rfl

theorem lines_dotPicture (s : Screen) : Text.lines s.dotPicture = s.dotLines := by
  refine Text.lines_intercalate ?_ fun line hline => not_mem_of_mem_dotLines hline (by decide)
  exact List.ne_nil_of_length_pos (s.length_dotLines ▸ by decide)

theorem charAt?_dotPicture (s : Screen) {cx cy : Nat} (hx : cx < 33) (hy : cy < 9) :
    Text.charAt? s.dotPicture cx cy =
      some (dotChar fun dx dy => s.pixel (2 * cx + dx) (4 * cy + dy)) := by
  rw [Text.charAt?, lines_dotPicture, getElem?_dotLines, if_pos ⟨hy, hx⟩, cell_eq]

theorem dotsOf_dotPicture (s : Screen) : DotsOf s s.dotPicture where
  lines := s.lines_dotPicture ▸ s.length_dotLines
  columns line hline := length_of_mem_dotLines (s.lines_dotPicture ▸ hline)
  cell cx hx cy hy := ⟨_, s.charAt?_dotPicture hx hy, dotted_dotChar _⟩
  pixel x hx y hy := by
    have hdot := (dotted_dotChar fun dx dy => s.pixel (2 * (x / 2) + dx) (4 * (y / 4) + dy)).dot
      (x % 2) (by omega) (y % 4) (by omega)
    rw [Nat.div_add_mod, Nat.div_add_mod] at hdot
    rw [s.charAt?_dotPicture (by omega) (by omega), ← hdot]
    simp
  margin cx hx cy hy hmargin := by
    rw [s.charAt?_dotPicture hx hy, (dotted_dotChar _).blank]
    intro dx hdx dy hdy
    apply s.pixel_of_not_lt
    simp only [width, height]
    omega

theorem eq_of_dotPicture_eq (hs : s.Complete) (ht : t.Complete)
    (h : s.dotPicture = t.dotPicture) : s = t := by
  have hdots := t.dotsOf_dotPicture
  rw [← h] at hdots
  refine eq_of_pixel_eq hs ht fun x hx y hy => Bool.eq_iff_iff.mpr ?_
  rw [s.dotsOf_dotPicture.pixel x hx y hy, hdots.pixel x hx y hy]

/-! ## Drawing on a canvas -/

/-- A canvas of a width and a height, on which dots can be set, and its text. -/
structure Canvas (γ : Type) where
  blank : Nat → Nat → γ
  set : γ → Nat → Nat → γ
  frame : γ → String

/-- The text of a canvas on which these dots are set. It has one column and one line more than fit
the canvas. -/
def brailleText (width height : Nat) (points : List (Nat × Nat)) : String :=
  String.ofList <| List.intercalate ['\n'] <|
    (List.range (height / 4 + 1)).map fun cy =>
      (List.range (width / 2 + 1)).map fun cx =>
        dotChar fun dx dy => decide ((2 * cx + dx, 4 * cy + dy) ∈ points)

/-- A canvas as large as the grid draws in Braille, whatever dots of the grid are set on it. -/
def Canvas.Braille {γ : Type} (canvas : Canvas γ) : Prop :=
  ∀ points : List (Nat × Nat), (∀ p ∈ points, p.1 < width ∧ p.2 < height) →
    canvas.frame (points.foldl (fun c p => canvas.set c p.1 p.2) (canvas.blank width height)) =
      brailleText width height points

/-- Sets the lit pixels on a canvas, row by row, and takes its text. -/
def render {γ : Type} (canvas : Canvas γ) (s : Screen) : String :=
  canvas.frame <|
    (List.range height).foldl
      (fun c y =>
        (List.range width).foldl (fun c x => if s.pixel x y then canvas.set c x y else c) c)
      (canvas.blank width height)

/-- The lit pixels, row by row. -/
def litPoints (s : Screen) : List (Nat × Nat) :=
  (List.range height).flatMap fun y =>
    ((List.range width).filter (s.pixel · y)).map fun x => (x, y)

/-- Only pixels of the grid are lit. -/
theorem lt_of_pixel {x y : Nat} (h : s.pixel x y = true) : x < width ∧ y < height := by
  by_cases hgrid : x < width ∧ y < height
  · exact hgrid
  · rw [s.pixel_of_not_lt hgrid] at h
    cases h

theorem mem_litPoints {x y : Nat} : (x, y) ∈ s.litPoints ↔ s.pixel x y = true := by
  constructor
  · intro h
    obtain ⟨_, -, hmap⟩ := List.mem_flatMap.mp h
    obtain ⟨_, hfilter, hpoint⟩ := List.mem_map.mp hmap
    cases hpoint
    exact (List.mem_filter.mp hfilter).2
  · intro h
    obtain ⟨hx, hy⟩ := lt_of_pixel h
    refine List.mem_flatMap.mpr ⟨y, List.mem_range.mpr hy, List.mem_map.mpr ⟨x, ?_, rfl⟩⟩
    exact List.mem_filter.mpr ⟨List.mem_range.mpr hx, h⟩

theorem render_eq {γ : Type} (canvas : Canvas γ) (s : Screen) :
    s.render canvas = canvas.frame
      (s.litPoints.foldl (fun c p => canvas.set c p.1 p.2) (canvas.blank width height)) := by
  simp only [render, litPoints, List.foldl_flatMap, List.foldl_map, List.foldl_filter]

/-- What a Braille canvas makes of the lit pixels is the dot picture. -/
theorem render_eq_dotPicture {γ : Type} {canvas : Canvas γ} (h : canvas.Braille) (s : Screen) :
    s.render canvas = s.dotPicture := by
  rw [render_eq, h _ fun p hp => lt_of_pixel (mem_litPoints.mp hp)]
  simp only [brailleText, mem_litPoints, Bool.decide_eq_true]
  rfl

/-- A canvas that keeps its size and the dots that were set. -/
def pointCanvas : Canvas (Nat × Nat × List (Nat × Nat)) where
  blank width height := (width, height, [])
  set c x y := (c.1, c.2.1, c.2.2 ++ [(x, y)])
  frame c := brailleText c.1 c.2.1 c.2.2

theorem braille_pointCanvas : pointCanvas.Braille := by
  have hset (points before : List (Nat × Nat)) :
      points.foldl (fun c p => pointCanvas.set c p.1 p.2) (width, height, before) =
        (width, height, before ++ points) := by
    induction points generalizing before with
    | nil => rw [List.append_nil, List.foldl_nil]
    | cons p rest ih =>
      rw [List.foldl_cons, List.append_cons]
      exact ih _
  intro points _
  show pointCanvas.frame (points.foldl _ (width, height, [])) = _
  rw [hset]
  rfl

/-! ## The block picture -/

/-- A row of pixels between two bars. -/
def barred (lit : Nat → Bool) : List Char :=
  '|' :: ((List.range 64).map (fun x => if lit x then '█' else ' ') ++ ['|'])

theorem barred_eq_iff {f g : Nat → Bool} : barred f = barred g ↔ ∀ x < 64, f x = g x := by
  have hchar (a b : Bool) :
      ((if a then '█' else ' ') = if b then '█' else ' ') ↔ a = b := by
    cases a <;> cases b <;> decide
  simp only [barred, List.cons.injEq, true_and, List.append_cancel_right_eq, List.map_inj_left,
    List.mem_range, hchar]

theorem lineFeed_not_mem_barred (f : Nat → Bool) : '\n' ∉ barred f := by
  intro h
  rcases List.mem_cons.mp h with h | h
  · cases h
  · rcases List.mem_append.mp h with h | h
    · obtain ⟨x, -, hx⟩ := List.mem_map.mp h
      split at hx
      · cases hx
      · cases hx
    · cases List.mem_singleton.mp h

theorem toList_blockText (byte : UInt8) :
    (blockText byte).toList =
      (List.range 8).map fun k => if byte.toNat.testBit (7 - k) then '█' else ' ' := by
  rw [blockText, Text.toList_replaceChar, Text.toList_replaceChar,
    Numeral.toList_binaryPadded 7 byte.toNat_lt, List.flatMap_map, List.flatMap_assoc,
    List.map_eq_flatMap]
  refine List.flatMap_congr fun k _ => ?_
  cases byte.toNat.testBit (7 - k) <;> rfl

/-- The bytes of a row that is complete. -/
theorem take_drop_bytes (s : Screen) {y : Nat} (hy : y < s.bytes.size / 8) :
    (s.bytes.toList.drop (8 * y)).take 8 = (List.range 8).map fun i => s.byteAt (8 * y + i) := by
  apply List.ext_getElem?
  intro i
  by_cases hi : i < 8
  · have hplace : 8 * y + i < s.bytes.size := by omega
    simp [hi, hplace, byteAt]
  · simp [hi]

theorem toList_blockLine (s : Screen) {y : Nat} (hy : y < s.bytes.size / 8) :
    (blockLine ((s.bytes.toList.drop (8 * y)).take 8)).toList =
      (barred fun x => (s.bytes.getD (8 * y + x / 8) 0).toNat.testBit (7 - x % 8)) ++ ['\n'] := by
  have hrow : (((s.bytes.toList.drop (8 * y)).take 8).map blockText).flatMap String.toList =
      (List.range 64).map fun x =>
        if (s.bytes.getD (8 * y + x / 8) 0).toNat.testBit (7 - x % 8) then '█' else ' ' := by
    rw [s.take_drop_bytes hy, List.map_map, List.flatMap_map]
    simp only [Function.comp_apply, toList_blockText]
    exact flatMap_range 8 8 fun i k =>
      if (s.byteAt (8 * y + i)).toNat.testBit (7 - k) then '█' else ' '
  rw [blockLine, String.toList_append, String.toList_append, String.toList_join, hrow]
  simp [barred]

/-- Of a screen with any number of bytes, every complete row is shown bit by bit. -/
theorem lines_blocks (s : Screen) :
    Text.lines s.blocks = (List.range (s.bytes.size / 8)).map (fun y =>
      barred fun x => (s.bytes.getD (8 * y + x / 8) 0).toNat.testBit (7 - x % 8)) ++ [[]] := by
  have hblocks : s.blocks = String.ofList (((List.range (s.bytes.size / 8)).map fun y =>
      barred fun x => (s.bytes.getD (8 * y + x / 8) 0).toNat.testBit (7 - x % 8)).flatMap
        (· ++ ['\n'])) := by
    apply String.toList_inj.mp
    rw [blocks, String.toList_join, String.toList_ofList, chunksExact_eq (by decide), List.map_map,
      List.flatMap_map, List.flatMap_map, Array.length_toList]
    exact List.flatMap_congr fun y hy => s.toList_blockLine (List.mem_range.mp hy)
  rw [hblocks, Text.flatMap_lineFeed, Text.lines_intercalate (by simp)]
  intro l hl
  rcases List.mem_append.mp hl with hl | hl
  · obtain ⟨y, -, rfl⟩ := List.mem_map.mp hl
    exact lineFeed_not_mem_barred _
  · rw [List.mem_singleton.mp hl]
    exact List.not_mem_nil

theorem Complete.lines_blocks (hs : s.Complete) :
    Text.lines s.blocks = (List.range 32).map (fun y => barred (s.pixel · y)) ++ [[]] := by
  have hrows : s.bytes.size / 8 = 32 := by rw [show s.bytes.size = 256 from hs]
  have hline : ∀ y ∈ List.range 32,
      (barred fun x => (s.bytes.getD (8 * y + x / 8) 0).toNat.testBit (7 - x % 8)) =
        barred (s.pixel · y) := by
    intro y hy
    refine barred_eq_iff.mpr fun x hx => ?_
    rw [s.pixel_of_lt hx (List.mem_range.mp hy), Octet.pixel_eq_testBit]
    rfl
  rw [s.lines_blocks, hrows, List.map_congr_left hline]

theorem eq_of_blocks_eq (hs : s.Complete) (ht : t.Complete) (h : s.blocks = t.blocks) : s = t := by
  have hlines := congrArg Text.lines h
  rw [hs.lines_blocks, ht.lines_blocks, List.append_cancel_right_eq, List.map_inj_left] at hlines
  refine eq_of_pixel_eq hs ht fun x hx y hy => ?_
  exact barred_eq_iff.mp (hlines y (List.mem_range.mpr hy)) x hx

/-- **Both pictures of a screen can be read back.** A Braille canvas on which the lit pixels of a
whole screen are set has the dot picture as its text, with a dot for each of them and for nothing
else, and the block picture has a line for each row, with a block for each lit pixel. So screens
with one picture, of either kind, are the same. Of a screen with another number of bytes, the
block picture shows as many rows as are complete, bit by bit. -/
theorem renderings_lossless (hs : s.Complete) :
    (∀ {γ : Type} {canvas : Canvas γ}, canvas.Braille → s.render canvas = s.dotPicture) ∧
    DotsOf s s.dotPicture ∧
    (∀ t : Screen, t.Complete → (s.dotPicture = t.dotPicture ↔ s = t)) ∧
    Text.lines s.blocks = (List.range 32).map (fun y => barred (s.pixel · y)) ++ [[]] ∧
    (∀ t : Screen, t.Complete → (s.blocks = t.blocks ↔ s = t)) ∧
    ∀ t : Screen, Text.lines t.blocks = (List.range (t.bytes.size / 8)).map (fun y =>
      barred fun x => (t.bytes.getD (8 * y + x / 8) 0).toNat.testBit (7 - x % 8)) ++ [[]] := by
  refine ⟨fun h => render_eq_dotPicture h s, s.dotsOf_dotPicture, fun t ht => ?_,
    hs.lines_blocks, fun t ht => ?_, lines_blocks⟩
  · exact ⟨eq_of_dotPicture_eq hs ht, congrArg dotPicture⟩
  · exact ⟨eq_of_blocks_eq hs ht, congrArg blocks⟩

/-- Two opposite corners of the grid are lit, the one in the first cell and the other in the last
that is not in the margin; the blank screen looks otherwise. A ninth byte makes no second row. -/
theorem renderings_lossless_of_lit_corners :
    let s := (blank.light 0 0).light 63 31
    let t : Screen := ⟨#[0x80, 0, 0, 0, 0, 0, 0, 0x01, 0xff]⟩
    s.Complete ∧ pointCanvas.Braille ∧ s.render pointCanvas = s.dotPicture ∧
    (∃ c, Text.charAt? s.dotPicture 31 7 = some c ∧ HasDot c 1 3) ∧
    Text.charAt? s.dotPicture 30 7 = some ' ' ∧ Text.charAt? s.dotPicture 32 8 = some ' ' ∧
    blank.Complete ∧ s.dotPicture ≠ blank.dotPicture ∧ s.blocks ≠ blank.blocks ∧
    (Text.lines s.blocks)[31]? = some (barred fun x => x = 63) ∧
    Text.lines t.blocks = [barred fun x => x = 0 ∨ x = 63, []] := by
  intro s t
  have hs : s.Complete := (complete_blank.light 0 0).light 63 31
  have hpixel (x y : Nat) : s.pixel x y = decide (0 = x ∧ 0 = y ∨ 63 = x ∧ 31 = y) := by
    rw [pixel_light ((complete_blank.light 0 0).holds 63 31) (by decide) (by decide),
      pixel_light (complete_blank.holds 0 0) (by decide) (by decide), pixel_blank]
    simp
  have hne : s ≠ blank := by
    intro h
    have hlit := hpixel 0 0
    rw [h, pixel_blank] at hlit
    cases hlit
  obtain ⟨hrender, hdots, hdotted, hlines, hblocks, hrows⟩ := renderings_lossless hs
  refine ⟨hs, braille_pointCanvas, hrender braille_pointCanvas, ?_, ?_, ?_, complete_blank,
    fun h => hne ((hdotted blank complete_blank).mp h),
    fun h => hne ((hblocks blank complete_blank).mp h), ?_, ?_⟩
  · have hlit : s.pixel 63 31 = true := hpixel 63 31
    exact (hdots.pixel 63 (by decide) 31 (by decide)).mp hlit
  · obtain ⟨c, hc, hcell⟩ := hdots.cell 30 (by decide) 7 (by decide)
    rw [hc, hcell.blank]
    intro dx hx dy hy
    rw [hpixel]
    simp
    omega
  · exact hdots.margin 32 (by decide) 8 (by decide) (Or.inl rfl)
  · rw [hlines]
    refine congrArg some (barred_eq_iff.mpr fun x hx => ?_)
    rw [hpixel]
    simp [eq_comm]
  · have hbits : ∀ x < 64,
        (t.bytes.getD (8 * 0 + x / 8) 0).toNat.testBit (7 - x % 8) = decide (x = 0 ∨ x = 63) := by
      decide
    rw [hrows t, show t.bytes.size / 8 = 1 by decide, List.range_one, List.map_singleton,
      barred_eq_iff.mpr hbits]
    rfl

end Screen

end Chip8
