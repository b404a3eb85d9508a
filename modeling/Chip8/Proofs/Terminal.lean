import Chip8.Host.Display

/-!
# What the orders of the display do to a terminal

A terminal reads what is written to it character by character. A character is put where the cursor
stands, and whatever was there before is gone. An escape sequence has numbers and a last character,
and clears the terminal or moves the cursor. Any other sequence is skipped. The orders of the
display have the effects that their names promise, and so a picture ends up in the corner of the
terminal whatever the terminal showed before.
-/

namespace Chip8

namespace Host

/-- How far the terminal has come with a sequence, if it is in one. -/
inductive Reading
  | text
  | escape
  | numbers (before : List Nat) (last : Nat)

/-- A terminal of that size. Rows and columns count from zero. The cursor may stand behind the last
column until the next character comes. -/
structure Terminal (rows columns : Nat) where
  cells : Nat → Nat → Char
  row : Nat
  column : Nat
  reading : Reading

namespace Terminal

/-- What is at a place if a list is laid out from a start on. -/
def laid? {α : Type} (list : List α) (start place : Nat) : Option α :=
  if start ≤ place then list[place - start]? else none

@[simp]
theorem laid?_nil {α : Type} (start place : Nat) : laid? ([] : List α) start place = none := by
  simp [laid?]

theorem laid?_of_lt {α : Type} {list : List α} {start place : Nat} (h : place < start) :
    laid? list start place = none :=
  if_neg (Nat.not_le.mpr h)

theorem laid?_cons {α : Type} (a : α) (rest : List α) (start place : Nat) :
    laid? (a :: rest) start place =
      if place = start then some a else laid? rest (start + 1) place := by
  obtain hlt | rfl | hgt := Nat.lt_trichotomy place start
  · rw [laid?_of_lt hlt, if_neg (Nat.ne_of_lt hlt), laid?_of_lt (Nat.lt_succ_of_lt hlt)]
  · simp [laid?]
  · have hplace : place - start = place - (start + 1) + 1 := by omega
    rw [laid?, if_pos (Nat.le_of_lt hgt), if_neg (Nat.ne_of_gt hgt), laid?,
      if_pos (Nat.succ_le_of_lt hgt), hplace, List.getElem?_cons_succ]

variable {rows columns : Nat} (t : Terminal rows columns)

def clear : Terminal rows columns :=
  { t with cells := fun _ _ => ' ' }

/-- Puts the cursor into a cell. Where there is none, the nearest one is taken. -/
def moveTo (row column : Nat) : Terminal rows columns :=
  { t with row := min row (rows - 1), column := min column (columns - 1) }

/-- Goes to the start of the next row. Behind the last one all rows move up. -/
def wrap : Terminal rows columns :=
  if t.row + 1 < rows then { t with row := t.row + 1, column := 0 }
  else
    { t with
      cells := fun row column => if row + 1 < rows then t.cells (row + 1) column else ' '
      column := 0 }

/-- Puts a character where the cursor stands, and goes on by a column. -/
def set (c : Char) : Terminal rows columns :=
  { t with
    cells := fun row column =>
      if row = t.row ∧ column = t.column then c else t.cells row column
    column := t.column + 1 }

def put (c : Char) : Terminal rows columns :=
  if t.column < columns then t.set c else t.wrap.set c

/-- The terminal with another part of a sequence read. -/
def inside (reading : Reading) : Terminal rows columns :=
  { t with reading := reading }

/-- Does what a sequence asks for. In a sequence rows and columns count from one. -/
def obey (numbers : List Nat) (last : Char) : Terminal rows columns :=
  match last, numbers with
  | 'J', [2] => t.clear
  | 'H', [row, column] => t.moveTo (row - 1) (column - 1)
  | _, _ => t

/-- Reads a character. The escape character starts a sequence, also in the middle of another. -/
def read (c : Char) : Terminal rows columns :=
  if c = '\x1b' then t.inside .escape
  else
    match t.reading with
    | .text => t.put c
    | .escape => t.inside (if c = '[' then .numbers [] 0 else .text)
    | .numbers before last =>
      match Numeral.digit? 10 c with
      | some d => t.inside (.numbers before (10 * last + d))
      | none =>
        if c = ';' then t.inside (.numbers (before ++ [last]) 0)
        else if '@' ≤ c ∧ c ≤ '~' then (t.obey (before ++ [last]) c).inside .text
        else t

/-- The terminal when a text has been written to it. -/
def write (text : String) : Terminal rows columns :=
  text.toList.foldl read t

/-- The characters in the corner that a picture takes, line by line. -/
def corner : List (List Char) :=
  (List.range Screen.dotRows).map fun row =>
    (List.range Screen.dotColumns).map fun column => t.cells row column

variable {t}

theorem write_append (front back : String) :
    t.write (front ++ back) = (t.write front).write back := by
  rw [write, String.toList_append, List.foldl_append]
  rfl

/-! ## One order -/

theorem write_clearAll : t.write Order.clearAll.text = t.clear.inside .text := rfl

/-- A number in a sequence is read as it is written. -/
theorem foldl_read_toDigits (before : List Nat) (n : Nat) :
    (Nat.toDigits 10 n).foldl read (t.inside (.numbers before 0)) =
      t.inside (.numbers before n) := by
  have hdigit {d value : Nat} (hd : d < 10) :
      (t.inside (.numbers before value)).read (Nat.digitChar d) =
        t.inside (.numbers before (10 * value + d)) := by
    have hescape : Nat.digitChar d ≠ '\x1b' :=
      (by decide : ∀ d : Fin 10, Nat.digitChar d ≠ '\x1b') ⟨d, hd⟩
    have hvalue := Numeral.digitValue?_digitChar (Nat.lt_trans hd (by decide))
    rw [read, if_neg hescape]
    simp only [inside, Numeral.digit?_of_value hvalue hd]
  -- the last digit is read behind those of the quotient
  induction n using Nat.strongRecOn with
  | _ n ih =>
    by_cases h : n < 10
    · rw [Nat.toDigits_of_lt_base h, List.foldl_cons, List.foldl_nil, hdigit h, Nat.mul_zero,
        Nat.zero_add]
    · have hless : n / 10 < n := Nat.div_lt_self (by omega) (by decide)
      rw [Nat.toDigits_of_base_le (by decide) (Nat.le_of_not_lt h), List.foldl_append, ih _ hless,
        List.foldl_cons, List.foldl_nil, hdigit (Nat.mod_lt n (by decide)), Nat.div_add_mod]

theorem write_decimal (before : List Nat) (n : Nat) :
    (t.inside (.numbers before 0)).write (Numeral.decimal n) = t.inside (.numbers before n) := by
  rw [write, Numeral.decimal, String.toList_ofList, foldl_read_toDigits]

theorem write_moveTo (row column : Nat) :
    t.write (Order.moveTo row column).text = (t.moveTo row column).inside .text := by
  have hstart : t.write "\x1b[" = t.inside (.numbers [] 0) := rfl
  have hbetween (n : Nat) :
      (t.inside (.numbers [] n)).write ";" = t.inside (.numbers [n] 0) := rfl
  have hend (r c : Nat) :
      (t.inside (.numbers [r] c)).write "H" = (t.moveTo (r - 1) (c - 1)).inside .text := rfl
  rw [Order.text, write_append, write_append, write_append, write_append, hstart, write_decimal,
    hbetween, write_decimal, hend, Nat.add_sub_cancel, Nat.add_sub_cancel]

/-- A line without the escape character is put into a row that has room for it. -/
theorem write_print {line : List Char} (hplain : '\x1b' ∉ line) (htext : t.reading = .text)
    (hroom : t.column + line.length ≤ columns) :
    t.write (Order.print line).text =
      { t with
        cells := fun row column =>
          if row = t.row then (laid? line t.column column).getD (t.cells row column)
          else t.cells row column
        column := t.column + line.length } := by
  rw [write, Order.text, String.toList_ofList]
  induction line generalizing t with
  | nil => simp
  | cons c rest ih =>
    rw [List.mem_cons, not_or] at hplain
    rw [List.length_cons] at hroom
    have hread : t.read c = t.set c := by
      rw [read, if_neg (Ne.symm hplain.1), htext]
      exact if_pos (by omega)
    have hrest : t.column + 1 + rest.length ≤ columns := by omega
    rw [List.foldl_cons, hread, ih (t := t.set c) hplain.2 htext hrest]
    simp only [set, List.length_cons, mk.injEq, and_true, true_and]
    refine ⟨?_, by omega⟩
    funext row column
    rw [laid?_cons]
    by_cases hrow : row = t.row
    · by_cases hcolumn : column = t.column
      · simp [hrow, hcolumn, laid?_of_lt]
      · simp [hrow, hcolumn]
    · simp [hrow]

/-! ## The orders for a picture -/

/-- The terminal when orders have been given one after another. -/
def writeAll (t : Terminal rows columns) (orders : List Order) : Terminal rows columns :=
  t.write (String.join (orders.map Order.text))

theorem writeAll_append (front back : List Order) :
    t.writeAll (front ++ back) = (t.writeAll front).writeAll back := by
  rw [writeAll, List.map_append, String.join_append, write_append]
  rfl

theorem writeAll_cons (order : Order) (rest : List Order) :
    t.writeAll (order :: rest) = (t.write order.text).writeAll rest := by
  rw [writeAll, List.map_cons, String.join_cons, write_append]
  rfl

/-- Lines that fit in are put one below another. -/
theorem cells_writeAll_lineOrders {lines : List (List Char)}
    (hplain : ∀ line ∈ lines, '\x1b' ∉ line) (hroom : ∀ line ∈ lines, line.length ≤ columns)
    {top : Nat} (hrows : top + lines.length ≤ rows) (row column : Nat) :
    (t.writeAll (Display.lineOrders top lines)).cells row column =
      ((laid? lines top row).bind (·[column]?)).getD (t.cells row column) := by
  induction lines generalizing t top with
  | nil => simp [Display.lineOrders, writeAll, write]
  | cons head rest ih =>
    obtain ⟨hplain, hplains⟩ := List.forall_mem_cons.mp hplain
    obtain ⟨hroom, hrooms⟩ := List.forall_mem_cons.mp hroom
    rw [List.length_cons] at hrows
    -- there is room for the line, so the cursor goes where it should and never wraps
    have htop : min top (rows - 1) = top := by omega
    have hline : ((t.write (Order.moveTo top 0).text).write (Order.print head).text).cells =
        fun row column => if row = top then head[column]?.getD (t.cells row column)
          else t.cells row column := by
      rw [write_moveTo, write_print hplain rfl (by simpa [moveTo, inside] using hroom)]
      simp [moveTo, inside, htop, laid?]
    rw [Display.lineOrders, writeAll_cons, writeAll_cons, ih hplains hrooms (by omega), hline,
      laid?_cons]
    by_cases hrow : row = top
    · simp [hrow, laid?_of_lt]
    · simp [hrow]

variable (hrows : Screen.dotRows ≤ rows) (hcolumns : Screen.dotColumns ≤ columns)

include hrows hcolumns

/-- A picture is put into the corner. The first one leaves nothing else on the terminal, and a
later one leaves alone what is not in the corner. -/
theorem cells_writeAll_pictureOrders (d : Display) (s : Screen) (row column : Nat) :
    (t.writeAll (d.pictureOrders s)).cells row column =
      if row < Screen.dotRows ∧ column < Screen.dotColumns then s.cell column row
      else if d.drawn = 0 then ' ' else t.cells row column := by
  have hlines (u : Terminal rows columns) :
      (u.writeAll (Display.lineOrders 0 s.dotLines)).cells row column =
        if row < Screen.dotRows ∧ column < Screen.dotColumns then s.cell column row
        else u.cells row column := by
    rw [cells_writeAll_lineOrders
      (fun line h => Screen.not_mem_of_mem_dotLines h (by decide))
      (fun line h => Screen.length_of_mem_dotLines h ▸ hcolumns)
      (by rw [Nat.zero_add, s.length_dotLines]; exact hrows), laid?, if_pos (Nat.zero_le row),
      Nat.sub_zero, s.getElem?_dotLines]
    split <;> rfl
  rw [Display.pictureOrders, s.readLines_dotPicture]
  split
  · rw [writeAll_append, hlines, writeAll_cons, write_clearAll]
    rfl
  · rw [List.nil_append]
    exact hlines t

end Terminal

end Host

end Chip8
