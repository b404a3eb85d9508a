/-!
# Texts are cut into lines, and characters are replaced

A line ends at a line feed, which may have a carriage return before it, and neither
of them is a part of the line. The last line may end with the text instead. A
character is replaced wherever it stands, and nothing else is touched.
-/

namespace Chip8.Text

/-- The line without the carriage return that it may end in. -/
def stripReturn (line : List Char) : List Char :=
  if line.getLast? = some '\r' then line.dropLast else line

/-- The lines of a text in whose first line `line` has been read already. -/
def readLinesFrom (line : List Char) : List Char → List (List Char)
  | [] => if line.isEmpty then [] else [line]
  | c :: rest =>
    if c = '\n' then stripReturn line :: readLinesFrom [] rest
    else readLinesFrom (line ++ [c]) rest

def readLines (text : String) : List (List Char) :=
  readLinesFrom [] text.toList

theorem stripReturn_of_not_mem {line : List Char} (h : '\r' ∉ line) : stripReturn line = line :=
  if_neg fun hlast => h (List.mem_of_getLast? hlast)

theorem readLinesFrom_lineFeed {line : List Char} (h : '\n' ∉ line) (front rest : List Char) :
    readLinesFrom front (line ++ '\n' :: rest) =
      stripReturn (front ++ line) :: readLinesFrom [] rest := by
  induction line generalizing front with
  | nil => rw [List.nil_append, readLinesFrom, if_pos rfl, List.append_nil]
  | cons c line ih =>
    have hc : c ≠ '\n' := Ne.symm (List.ne_of_not_mem_cons h)
    rw [List.cons_append, readLinesFrom, if_neg hc, ih (List.not_mem_of_not_mem_cons h),
      ← List.append_cons]

theorem readLinesFrom_of_not_mem {line : List Char} (h : '\n' ∉ line) (front : List Char) :
    readLinesFrom front line = if (front ++ line).isEmpty then [] else [front ++ line] := by
  induction line generalizing front with
  | nil => rw [readLinesFrom, List.append_nil]
  | cons c line ih =>
    have hc : c ≠ '\n' := Ne.symm (List.ne_of_not_mem_cons h)
    rw [readLinesFrom, if_neg hc, ih (List.not_mem_of_not_mem_cons h), ← List.append_cons]

/-- Lines with line feeds between them are read as they are. -/
theorem readLines_intercalate {ls : List (List Char)}
    (h : ∀ l ∈ ls, l ≠ [] ∧ '\n' ∉ l ∧ '\r' ∉ l) :
    readLines (String.ofList (List.intercalate ['\n'] ls)) = ls := by
  rw [readLines, String.toList_ofList]
  induction ls with
  | nil => rfl
  | cons line rest ih =>
    obtain ⟨⟨hne, hfeed, hreturn⟩, hrest⟩ := List.forall_mem_cons.mp h
    cases rest with
    | nil =>
      rw [List.intercalate_singleton, readLinesFrom_of_not_mem hfeed, List.nil_append,
        if_neg (by simpa using hne)]
    | cons next rest =>
      rw [List.intercalate_cons_cons, List.append_assoc, List.singleton_append,
        readLinesFrom_lineFeed hfeed, List.nil_append, stripReturn_of_not_mem hreturn, ih hrest]

/-- Puts a text for a character, wherever it stands. -/
def replaceChar (text : String) (c : Char) (replacement : String) : String :=
  String.ofList (text.toList.flatMap fun d => if d = c then replacement.toList else [d])

theorem toList_replaceChar (text : String) (c : Char) (replacement : String) :
    (replaceChar text c replacement).toList =
      text.toList.flatMap fun d => if d = c then replacement.toList else [d] :=
  String.toList_ofList

end Chip8.Text
