import Chip8.Json.Token

/-!
# JSON is read token by token

The reader knows what may come next and which lists and records are open around
it, the innermost first. A value that is complete goes to the innermost of them,
or, if none is open, is the value of the text, behind which nothing more may come.
-/

namespace Chip8.Json

/-- A list or record that is open, with what it holds so far, the latest first. -/
inductive Frame
  | list (items : List Json)
  | record (fields : List (Text × Json)) (key : Text)

/-- What may come next. -/
inductive Reader
  /-- A value. -/
  | value (frames : List Frame)
  /-- The first item of a list, or its end. -/
  | listStart (frames : List Frame)
  /-- The first key of a record, or its end. -/
  | recordStart (frames : List Frame)
  /-- Another key of a record. -/
  | key (fields : List (Text × Json)) (frames : List Frame)
  /-- The colon behind a key. -/
  | colon (fields : List (Text × Json)) (key : Text) (frames : List Frame)
  /-- A comma, or the end of a list. -/
  | listRest (items : List Json) (frames : List Frame)
  /-- A comma, or the end of a record. -/
  | recordRest (fields : List (Text × Json)) (frames : List Frame)
  | complete (tree : Json)

namespace Reader

/-- Hands a complete value to the innermost open list or record. -/
def deliver (tree : Json) : List Frame → Reader
  | [] => complete tree
  | .list items :: frames => listRest (tree :: items) frames
  | .record fields name :: frames => recordRest ((name, tree) :: fields) frames

/-- A token where a value must begin. -/
def begin? (frames : List Frame) : Token → Option Reader
  | .scalar tree => some (deliver tree frames)
  | .text content => some (deliver (.text content) frames)
  | .listOpen => some (listStart frames)
  | .recordOpen => some (recordStart frames)
  | .listClose | .recordClose | .comma | .colon => none

/-- Takes in the next token. -/
def feed : Reader → Token → Option Reader
  | value frames, token => begin? frames token
  | listStart frames, .listClose => some (deliver (.list []) frames)
  | listStart frames, token => begin? (.list [] :: frames) token
  | recordStart frames, .recordClose => some (deliver (.record []) frames)
  | recordStart frames, .text content => some (colon [] content frames)
  | key fields frames, .text content => some (colon fields content frames)
  | colon fields name frames, .colon => some (value (.record fields name :: frames))
  | listRest items frames, .comma => some (value (.list items :: frames))
  | listRest items frames, .listClose => some (deliver (.list items.reverse) frames)
  | recordRest fields frames, .comma => some (key fields frames)
  | recordRest fields frames, .recordClose => some (deliver (.record fields.reverse) frames)
  | _, _ => none

/-- The value of the text, if it is complete. -/
def finish : Reader → Option Json
  | complete tree => some tree
  | _ => none

end Reader

def ofTokens? (tokens : List Token) : Option Json :=
  (tokens.foldlM Reader.feed (Reader.value [])).bind Reader.finish

/-- The value that a text stands for. -/
def read (text : String) : Option Json :=
  (tokens? text.toList).bind ofTokens?

end Chip8.Json
