import Chip8.Json.Read

/-!
# A tree is read from its tokens

The tokens of a tree are those of its text, whatever blanks stand between them. The reader
takes them in and comes back to where it was with the tree delivered, and this holds inside
any number of open lists and records, which is what the induction on the tree needs. So a
tree is the value of its tokens, and trees with the same tokens are equal.
-/

namespace Chip8.Json

/-- Induction over the items of a list and over the values of a record. -/
@[elab_as_elim]
theorem induction {P : Json → Prop} (null : P null) (bool : ∀ b, P (bool b))
    (natural : ∀ n, P (natural n)) (number : ∀ lexeme, P (number lexeme))
    (text : ∀ content, P (text content))
    (list : ∀ items, (∀ item ∈ items, P item) → P (list items))
    (record : ∀ fields, (∀ field ∈ fields, P field.2) → P (record fields)) (tree : Json) :
    P tree :=
  match tree with
  | .null => null
  | .bool b => bool b
  | .natural n => natural n
  | .number lexeme => number lexeme
  | .text content => text content
  | .list items =>
    list items fun item hi =>
      have := List.sizeOf_lt_of_mem hi
      induction null bool natural number text list record item
  | .record fields =>
    record fields fun field hf =>
      have hfield := List.sizeOf_lt_of_mem hf
      have hvalue : sizeOf field.2 < 1 + sizeOf fields := by
        have hspec : sizeOf field = 1 + sizeOf field.1 + sizeOf field.2 := rfl
        omega
      induction null bool natural number text list record field.2
termination_by tree

mutual

/-- The tokens of a value. -/
def tokens : Json → List Token
  | text content => [.text content]
  | list items => .listOpen :: (itemTokens items ++ [.listClose])
  | record fields => .recordOpen :: (fieldTokens fields ++ [.recordClose])
  | scalar => [.scalar scalar]

def itemTokens : List Json → List Token
  | [] => []
  | [item] => tokens item
  | item :: rest => tokens item ++ .comma :: itemTokens rest

def fieldTokens : List (Text × Json) → List Token
  | [] => []
  | [(key, value)] => .text key :: .colon :: tokens value
  | (key, value) :: rest => .text key :: .colon :: (tokens value ++ .comma :: fieldTokens rest)

end

theorem itemTokens_cons_cons (item next : Json) (rest : List Json) :
    itemTokens (item :: next :: rest) = tokens item ++ .comma :: itemTokens (next :: rest) := rfl

theorem fieldTokens_cons_cons (key : Text) (value : Json) (next : Text × Json)
    (rest : List (Text × Json)) :
    fieldTokens ((key, value) :: next :: rest) =
      .text key :: .colon :: (tokens value ++ .comma :: fieldTokens (next :: rest)) := rfl

/-- A partial fold goes on from where its first part ends. -/
theorem foldlM_append_of_eq_some {α β : Type} {f : β → α → Option β} {front back : List α}
    {b c : β} (h : front.foldlM f b = some c) : (front ++ back).foldlM f b = back.foldlM f c := by
  rw [List.foldlM_append, h]
  rfl

theorem foldlM_cons_of_eq_some {α β : Type} {f : β → α → Option β} {a : α} {rest : List α}
    {b c : β} (h : f b a = some c) : (a :: rest).foldlM f b = rest.foldlM f c := by
  rw [List.foldlM_cons, h]
  rfl

namespace Reader

/-- The reader takes in the tokens of the tree and delivers it. -/
def Takes (tree : Json) : Prop :=
  ∀ frames, tree.tokens.foldlM feed (value frames) = some (deliver tree frames)

/-- No value begins with the end of a list. -/
theorem foldlM_listStart (frames : List Frame) (tree : Json) (rest : List Token) :
    (tree.tokens ++ rest).foldlM feed (listStart frames) =
      (tree.tokens ++ rest).foldlM feed (value (.list [] :: frames)) := by
  cases tree <;> simp only [tokens, List.cons_append, List.foldlM_cons] <;> rfl

/-- The items behind those that were read before. -/
theorem foldlM_itemTokens (frames : List Frame) {item : Json} {items : List Json}
    (h : ∀ tree ∈ item :: items, Takes tree) (before : List Json) :
    (itemTokens (item :: items)).foldlM feed (value (.list before :: frames)) =
      some (listRest ((item :: items).reverse ++ before) frames) := by
  induction items generalizing item before with
  | nil => exact h item List.mem_cons_self _
  | cons next rest ih =>
    have hitem := h item List.mem_cons_self (.list before :: frames)
    have hrest := ih (fun tree ht => h tree (List.mem_cons_of_mem item ht)) (item :: before)
    rw [itemTokens_cons_cons, foldlM_append_of_eq_some hitem, foldlM_cons_of_eq_some rfl, hrest]
    simp

theorem takes_list {items : List Json} (h : ∀ item ∈ items, Takes item) :
    Takes (.list items) := by
  intro frames
  rw [tokens, foldlM_cons_of_eq_some rfl]
  cases items with
  | nil => rfl
  | cons item rest =>
    have hitems := foldlM_itemTokens frames h []
    have hstart : (itemTokens (item :: rest) ++ [Token.listClose]).foldlM feed
        (listStart frames) =
        (itemTokens (item :: rest) ++ [Token.listClose]).foldlM feed
          (value (.list [] :: frames)) := by
      cases rest with
      | nil => exact foldlM_listStart frames item _
      | cons next rest =>
        rw [itemTokens_cons_cons, List.append_assoc]
        exact foldlM_listStart frames item _
    rw [hstart, foldlM_append_of_eq_some hitems, foldlM_cons_of_eq_some rfl, List.append_nil,
      List.reverse_reverse]
    rfl

/-- The fields behind those that were read before. -/
theorem foldlM_fieldTokens (frames : List Frame) {field : Text × Json}
    {fields : List (Text × Json)}
    (h : ∀ f ∈ field :: fields, Takes f.2) (before : List (Text × Json)) :
    (fieldTokens (field :: fields)).foldlM feed (key before frames) =
      some (recordRest ((field :: fields).reverse ++ before) frames) := by
  induction fields generalizing field before with
  | nil => exact h field List.mem_cons_self (.record before field.1 :: frames)
  | cons next rest ih =>
    obtain ⟨name, tree⟩ := field
    have htree := h (name, tree) List.mem_cons_self (.record before name :: frames)
    have hrest := ih (fun f hf => h f (List.mem_cons_of_mem _ hf)) ((name, tree) :: before)
    rw [fieldTokens_cons_cons, foldlM_cons_of_eq_some rfl, foldlM_cons_of_eq_some rfl,
      foldlM_append_of_eq_some htree, foldlM_cons_of_eq_some rfl, hrest]
    simp

theorem takes_record {fields : List (Text × Json)} (h : ∀ field ∈ fields, Takes field.2) :
    Takes (.record fields) := by
  intro frames
  rw [tokens, foldlM_cons_of_eq_some rfl]
  cases fields with
  | nil => rfl
  | cons field rest =>
    have hfields := foldlM_fieldTokens frames h []
    have hstart : (fieldTokens (field :: rest) ++ [Token.recordClose]).foldlM feed
        (recordStart frames) =
        (fieldTokens (field :: rest) ++ [Token.recordClose]).foldlM feed (key [] frames) := by
      cases rest <;> rfl
    rw [hstart, foldlM_append_of_eq_some hfields, foldlM_cons_of_eq_some rfl, List.append_nil,
      List.reverse_reverse]
    rfl

theorem takes (tree : Json) : Takes tree := by
  induction tree using Json.induction with
  | list items ih => exact takes_list ih
  | record fields ih => exact takes_record ih
  | _ => exact fun _ => rfl

end Reader

/-- A tree is the value of its tokens. -/
theorem ofTokens?_tokens (tree : Json) : ofTokens? tree.tokens = some tree := by
  rw [ofTokens?, Reader.takes tree []]
  rfl

end Chip8.Json
