import Chip8.Proofs.Archiving

/-!
# How a value is presented, and what it must hold

A value with fields may be presented in many ways: its fields in any order, with fields of
other names between them, or as the list of its fields, and each tree in any of its texts. A
`Layout` says what all these have in common, the tag and the names of the fields with what
each of them may hold. A text that keeps to the layout gives the value back; a text that
leaves a field out, repeats one, or has something in it that the field cannot hold is refused.
-/

namespace Chip8

section Lists

variable {α β : Type} {f? : α → Option β} {l : List α}

theorem mapM_eq_none {a : α} (ha : a ∈ l) (h : f? a = none) : l.mapM f? = none := by
  induction l with
  | nil => cases ha
  | cons b rest ih =>
    rw [List.mapM_cons]
    obtain rfl | ha := List.mem_cons.mp ha
    · rw [h]
      rfl
    · rw [ih ha]
      cases f? b <;> rfl

theorem exists_mem_zip_of_mapM {r : List β} (h : l.mapM f? = some r) {a : α} (ha : a ∈ l) :
    ∃ b, f? a = some b ∧ (a, b) ∈ l.zip r := by
  induction l generalizing r with
  | nil => cases ha
  | cons first rest ih =>
    simp only [List.mapM_cons, Option.bind_eq_bind, Option.bind_eq_some_iff] at h
    obtain ⟨b, hb, bs, hbs, hr⟩ := h
    cases hr
    obtain rfl | ha := List.mem_cons.mp ha
    · exact ⟨b, hb, List.mem_cons_self⟩
    · obtain ⟨c, hc, hmem⟩ := ih hbs ha
      exact ⟨c, hc, List.mem_cons_of_mem _ hmem⟩

end Lists

/-! ## Layouts -/

/-- What a field holds. -/
inductive Layout.Place
  /-- A number below the limit. -/
  | number (limit : Nat)
  /-- Numbers below the limit, and just so many if there is a count. -/
  | numbers (limit : Nat) (count : Option Nat)

/-- The tag, if there is one, and the fields in their declared order. -/
structure Layout where
  tag : Option String
  places : List (String × Layout.Place)

namespace Layout

def Place.Admits : Place → Json → Prop
  | number limit, value => ∃ n < limit, value = .natural n
  | numbers limit count, value =>
    ∃ items : List Nat, (∀ n ∈ items, n < limit) ∧ (∀ c ∈ count, items.length = c) ∧
      value = .list (items.map .natural)

def names (l : Layout) : List String :=
  l.places.map Prod.fst

/-- The fields under the tag, if there is one. -/
def wrap (l : Layout) (content : Json) : Json :=
  match l.tag with
  | some tag => .record [(some tag, content)]
  | none => content

/-- A record of these fields in any order, among others of any names but theirs, or the list of
their values. -/
inductive Presents (l : Layout) (fields : List (String × Json)) : Json → Prop
  | record {others given : List (String × Json)} (hothers : ∀ field ∈ others, field.1 ∉ l.names)
      (hgiven : given.Perm (fields ++ others)) : Presents l fields (.structured given)
  | list : Presents l fields (.list (fields.map Prod.snd))

/-- A field is left out, is there more than once, or holds something that it cannot hold. -/
inductive Flawed (l : Layout) : Json → Prop
  | missing {name : String} (h : name ∈ l.names) {given : List (Json.Text × Json)}
      (hnone : ∀ field ∈ given, field.1 ≠ some name) : Flawed l (.record given)
  | repeated {name : String} (h : name ∈ l.names) {given : List (Json.Text × Json)}
      (htwice : 2 ≤ given.countP (·.1 == some name)) : Flawed l (.record given)
  | unfit {name : String} {place : Place} (h : (name, place) ∈ l.places)
      {given : List (Json.Text × Json)} {value : Json} (hgiven : (some name, value) ∈ given)
      (hvalue : ¬place.Admits value) : Flawed l (.record given)
  | miscounted {items : List Json} (h : items.length ≠ l.places.length) : Flawed l (.list items)
  | misplaced {items : List Json} {name : String} {place : Place} {value : Json}
      (h : ((name, place), value) ∈ l.places.zip items) (hvalue : ¬place.Admits value) :
      Flawed l (.list items)

end Layout

namespace Json

section Only

variable {given : List (Text × Json)} {name : String}

theorem only?_eq_none_of_forall (h : ∀ field ∈ given, field.1 ≠ some name) :
    only? given name = none := by
  have hnone : given.filter (·.1 == some name) = [] := by
    simpa [List.filter_eq_nil_iff] using fun a b hab => h (a, b) hab
  rw [only?, hnone]

theorem only?_eq_none_of_countP (h : 2 ≤ given.countP (·.1 == some name)) :
    only? given name = none := by
  rw [List.countP_eq_length_filter] at h
  rw [only?]
  split
  · rename_i hone
    rw [hone, List.length_singleton] at h
    omega
  · rfl

theorem eq_of_only? {found value : Json} (h : only? given name = some found)
    (hgiven : (some name, value) ∈ given) : found = value := by
  have hmem : (some name, value) ∈ given.filter (·.1 == some name) := by simpa using hgiven
  rw [only?] at h
  split at h
  · rename_i hone
    rw [hone, List.mem_singleton] at hmem
    cases h
    rw [← hmem]
  · cases h

end Only

end Json

namespace Layout

variable {l : Layout} {content : Json}

theorem Presents.fields?_eq {fields : List (String × Json)} (hnames : fields.map Prod.fst = l.names)
    (hnodup : l.names.Nodup) (h : l.Presents fields content) :
    content.fields? l.names = some (fields.map Prod.snd) := by
  rw [← hnames] at hnodup ⊢
  cases h with
  | record hothers hgiven => exact Json.fields?_of_perm hnodup (hnames ▸ hothers) hgiven
  | list => simp [Json.fields?]

/-- The fields in their declared order, with no others. -/
theorem Presents.declared (l : Layout) (fields : List (String × Json)) :
    l.Presents fields (.structured fields) :=
  @Presents.record l fields [] fields nofun (by rw [List.append_nil])

theorem Presents.closed_wrap {fields : List (String × Json)} (h : l.Presents fields content) :
    (l.wrap content).Closed := by
  rw [wrap]
  split
  · trivial
  · cases h <;> trivial

/-- Values that something is made of fit their places. -/
def Checks {α : Type} (l : Layout) (make : List Json → Option α) : Prop :=
  ∀ values a, make values = some a → ∀ entry ∈ l.places.zip values, entry.1.2.Admits entry.2

theorem Checks.eq_none {α : Type} {make : List Json → Option α} (h : l.Checks make)
    {values : List Json} {entry : (String × Place) × Json} (hentry : entry ∈ l.places.zip values)
    (hvalue : ¬entry.1.2.Admits entry.2) : make values = none := by
  cases hmake : make values with
  | none => rfl
  | some a => exact absurd (h values a hmake entry hentry) hvalue

theorem Flawed.bind_eq_none {α : Type} {make : List Json → Option α} (hmake : l.Checks make)
    (h : l.Flawed content) : (content.fields? l.names).bind make = none := by
  -- a record with a name that is not there just once
  have hrecord {name : String} (hname : name ∈ l.names) {given : List (Json.Text × Json)}
      (honly : Json.only? given name = none) : (Json.record given).fields? l.names = none := by
    rw [Json.fields?]
    split
    · exact mapM_eq_none hname honly
    · rfl
  cases h with
  | missing hname hnone =>
    rw [hrecord hname (Json.only?_eq_none_of_forall hnone)]
    rfl
  | repeated hname htwice =>
    rw [hrecord hname (Json.only?_eq_none_of_countP htwice)]
    rfl
  | @unfit name place h given value hgiven hvalue =>
    cases hfields : (Json.record given).fields? l.names with
    | none => rfl
    | some values =>
      rw [Json.fields?] at hfields
      split at hfields
      · rw [names, List.mapM_map] at hfields
        obtain ⟨found, hfound, hmem⟩ := exists_mem_zip_of_mapM hfields h
        have hsame : found = value := Json.eq_of_only? hfound hgiven
        exact hmake.eq_none hmem (hsame ▸ hvalue)
      · cases hfields
  | @miscounted items h =>
    have hlength : ¬items.length = l.names.length := by simpa [names] using h
    rw [Json.fields?, if_neg hlength]
    rfl
  | @misplaced items name place value h hvalue =>
    rw [Json.fields?]
    split
    · exact hmake.eq_none h hvalue
    · rfl

end Layout

/-! ## Reading by a layout -/

namespace Archive

open Json (Spells Blank)

/-- A value with fields is read from whatever presents them, and its texts bear no change that
touches what they hold. -/
structure Presentable {α : Type} [Archive α] (l : Layout) (fields : List (String × Json))
    (a : α) : Prop where
  names_eq : fields.map Prod.fst = l.names
  /-- Its own text is one of those that present its fields. -/
  toJson_eq : toJson a = l.wrap (.structured fields)
  spells_write : Spells (toJson a) (write a).toList
  /-- The order of the fields, fields of other names, the form of a list, blanks and spellings
  make no difference. -/
  read_of_presents : ∀ (content : Json) (text : String), l.Presents fields content →
    Spells (l.wrap content) text.toList → read text = some a
  /-- What is missing, repeated or does not fit is not made up for. -/
  read_of_flawed : ∀ (content : Json) (text : String), l.Flawed content →
    Spells (l.wrap content) text.toList → (read text : Option α) = none
  /-- Where there is a tag, there is only one. -/
  read_of_tags : l.tag.isSome → ∀ (entries : List (Json.Text × Json)) (text : String),
    2 ≤ entries.length → Spells (.record entries) text.toList → (read text : Option α) = none
  /-- Nothing but blanks may follow. -/
  read_append : ∀ (content : Json) (text extra : String), l.Presents fields content →
    Spells (l.wrap content) text.toList → ¬Blank extra.toList →
      (read (text ++ extra) : Option α) = none

section Reading

variable {α : Type} [Archive α] {l : Layout} {fields : List (String × Json)} {a : α}

theorem read_eq_of_spells {tree : Json} {text : String} (h : Spells tree text.toList) :
    (read text : Option α) = ofJson? tree := by
  rw [read, h.read_eq, Option.bind_some]

/-- A reader that looks for the fields under the tag and makes a value of what they hold, if it
fits. -/
theorem Presentable.of_make (make : List Json → Option α)
    (hread : ∀ content, (ofJson? (l.wrap content) : Option α) =
      (content.fields? l.names).bind make)
    (htags : l.tag.isSome → ∀ entries, 2 ≤ entries.length →
      (ofJson? (.record entries) : Option α) = none)
    (hchecks : l.Checks make) (hnames : fields.map Prod.fst = l.names)
    (hnodup : l.names.Nodup) (hmake : make (fields.map Prod.snd) = some a)
    (htree : toJson a = l.wrap (.structured fields)) (hreadable : (toJson a).Readable) :
    Presentable l fields a where
  names_eq := hnames
  toJson_eq := htree
  spells_write := by
    rw [write, Json.write, String.toList_ofList]
    exact hreadable.spells
  read_of_presents content text hpresents hspells := by
    rw [read_eq_of_spells hspells, hread, hpresents.fields?_eq hnames hnodup, Option.bind_some,
      hmake]
  read_of_flawed content text hflawed hspells := by
    rw [read_eq_of_spells hspells, hread, hflawed.bind_eq_none hchecks]
  read_of_tags htag entries text hcount hspells := by
    rw [read_eq_of_spells hspells, htags htag entries hcount]
  read_append content text extra hpresents hspells hextra := by
    rw [read, hspells.read_append_eq_none hpresents.closed_wrap hextra, Option.bind_none]

end Reading

end Archive

/-! ## What fits a place -/

namespace Json

theorem admits_of_natural? {limit n : Nat} {value : Json} (h : value.natural? limit = some n) :
    (Layout.Place.number limit).Admits value :=
  ⟨n, eq_of_natural? h⟩

theorem eq_of_mapM_natural? {limit : Nat} {items : List Json} {numbers : List Nat}
    (h : items.mapM (natural? limit) = some numbers) :
    (∀ n ∈ numbers, n < limit) ∧ items = numbers.map .natural := by
  induction items generalizing numbers with
  | nil =>
    cases h
    exact ⟨nofun, rfl⟩
  | cons item rest ih =>
    simp only [List.mapM_cons, Option.bind_eq_bind, Option.bind_eq_some_iff] at h
    obtain ⟨n, hn, ns, hns, hnumbers⟩ := h
    cases hnumbers
    obtain ⟨hlt, rfl⟩ := eq_of_natural? hn
    obtain ⟨hall, rfl⟩ := ih hns
    exact ⟨List.forall_mem_cons.mpr ⟨hlt, hall⟩, rfl⟩

theorem admits_of_naturals? {limit : Nat} {count : Option Nat} {value : Json}
    {numbers : List Nat} (h : value.naturals? limit = some numbers)
    (hcount : ∀ c ∈ count, numbers.length = c) :
    (Layout.Place.numbers limit count).Admits value := by
  cases value with
  | list items =>
    obtain ⟨hall, rfl⟩ := eq_of_mapM_natural? h
    exact ⟨numbers, hall, hcount, rfl⟩
  | _ => cases h

theorem admits_of_bytes? {value : Json} {bytes : Array UInt8} (h : value.bytes? = some bytes) :
    (Layout.Place.numbers UInt8.size none).Admits value := by
  obtain ⟨numbers, hnumbers, -⟩ := Option.map_eq_some_iff.mp h
  exact admits_of_naturals? hnumbers nofun

end Json

/-- What is made of the only value. -/
def ofValue? {α : Type} (read? : Json → Option α) : List Json → Option α
  | [value] => read? value
  | _ => none

theorem Layout.checks_ofValue? {α : Type} {tag : Option String} {name : String} {place : Place}
    {read? : Json → Option α} (h : ∀ value a, read? value = some a → place.Admits value) :
    Layout.Checks ⟨tag, [(name, place)]⟩ (ofValue? read?) := by
  intro values a hmake entry hentry
  rw [ofValue?.eq_def] at hmake
  split at hmake
  · rename_i value
    rw [List.mem_singleton.mp hentry]
    exact h value a hmake
  · cases hmake

/-! ## The types -/

namespace Instruction

def layout (i : Instruction) : Layout where
  tag := some i.tag
  places := i.fields.map fun field => (field.1.name, .number field.1.limit)

/-- The instruction of that form with these values of its fields. -/
def Form.ofValues? (form : Form) (values : List Json) : Option Instruction := do
  form.make (← (form.fields.zip values).mapM fun (field, value) => value.natural? field.limit)

theorem Form.checks_ofValues? {i : Instruction} {form : Form}
    (hfields : form.fields = i.fields.map Prod.fst) : i.layout.Checks form.ofValues? := by
  have hplaces : i.layout.places =
      form.fields.map fun field => (field.name, Layout.Place.number field.limit) := by
    simp [hfields, layout, Function.comp_def]
  intro values j hj entry hentry
  obtain ⟨numbers, hnumbers, -⟩ := Option.bind_eq_some_iff.mp hj
  rw [hplaces, List.zip_map_left] at hentry
  obtain ⟨stored, hstored, rfl⟩ := List.mem_map.mp hentry
  obtain ⟨n, hn, -⟩ := exists_mem_zip_of_mapM hnumbers hstored
  exact Json.admits_of_natural? hn

theorem presentable {i : Instruction} (h : i.fields ≠ []) :
    Archive.Presentable i.layout i.namedFields i := by
  obtain ⟨form, hform, hfields, hmake⟩ := i.ofTag?_tag
  have hnames : form.fields.map Field.name = i.layout.names := by
    simp [hfields, layout, Layout.names, Function.comp_def]
  have hsome : form.fields.isEmpty = false := by simpa [hfields] using h
  have hread (content : Json) : ofJson? (i.layout.wrap content) =
      (content.fields? i.layout.names).bind form.ofValues? := by
    have htagged : (i.layout.wrap content).tagged? = some (i.tag, content) := rfl
    simp only [ofJson?, htagged, Option.bind_eq_bind, Option.bind_some, hform, ofContent?, hsome,
      hnames]
    rfl
  have htags (entries : List (Json.Text × Json)) (hcount : 2 ≤ entries.length) :
      ofJson? (.record entries) = none := by
    rw [ofJson?, Json.tagged?_eq_none hcount]
    rfl
  have hmade : form.ofValues? (i.namedFields.map Prod.snd) = some i := by
    rw [Form.ofValues?]
    simp only [Option.bind_eq_bind]
    rw [mapM_namedFields hfields]
    exact hmake
  have htree : toJson i = i.layout.wrap (.structured i.namedFields) :=
    Json.choice_of_ne_nil i.tag (by simpa using h)
  refine .of_make form.ofValues? hread (fun _ => htags) (Form.checks_ofValues? hfields) ?_ ?_ hmade
    htree i.readable_toJson
  · simp [namedFields, layout, Layout.names, Function.comp_def]
  · simpa [layout, Layout.names, Function.comp_def] using i.nodup_names

end Instruction

namespace Status

def layout : Layout where
  tag := some "WaitingForKey"
  places := [("register", .number UInt64.size)]

theorem presentable (register : UInt64) :
    Archive.Presentable layout [("register", .natural register.toNat)] (waiting register) := by
  have hread (content : Json) : ofJson? (layout.wrap content) = (content.fields? layout.names).bind
      (ofValue? fun value => (value.natural? UInt64.size).map fun r => waiting (.ofNat r)) := rfl
  have hchecks (value : Json) (status : Status)
      (h : (value.natural? UInt64.size).map (fun r => waiting (.ofNat r)) = some status) :
      (Layout.Place.number UInt64.size).Admits value := by
    obtain ⟨n, hn, -⟩ := Option.map_eq_some_iff.mp h
    exact Json.admits_of_natural? hn
  have htags (entries : List (Json.Text × Json)) (hcount : 2 ≤ entries.length) :
      ofJson? (.record entries) = none := by
    rw [ofJson?, Json.tagged?_eq_none hcount]
    rfl
  have hmade : (Json.natural register.toNat).natural? UInt64.size = some register.toNat :=
    Json.natural?_natural register.toNat_lt
  have htree : toJson (waiting register) =
      layout.wrap (.structured [("register", .natural register.toNat)]) :=
    Json.choice_of_ne_nil _ (by simp)
  exact .of_make _ hread (fun _ => htags) (Layout.checks_ofValue? hchecks) rfl (by decide)
    (by simp [ofValue?, hmade]) htree (readable_toJson _)

end Status

/-- Bytes under one name. -/
def Layout.ofBytes (name : String) : Layout where
  tag := none
  places := [(name, .numbers UInt8.size none)]

/-- A value that is nothing but its bytes. -/
theorem Archive.Presentable.of_bytes {α : Type} [Archive α] {name : String} (mk : Array UInt8 → α)
    {bytes : Array UInt8}
    (hread : ∀ content, (Archive.ofJson? content : Option α) =
      (content.fields? [name]).bind (ofValue? fun value => value.bytes?.map mk))
    (htree : Archive.toJson (mk bytes) = .structured [(name, .ofBytes bytes)]) :
    Archive.Presentable (.ofBytes name) [(name, .ofBytes bytes)] (mk bytes) := by
  have hchecks (value : Json) (a : α) (h : value.bytes?.map mk = some a) :
      (Layout.Place.numbers UInt8.size none).Admits value := by
    obtain ⟨read, hbytes, -⟩ := Option.map_eq_some_iff.mp h
    exact Json.admits_of_bytes? hbytes
  have hreadable : (Archive.toJson (mk bytes)).Readable := by
    rw [htree]
    exact Json.readable_structured (by simp [Json.ofBytes, Json.readable_naturals])
  have hmade : (ofValue? fun value => value.bytes?.map mk) [.ofBytes bytes] = some (mk bytes) := by
    simp [ofValue?, Json.bytes?_ofBytes]
  have hnodup : (Layout.ofBytes name).names.Nodup := by simp [Layout.names, Layout.ofBytes]
  exact .of_make _ hread (fun htag => absurd htag Bool.false_ne_true)
    (Layout.checks_ofValue? hchecks) rfl hnodup hmade htree hreadable

theorem Memory.presentable (m : Memory) :
    Archive.Presentable (.ofBytes "memory") [("memory", .ofBytes m.bytes)] m :=
  .of_bytes Memory.mk (fun _ => rfl) rfl

theorem Screen.presentable (s : Screen) :
    Archive.Presentable (.ofBytes "bytes") [("bytes", .ofBytes s.bytes)] s :=
  .of_bytes Screen.mk (fun _ => rfl) rfl

namespace CallStack

def layout : Layout where
  tag := none
  places := [("entries", .numbers UInt16.size (some 16)), ("sp", .number UInt64.size)]

/-- What is made of the values of the slots and the depth. -/
def ofValues? : List Json → Option CallStack
  | [entries, depth] => do
    let slots ← slots? (← entries.naturals? UInt16.size)
    return ⟨slots, ← depth.natural? UInt64.size⟩
  | _ => none

theorem length_of_slots? {numbers : List Nat} {slots : Vector UInt16 16}
    (h : slots? numbers = some slots) : numbers.length = 16 := by
  rw [slots?] at h
  split at h
  · rename_i hsize
    simpa using hsize
  · cases h

theorem checks_ofValues? : layout.Checks ofValues? := by
  intro values s h entry hentry
  rw [ofValues?.eq_def] at h
  split at h
  · rename_i entries depth
    simp only [Option.bind_eq_bind, Option.bind_eq_some_iff] at h
    obtain ⟨numbers, hnumbers, slots, hslots, n, hn, -⟩ := h
    obtain rfl | hentry := List.mem_cons.mp hentry
    · refine Json.admits_of_naturals? hnumbers fun c hc => ?_
      cases hc
      exact length_of_slots? hslots
    · rw [List.mem_singleton.mp hentry]
      exact Json.admits_of_natural? hn
  · cases h

theorem presentable {s : CallStack} (h : s.depth < UInt64.size) :
    Archive.Presentable layout
      [("entries", .list (s.slots.toList.map fun address => .natural address.toNat)),
       ("sp", .natural s.depth)] s := by
  have hread (content : Json) :
      ofJson? (layout.wrap content) = (content.fields? layout.names).bind ofValues? := rfl
  have hslots : (Json.list (s.slots.toList.map fun address => .natural address.toNat)).naturals?
      UInt16.size = some (s.slots.toList.map UInt16.toNat) :=
    Json.naturals?_list fun address _ => UInt16.toNat_lt address
  exact .of_make _ hread (fun htag => absurd htag Bool.false_ne_true) checks_ofValues? rfl
    (by decide) (by simp [ofValues?, hslots, slots?_toList, Json.natural?_natural h]) rfl
    s.readable_toJson

end CallStack

namespace Archive

/-- **Reading is indifferent to how a value is presented and strict about what it holds.** Every
instruction with fields, every waiting status, every call stack whose depth is a machine word,
every memory and every screen is read from any text of a record of its fields, in any order and
among others, and of the list of its fields. A text is refused if a field is left out or repeated,
if a number is not below the limit of its place or a call stack has not sixteen slots, if there
is a second tag, or if anything but blanks follows. -/
theorem presentable_of_fields :
    (∀ i : Instruction, i.fields ≠ [] → Presentable i.layout i.namedFields i) ∧
    (∀ register : UInt64, Presentable Status.layout [("register", .natural register.toNat)]
      (Status.waiting register)) ∧
    (∀ s : CallStack, s.depth < UInt64.size → Presentable CallStack.layout
      [("entries", .list (s.slots.toList.map fun address => .natural address.toNat)),
       ("sp", .natural s.depth)] s) ∧
    (∀ m : Memory, Presentable (.ofBytes "memory") [("memory", .ofBytes m.bytes)] m) ∧
    ∀ s : Screen, Presentable (.ofBytes "bytes") [("bytes", .ofBytes s.bytes)] s :=
  ⟨fun _ h => Instruction.presentable h, Status.presentable,
    fun _ h => CallStack.presentable h, Memory.presentable, Screen.presentable⟩

/-- A jump with another field in front of its own and blanks around it, one whose address is too
large, and an empty call stack with text behind it. -/
theorem presentable_of_fields_of_jump :
    ((Instruction.jump 0x201).fields ≠ [] ∧
      read " \x7b\"jmp\":\x7b\"z\":null,\"A\":513\x7d\x7d\n" = some (Instruction.jump 0x201) ∧
      (read "\x7b\"jmp\":\x7b\"A\":65536\x7d\x7d" : Option Instruction) = none) ∧
    CallStack.empty.depth < UInt64.size ∧
      (read (write CallStack.empty ++ "]") : Option CallStack) = none := by
  obtain ⟨hinstruction, -, hstack, -, -⟩ := presentable_of_fields
  have hfields : (Instruction.jump 0x201).fields ≠ [] := by decide
  have hjump := hinstruction (.jump 0x201) hfields
  have hdepth : CallStack.empty.depth < UInt64.size := by decide
  have hempty := hstack .empty hdepth
  have hreadable (fields : List (String × Json)) (h : ∀ field ∈ fields, field.2.Readable) :
      ((Instruction.jump 0x201).layout.wrap (.structured fields)).Readable :=
    .record fun field hf => List.mem_singleton.mp hf ▸ Json.readable_structured h
  refine ⟨⟨hfields, ?_, ?_⟩, hdepth, ?_⟩
  · have hpresents : (Instruction.jump 0x201).layout.Presents (Instruction.jump 0x201).namedFields
        (.structured [("z", .null), ("A", .natural 513)]) :=
      @Layout.Presents.record _ _ [("z", .null)] _ (by decide) (.swap _ _ _)
    have hspells := (hreadable [("z", .null), ("A", .natural 513)]
      (by simp [Json.Readable.null, Json.Readable.natural])).spells
    have hfront : Json.Blank [' '] := by simp [Json.Blank, Json.isBlank]
    have hback : Json.Blank ['\n'] := by simp [Json.Blank, Json.isBlank]
    exact hjump.read_of_presents _ _ hpresents (.spaced hfront hspells hback)
  · have hspells := (hreadable [("A", .natural 65536)] (by simp [Json.Readable.natural])).spells
    have hlarge : ¬(Layout.Place.number UInt16.size).Admits (.natural 65536) := by
      rintro ⟨n, hn, he⟩
      cases he
      exact absurd hn (by decide)
    exact hjump.read_of_flawed _ _ (.unfit List.mem_cons_self List.mem_cons_self hlarge) hspells
  · have hbracket : ¬Json.Blank "]".toList := fun h => absurd (h ']' (by decide)) (by decide)
    have hspells := hempty.spells_write
    rw [hempty.toJson_eq] at hspells
    exact hempty.read_append _ _ _ (.declared _ _) hspells hbracket

end Archive

end Chip8
