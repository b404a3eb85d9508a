import Chip8.Archive
import Chip8.Proofs.Checked
import Chip8.Proofs.Json.Writing

/-!
# Stored values come back

A stored value is a tree, and a written tree is read back. What remains is to find in the
tree what was put there: a structure by the names of its fields, a choice by its tag, and
numbers under the limits of their places. For instructions all thirty-four kinds go through
one argument. The kind found by the tag of an instruction has the fields of the instruction,
and makes the instruction from their values.

A call stack is stored with its dead slots and its depth, whatever the depth, as long as it
is a machine word.
-/

namespace Chip8

namespace Json

/-! ## What is put into a tree is found there -/

/-- The only field with its name. -/
theorem filter_of_mem {fields : List (String × Json)} (h : (fields.map Prod.fst).Nodup)
    {field : String × Json} (hf : field ∈ fields) :
    (fields.map fun f => ((some f.1 : Text), f.2)).filter (·.1 == some field.1) =
      [(some field.1, field.2)] := by
  induction fields with
  | nil => cases hf
  | cons first rest ih =>
    rw [List.map_cons, List.nodup_cons] at h
    obtain ⟨hfirst, hrest⟩ := h
    obtain rfl | hf := List.mem_cons.mp hf
    · have hnone : ∀ f ∈ rest, f.1 ≠ field.1 := by
        rintro f hf he
        exact hfirst (he ▸ List.mem_map_of_mem hf)
      simp only [List.map_cons, List.filter_cons, beq_self_eq_true, if_true, List.cons.injEq,
        true_and, List.filter_eq_nil_iff, List.mem_map]
      rintro _ ⟨f, hf, rfl⟩
      simpa using hnone f hf
    · have hne : first.1 ≠ field.1 := by
        rintro he
        exact hfirst (he ▸ List.mem_map_of_mem hf)
      simpa [hne] using ih hrest hf

section Order

variable {fields others given : List (String × Json)} (hnodup : (fields.map Prod.fst).Nodup)
  (hothers : ∀ field ∈ others, field.1 ∉ fields.map Prod.fst)
  (hgiven : given.Perm (fields ++ others))

include hnodup hothers hgiven

/-- A field is found wherever it stands among others of other names. -/
theorem only?_of_perm {field : String × Json} (hf : field ∈ fields) :
    only? (given.map fun f => (some f.1, f.2)) field.1 = some field.2 := by
  let named : String × Json → Text × Json := fun f => (some f.1, f.2)
  have hnone : (others.map named).filter (·.1 == some field.1) = [] := by
    simp only [List.filter_eq_nil_iff, List.mem_map]
    rintro _ ⟨other, ho, rfl⟩
    have hne : other.1 ≠ field.1 := fun he => hothers other ho (he ▸ List.mem_map_of_mem hf)
    simpa [named] using hne
  have hsame := (hgiven.map named).filter (·.1 == some field.1)
  rw [List.map_append, List.filter_append, filter_of_mem hnodup hf, hnone, List.append_nil,
    List.perm_singleton] at hsame
  rw [only?, hsame]

theorem fields?_of_perm :
    (structured given).fields? (fields.map Prod.fst) = some (fields.map Prod.snd) := by
  have hnamed : (given.map fun f => ((some f.1 : Text), f.2)).all (·.1.isSome) = true := by simp
  rw [structured, fields?, if_pos hnamed, List.mapM_map]
  exact mapM_eq_some fun field hf => only?_of_perm hnodup hothers hgiven hf

end Order

/-- A structure gives its fields back. -/
theorem fields?_structured {fields : List (String × Json)} (h : (fields.map Prod.fst).Nodup) :
    (structured fields).fields? (fields.map Prod.fst) = some (fields.map Prod.snd) :=
  @fields?_of_perm fields [] fields h nofun (by rw [List.append_nil])

theorem tagged?_choice (tag : String) (fields : List (String × Json)) :
    (choice tag fields).tagged? =
      some (tag, if fields.isEmpty then null else structured fields) := by
  rw [choice]
  split <;> rfl

theorem tagged?_eq_none {entries : List (Text × Json)} (h : 2 ≤ entries.length) :
    (record entries).tagged? = none := by
  rw [tagged?.eq_def]
  split
  · rename_i hentries
    cases hentries
  · rename_i hentries
    cases hentries
    exact absurd h (by simp)
  · rfl

theorem choice_of_ne_nil (tag : String) {fields : List (String × Json)} (h : fields ≠ []) :
    choice tag fields = .record [(some tag, structured fields)] := by
  rw [choice, if_neg (by simpa using h)]
  rfl

theorem natural?_natural {limit n : Nat} (h : n < limit) :
    (natural n).natural? limit = some n := by
  simp [natural?, h]

theorem eq_of_natural? {limit n : Nat} {value : Json} (h : value.natural? limit = some n) :
    n < limit ∧ value = .natural n := by
  cases value with
  | natural m =>
    rw [natural?] at h
    split at h
    · cases h
      exact ⟨by assumption, rfl⟩
    · cases h
  | _ => cases h

theorem naturals?_list {α : Type} {limit : Nat} {f : α → Nat} {items : List α}
    (h : ∀ a ∈ items, f a < limit) :
    (list (items.map fun a => natural (f a))).naturals? limit = some (items.map f) := by
  rw [naturals?, List.mapM_map]
  exact mapM_eq_some fun a ha => natural?_natural (h a ha)

theorem bytes?_ofBytes (bytes : Array UInt8) : (ofBytes bytes).bytes? = some bytes := by
  rw [bytes?, ofBytes, naturals?_list fun byte _ => UInt8.toNat_lt byte]
  simp [Function.comp_def]

theorem readable_structured {fields : List (String × Json)}
    (h : ∀ field ∈ fields, field.2.Readable) : (structured fields).Readable := by
  refine .record fun field hf => ?_
  obtain ⟨f, hmem, rfl⟩ := List.mem_map.mp hf
  exact h f hmem

theorem readable_choice (tag : String) {fields : List (String × Json)}
    (h : ∀ field ∈ fields, field.2.Readable) : (choice tag fields).Readable := by
  rw [choice]
  split
  · exact .text _
  · refine .record fun field hf => ?_
    rw [List.mem_singleton.mp hf]
    exact readable_structured h

theorem readable_naturals {α : Type} (f : α → Nat) (items : List α) :
    (list (items.map fun a => natural (f a))).Readable := by
  refine .list fun item hi => ?_
  obtain ⟨a, -, rfl⟩ := List.mem_map.mp hi
  exact .natural _

end Json

namespace Archive

/-- A value that its tree gives back is read from its text. -/
theorem read_write_of_readable {α : Type} [Archive α] {a : α} (hreadable : (toJson a).Readable)
    (h : ofJson? (toJson a) = some a) : read (write a) = some a := by
  rw [read, write, hreadable.read_write, Option.bind_some, h]

/-- Values that come back from one text are equal. -/
theorem eq_of_write_eq {α : Type} [Archive α] {a b : α} (ha : read (write a) = some a)
    (hb : read (write b) = some b) (h : write a = write b) : a = b := by
  rw [h, hb] at ha
  exact (Option.some.inj ha).symm

/-- Every value comes back from its text, and no other value has this text. -/
structure Faithful (α : Type) [Archive α] : Prop where
  read_write : ∀ a : α, read (write a) = some a
  write_inj : ∀ a b : α, write a = write b → a = b

theorem Faithful.of_ofJson?_toJson {α : Type} [Archive α] (hreadable : ∀ a : α, (toJson a).Readable)
    (h : ∀ a : α, ofJson? (toJson a) = some a) : Faithful α := by
  have hread (a : α) : read (write a) = some a := read_write_of_readable (hreadable a) (h a)
  exact ⟨hread, fun a b => eq_of_write_eq (hread a) (hread b)⟩

end Archive

/-! ## Instructions -/

namespace Instruction

theorem nodup_names (i : Instruction) : (i.fields.map fun field => field.1.name).Nodup := by
  cases i <;> simp [fields, Field.name]

/-- Every operand fits its field. -/
theorem lt_limit_of_mem_fields (i : Instruction) :
    ∀ field ∈ i.fields, field.2 < field.1.limit := by
  have address (a : UInt16) : a.toNat < Field.A.limit := a.toNat_lt
  have byte (b : UInt8) : b.toNat < Field.B.limit := b.toNat_lt
  have digit (n : UInt8) : n.toNat < Field.n.limit := n.toNat_lt
  have column (x : UInt64) : x.toNat < Field.x.limit := x.toNat_lt
  have row (y : UInt64) : y.toNat < Field.y.limit := y.toNat_lt
  cases i <;> simp [fields, *]

/-- The kind found by the tag of an instruction has its fields and makes it from their values. -/
theorem ofTag?_tag (i : Instruction) :
    ∃ form, Form.ofTag? i.tag = some form ∧ form.fields = i.fields.map Prod.fst ∧
      form.make (i.fields.map Prod.snd) = some i := by
  cases i with
  | alu operation x y => cases operation <;> exact ⟨_, rfl, rfl, by simp [Form.pair, fields]⟩
  | _ =>
    exact ⟨_, rfl, rfl, by
      simp [Form.plain, Form.address, Form.byte, Form.triple, Form.single, fields]⟩

/-- The fields of an instruction as they are stored. -/
def namedFields (i : Instruction) : List (String × Json) :=
  i.fields.map fun field => (field.1.name, .natural field.2)

theorem mapM_namedFields {i : Instruction} {form : Form}
    (hfields : form.fields = i.fields.map Prod.fst) :
    (form.fields.zip (i.namedFields.map Prod.snd)).mapM
      (fun stored => stored.2.natural? stored.1.limit) = some (i.fields.map Prod.snd) := by
  rw [hfields, namedFields, List.map_map, List.zip_map', List.mapM_map]
  exact mapM_eq_some fun field hf =>
    Json.natural?_natural (i.lt_limit_of_mem_fields field hf)

/-- A form with these fields takes their values from what is stored of them. -/
theorem ofContent?_namedFields {i : Instruction} {form : Form}
    (hfields : form.fields = i.fields.map Prod.fst) :
    ofContent? form (if i.namedFields.isEmpty then .null else .structured i.namedFields) =
      form.make (i.fields.map Prod.snd) := by
  by_cases hnone : i.fields = []
  · simp [ofContent?, namedFields, hfields, hnone, Json.isNull]
  · have hnames : form.fields.map Field.name = i.namedFields.map Prod.fst := by
      simp [hfields, namedFields, Function.comp_def]
    have hnodup : (i.namedFields.map Prod.fst).Nodup := by
      simpa [namedFields, Function.comp_def] using i.nodup_names
    have hform : form.fields.isEmpty = false := by simpa [hfields] using hnone
    have hnamed : i.namedFields.isEmpty = false := by simpa [namedFields] using hnone
    rw [ofContent?, hform, hnamed, hnames, if_neg Bool.false_ne_true, if_neg Bool.false_ne_true,
      Json.fields?_structured hnodup]
    simp [mapM_namedFields hfields]

theorem ofJson?_toJson (i : Instruction) : ofJson? (toJson i) = some i := by
  obtain ⟨form, hform, hfields, hmake⟩ := i.ofTag?_tag
  rw [ofJson?, toJson, Json.tagged?_choice]
  simp only [Option.bind_eq_bind, Option.bind_some, hform]
  exact (ofContent?_namedFields hfields).trans hmake

theorem readable_toJson (i : Instruction) : (toJson i).Readable := by
  refine Json.readable_choice _ fun field hf => ?_
  obtain ⟨f, -, rfl⟩ := List.mem_map.mp hf
  exact .natural _

end Instruction

/-! ## The parts of the machine -/

namespace Status

theorem ofJson?_toJson (status : Status) : ofJson? (toJson status) = some status := by
  cases status with
  | running => rfl
  | waiting register =>
    have hregister : (Json.natural register.toNat).natural? UInt64.size = some register.toNat :=
      Json.natural?_natural register.toNat_lt
    have hfields : (Json.structured [("register", .natural register.toNat)]).fields?
        ["register"] = some [.natural register.toNat] := Json.fields?_structured (by simp)
    rw [ofJson?, toJson, Json.tagged?_choice]
    simp [hfields, hregister]

theorem readable_toJson (status : Status) : (toJson status).Readable := by
  cases status with
  | running => exact .text _
  | waiting register => exact Json.readable_choice _ (by simp [Json.Readable.natural])

end Status

namespace Memory

theorem Region.ofJson?_toJson (region : Region) : ofJson? (toJson region) = some region := by
  cases region <;> rfl

theorem Region.readable_toJson (region : Region) : (toJson region).Readable :=
  .text _

theorem ofJson?_toJson (m : Memory) : ofJson? (toJson m) = some m := by
  have hfields : (toJson m).fields? ["memory"] = some [.ofBytes m.bytes] :=
    Json.fields?_structured (by simp)
  simp [ofJson?, hfields, Json.bytes?_ofBytes]

theorem readable_toJson (m : Memory) : (toJson m).Readable :=
  Json.readable_structured (by simp [Json.ofBytes, Json.readable_naturals])

end Memory

namespace Screen

theorem ofJson?_toJson (s : Screen) : ofJson? (toJson s) = some s := by
  have hfields : (toJson s).fields? ["bytes"] = some [.ofBytes s.bytes] :=
    Json.fields?_structured (by simp)
  simp [ofJson?, hfields, Json.bytes?_ofBytes]

theorem readable_toJson (s : Screen) : (toJson s).Readable :=
  Json.readable_structured (by simp [Json.ofBytes, Json.readable_naturals])

end Screen

namespace CallStack

theorem slots?_toList (slots : Vector UInt16 16) :
    slots? (slots.toList.map UInt16.toNat) = some slots := by
  obtain ⟨slots, hsize⟩ := slots
  have hback : ((slots.toList.map UInt16.toNat).map UInt16.ofNat).toArray = slots := by
    simp [Function.comp_def]
  simp only [slots?, Vector.toList_mk, hback, hsize, dif_pos]

theorem ofJson?_toJson {s : CallStack} (h : s.depth < UInt64.size) :
    ofJson? (toJson s) = some s := by
  have hfields : (toJson s).fields? ["entries", "sp"] =
      some [.list (s.slots.toList.map fun address => .natural address.toNat), .natural s.depth] :=
    Json.fields?_structured (by simp)
  have hslots : (Json.list (s.slots.toList.map fun address => .natural address.toNat)).naturals?
      UInt16.size = some (s.slots.toList.map UInt16.toNat) :=
    Json.naturals?_list fun address _ => UInt16.toNat_lt address
  simp [ofJson?, hfields, hslots, slots?_toList, Json.natural?_natural h]

theorem readable_toJson (s : CallStack) : (toJson s).Readable :=
  Json.readable_structured (by simp [Json.readable_naturals, Json.Readable.natural])

end CallStack

namespace Archive

theorem read_write_callStack {s : CallStack} (h : s.depth < UInt64.size) :
    read (write s) = some s :=
  read_write_of_readable s.readable_toJson (CallStack.ofJson?_toJson h)

/-- **Stored values come back.** Every instruction, status, region, memory and screen is read
from its own text and is the only one with this text, whatever its operands and however many
bytes it has, and so is every call stack, dead slots included, whose depth is a machine word. -/
theorem stored_values_return :
    Faithful Instruction ∧ Faithful Status ∧ Faithful Memory.Region ∧ Faithful Memory ∧
      Faithful Screen ∧
      ∀ s : CallStack, s.depth < UInt64.size →
        read (write s) = some s ∧
          ∀ t : CallStack, t.depth < UInt64.size → write s = write t → s = t := by
  refine ⟨.of_ofJson?_toJson Instruction.readable_toJson Instruction.ofJson?_toJson,
    .of_ofJson?_toJson Status.readable_toJson Status.ofJson?_toJson,
    .of_ofJson?_toJson Memory.Region.readable_toJson Memory.Region.ofJson?_toJson,
    .of_ofJson?_toJson Memory.readable_toJson Memory.ofJson?_toJson,
    .of_ofJson?_toJson Screen.readable_toJson Screen.ofJson?_toJson, fun s hs => ?_⟩
  have hread := read_write_callStack hs
  exact ⟨hread, fun t ht hwrite => eq_of_write_eq hread (read_write_callStack ht) hwrite⟩

/-- A full stack of the deepest kind there is comes back, and its dead slots make a difference. -/
theorem stored_values_return_at_last_depth :
    let deepest : CallStack := ⟨Vector.replicate 16 0xffff, 0xffffffffffffffff⟩
    read (write deepest) = some deepest ∧
      write CallStack.empty ≠ write (CallStack.mk (Vector.replicate 16 1) 0) := by
  obtain ⟨-, -, -, -, -, hstacks⟩ := stored_values_return
  refine ⟨(hstacks _ (by decide)).1, fun h => ?_⟩
  have hslots := (hstacks _ (by decide)).2 _ (by decide) h
  exact absurd (congrArg (fun s : CallStack => s.slots[0]) hslots) (by decide)

end Archive

end Chip8
