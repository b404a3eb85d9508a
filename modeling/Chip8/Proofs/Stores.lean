import Chip8.Memory

/-!
# Memory holds the byte stored last

Whatever is asked of memory comes down to storing bytes one after another: a word is its high
byte and behind it its low one, a load the bytes of its data from the start of the region, a
clear a zero in each place of the region, and a load that does not fit is nothing at all. What
is read at an address is the byte stored last under any address with the same lowest twelve
bits, and what memory held at power-on if there is none.
-/

namespace Chip8.Memory

/-- One byte stored at one address. -/
structure Poke where
  address : Nat
  byte : UInt8
  deriving DecidableEq, Repr

/-- Bytes stored at consecutive addresses. -/
def row (address : Nat) (bytes : List UInt8) : List Poke :=
  bytes.mapIdx fun k byte => ⟨address + k, byte⟩

/-- What a request stores, byte by byte. -/
def Edit.pokes : Edit → List Poke
  | .write address byte => [⟨address, byte⟩]
  | .writeWord address word =>
    [⟨address, UInt8.ofNat (word.toNat / 256)⟩, ⟨address + 1, UInt8.ofNat (word.toNat % 256)⟩]
  | .store address bytes => row address bytes
  | .load r data => if data.length ≤ r.capacity then row r.start data else []
  | .clear r => (List.range r.capacity).map fun k => ⟨r.start + k, 0⟩

/-- The byte stored last under an address with the same lowest twelve bits. -/
def latest? (pokes : List Poke) (address : Nat) : Option UInt8 :=
  ((pokes.filter (·.address % size = address % size)).getLast?).map Poke.byte

/-- Memory behind a request, whether it went through or not. -/
def edited (m : Memory) (edit : Edit) : Memory :=
  (m.apply edit).1

def after (m : Memory) (edits : List Edit) : Memory :=
  edits.foldl edited m

def poke (m : Memory) (pokes : List Poke) : Memory :=
  pokes.foldl (fun m p => m.write p.address p.byte) m

/-- The byte that requests since power-on have left under an address. -/
def contents (edits : List Edit) (address : Nat) : UInt8 :=
  (latest? (edits.flatMap Edit.pokes) address).getD ((font[address % size]?).getD 0)

/-- Every look at memory is a look at the map. -/
structure Represents (m : Memory) (map : Nat → UInt8) : Prop where
  size : m.bytes.size = 4096
  read : ∀ a, m.read a = map a
  readWord : ∀ a, (m.readWord a).toNat = 256 * (map a).toNat + (map (a + 1)).toNat
  region : ∀ r, m.region r = (List.range r.capacity).map fun k => map (r.start + k)
  /-- A region is handed out as it lies in memory. -/
  slice : ∀ r, m.region r = (m.bytes.extract r.start r.stop).toList

/-! ## Requests as stores -/

theorem row_cons (address : Nat) (byte : UInt8) (rest : List UInt8) :
    row address (byte :: rest) = ⟨address, byte⟩ :: row (address + 1) rest := by
  simp [row, List.mapIdx_cons, Nat.add_comm, Nat.add_left_comm]

theorem store_eq_poke (m : Memory) (address : Nat) (bytes : List UInt8) :
    m.store address bytes = m.poke (row address bytes) := by
  induction bytes generalizing m address with
  | nil => rfl
  | cons byte rest ih =>
    rw [row_cons, store, ih]
    rfl

theorem row_replicate (address count : Nat) (byte : UInt8) :
    row address (List.replicate count byte) =
      (List.range count).map fun k => ⟨address + k, byte⟩ := by
  apply List.ext_getElem?
  intro k
  by_cases hk : k < count <;> simp [row, hk]

theorem edited_load_of_le (m : Memory) {r : Region} {data : List UInt8}
    (h : data.length ≤ r.capacity) : m.edited (.load r data) = m.store r.start data := by
  rw [edited, apply, load, if_pos h]

theorem edited_load_of_lt (m : Memory) {r : Region} {data : List UInt8}
    (h : r.capacity < data.length) : m.edited (.load r data) = m := by
  rw [edited, apply, load, if_neg (Nat.not_le_of_lt h)]

theorem edited_eq_poke (m : Memory) (edit : Edit) : m.edited edit = m.poke edit.pokes := by
  cases edit with
  | write address byte => rfl
  | writeWord address word =>
    have hlow : UInt8.ofNat (word.toNat % 256) = UInt8.ofNat word.toNat := by
      apply UInt8.toNat_inj.mp
      simp
    simp only [Edit.pokes, hlow]
    rfl
  | store address bytes => exact m.store_eq_poke address bytes
  | load r data =>
    rcases Nat.lt_or_ge r.capacity data.length with h | h
    · rw [edited_load_of_lt m h, Edit.pokes, if_neg (by omega)]
      rfl
    · rw [edited_load_of_le m h, Edit.pokes, if_pos h, store_eq_poke]
  | clear r => exact (m.store_eq_poke r.start _).trans (congrArg m.poke (row_replicate _ _ 0))

theorem after_eq_poke (m : Memory) (edits : List Edit) :
    m.after edits = m.poke (edits.flatMap Edit.pokes) := by
  induction edits generalizing m with
  | nil => rfl
  | cons edit rest ih =>
    rw [List.flatMap_cons, poke, List.foldl_append]
    show (m.edited edit).after rest = (m.poke edit.pokes).poke _
    rw [ih, edited_eq_poke]

/-! ## Reading -/

theorem latest?_cons (p : Poke) (rest : List Poke) (address : Nat) :
    latest? (p :: rest) address =
      if p.address % size = address % size then some ((latest? rest address).getD p.byte)
      else latest? rest address := by
  unfold latest?
  by_cases h : p.address % size = address % size
  · rw [List.filter_cons_of_pos (by simpa using h), if_pos h, List.getLast?_cons]
    cases (rest.filter (·.address % size = address % size)).getLast? <;> rfl
  · rw [List.filter_cons_of_neg (by simpa using h), if_neg h]

variable {m : Memory}

theorem Complete.poke (hm : m.Complete) (pokes : List Poke) : (m.poke pokes).Complete := by
  induction pokes generalizing m with
  | nil => exact hm
  | cons p rest ih => exact ih (hm.write p.address p.byte)

theorem Complete.after (hm : m.Complete) (edits : List Edit) : (m.after edits).Complete :=
  m.after_eq_poke edits ▸ hm.poke _

/-- The byte stored last counts, and what was there before if nothing was stored. -/
theorem read_poke (hm : m.Complete) (pokes : List Poke) (a : Nat) :
    (m.poke pokes).read a = (latest? pokes a).getD (m.read a) := by
  induction pokes generalizing m with
  | nil => rfl
  | cons p rest ih =>
    have hrest := ih (hm.write p.address p.byte)
    rw [read_write hm] at hrest
    rw [latest?_cons]
    show ((m.write p.address p.byte).poke rest).read a = _
    rw [hrest]
    split
    · rfl
    · rfl

/-- Power-on leaves the font at the bottom and zeros above it. -/
theorem read_initial (a : Nat) : initial.read a = (font[a % size]?).getD 0 := by
  have hzero : Complete ⟨Array.replicate size 0⟩ := Array.size_replicate
  rw [← read_mod, initial]
  by_cases h : a % size < font.length
  · have hread := read_store hzero 0 font (by decide) h
    rw [Nat.zero_add] at hread
    rw [hread, List.getElem?_eq_getElem h]
    rfl
  · have hmod : a % size < size := Nat.mod_lt a (by decide)
    rw [read_store_of_ne hzero, List.getElem?_eq_none (by omega)]
    · simp [read, hmod]
    · intro k hk
      have hlength : font.length ≤ size := by decide
      rw [Nat.zero_add, Nat.mod_eq_of_lt (by omega), Nat.mod_mod]
      omega

/-- A region that lies in memory is a slice of its bytes. -/
theorem region_eq_slice (hm : m.Complete) (r : Region) :
    m.region r = (m.bytes.extract r.start r.stop).toList := by
  have hsize : m.bytes.size = size := hm
  have hstop : r.stop ≤ m.bytes.size := hsize ▸ r.stop_le_size
  apply List.ext_getElem?
  intro k
  unfold region fetch Region.capacity
  by_cases hk : k < r.stop - r.start
  · have hmod : (r.start + k) % size = r.start + k := Nat.mod_eq_of_lt (by omega)
    have hplace : r.start + k < m.bytes.size := by omega
    simp [hk, read, hmod, hplace]
  · rw [List.getElem?_eq_none (by simp; omega), List.getElem?_eq_none (by simp; omega)]

/-- The high byte of a word goes to the address and the low one behind it, which is another
place even at the end of memory. -/
theorem readWord_writeWord (hm : m.Complete) {a b : Nat} (h : a % size = b % size)
    (word : UInt16) : (m.writeWord a word).readWord b = word := by
  have hword := word.toNat_lt
  have hnext : (a + 1) % size ≠ a % size := by
    simp only [size]
    omega
  apply UInt16.toNat_inj.mp
  rw [readWord_congr _ h.symm, toNat_readWord, writeWord, read_write (hm.write a _),
    read_write (hm.write a _), read_write hm, if_neg hnext, if_pos rfl, if_pos rfl,
    UInt8.toNat_ofNat', UInt8.toNat_ofNat']
  omega

/-- Bytes stored in one row that ends within memory. -/
theorem read_store_of_le (hm : m.Complete) {address : Nat} {bytes : List UInt8}
    (h : address + bytes.length ≤ size) (a : Nat) :
    (m.store address bytes).read a =
      if address ≤ a % size then (bytes[a % size - address]?).getD (m.read a) else m.read a := by
  by_cases hin : address ≤ a % size ∧ a % size < address + bytes.length
  · have hk : a % size - address < bytes.length := by omega
    have hread := read_store hm address bytes (by omega) hk
    rw [show address + (a % size - address) = a % size by omega, read_mod] at hread
    rw [hread, if_pos hin.1, List.getElem?_eq_getElem hk]
    rfl
  · rw [read_store_of_ne hm]
    · split
      · rw [List.getElem?_eq_none (by omega)]
        rfl
      · rfl
    · intro k hk
      rw [Nat.mod_eq_of_lt (by omega)]
      omega

/-- A load that fits stores its data from the start of the region and nothing behind it. -/
theorem read_edited_load (hm : m.Complete) {r : Region} {data : List UInt8}
    (h : data.length ≤ r.capacity) (a : Nat) :
    (m.edited (.load r data)).read a =
      if r.start ≤ a % size then (data[a % size - r.start]?).getD (m.read a) else m.read a := by
  have hstop := r.start_add_capacity
  have hsize := r.stop_le_size
  rw [m.edited_load_of_le h]
  exact read_store_of_le hm (by omega) a

/-- A clear leaves zeros in the region and everything else as it was. -/
theorem read_edited_clear (hm : m.Complete) (r : Region) (a : Nat) :
    (m.edited (.clear r)).read a =
      if r.start ≤ a % size ∧ a % size < r.stop then 0 else m.read a := by
  have hstop := r.start_add_capacity
  have hsize := r.stop_le_size
  show (m.store r.start (List.replicate r.capacity 0)).read a = _
  rw [read_store_of_le hm (by rw [List.length_replicate]; omega), List.getElem?_replicate]
  by_cases hlow : r.start ≤ a % size
  · rw [if_pos hlow]
    by_cases hhigh : a % size < r.stop
    · have hk : a % size - r.start < r.capacity := by omega
      rw [if_pos hk, if_pos ⟨hlow, hhigh⟩]
      rfl
    · have hk : ¬a % size - r.start < r.capacity := by omega
      rw [if_neg hk, if_neg fun h => hhigh h.2]
      rfl
  · rw [if_neg hlow, if_neg fun h => hlow h.1]

/-- Only a load can be refused, and exactly if its data is longer than the region. -/
theorem apply_eq_error_iff (m : Memory) (edit : Edit) (fault : Fault) :
    (m.apply edit).2 = .error fault ↔
      ∃ r data, edit = .load r data ∧ r.capacity < data.length ∧
        fault = .programTooLarge data.length r.capacity := by
  cases edit with
  | load r data =>
    show (m.load r data).2 = _ ↔ _
    obtain ⟨hfits, h⟩ | ⟨hlong, h⟩ := m.load_cases r data
    · rw [h]
      refine iff_of_false (fun hok => by cases hok) ?_
      rintro ⟨_, _, hedit, hlong, -⟩
      cases hedit
      omega
    · rw [h]
      constructor
      · intro hfault
        exact ⟨r, data, rfl, hlong, (Except.error.inj hfault).symm⟩
      · rintro ⟨_, _, hedit, -, rfl⟩
        cases hedit
        rfl
  | _ => simp [apply]

theorem Complete.represents (hm : m.Complete) : Represents m m.read where
  size := hm
  read _ := rfl
  readWord := m.toNat_readWord
  region _ := rfl
  slice := region_eq_slice hm

/-- **Memory is a total map on twelve-bit addresses.** Behind any requests, whether refused or
not, what is read under an address is the byte stored last under one with the same lowest twelve
bits, or the font or zero if there is none; words and regions are read from the same map. Only
data longer than its region is refused, and then nothing is stored. -/
theorem represents_contents (edits : List Edit) :
    let m := initial.after edits
    Represents m (contents edits) ∧
    (∀ edit fault, (m.apply edit).2 = .error fault ↔
      ∃ r data, edit = .load r data ∧ r.capacity < data.length ∧
        fault = .programTooLarge data.length r.capacity) ∧
    (∀ r data, r.capacity < data.length → m.edited (.load r data) = m) ∧
    (∀ r data a, data.length ≤ r.capacity → (m.edited (.load r data)).read a =
      if r.start ≤ a % 4096 then (data[a % 4096 - r.start]?).getD (m.read a) else m.read a) ∧
    (∀ r a, (m.edited (.clear r)).read a =
      if r.start ≤ a % 4096 ∧ a % 4096 < r.stop then 0 else m.read a) ∧
    ∀ a b word, a % 4096 = b % 4096 → (m.edited (.writeWord a word)).readWord b = word := by
  intro m
  have hm : m.Complete := complete_initial.after edits
  have hread : m.read = contents edits := by
    funext a
    show (initial.after edits).read a = _
    rw [after_eq_poke, read_poke complete_initial, read_initial]
    rfl
  refine ⟨hread ▸ hm.represents, m.apply_eq_error_iff, ?_, ?_, ?_, ?_⟩
  · intro r data hlong
    exact m.edited_load_of_lt hlong
  · intro r data a hfits
    exact read_edited_load hm hfits a
  · intro r a
    exact read_edited_clear hm r a
  · intro a b word h
    exact readWord_writeWord hm h word

/-- The font is overwritten by a word that starts in the last place of memory and by a byte
under an address past its end; a load one byte too long leaves no trace. -/
theorem represents_contents_of_straddling_word :
    let edits : List Edit :=
      [.write 0x1003 0xab, .writeWord 0xfff 0x1234, .load .charset (List.replicate 81 7)]
    let m := initial.after edits
    m.read 0 = 0x34 ∧ m.read 3 = 0xab ∧ m.read 4 = 0xf0 ∧ m.read 0x4fff = 0x12 ∧
    Region.charset.capacity < (List.replicate 82 (7 : UInt8)).length ∧
    m.edited (.load .charset (List.replicate 82 7)) = m ∧
    [1, 2].length ≤ Region.program.capacity ∧
    (m.edited (.load .program [1, 2])).read 0x201 = 2 ∧
    0xfff % 4096 = 0x1fff % 4096 ∧
    (m.edited (.writeWord 0xfff 0xbeef)).readWord 0x1fff = 0xbeef := by
  intro edits m
  obtain ⟨hmap, -, hkept, hload, -, hword⟩ := represents_contents edits
  refine ⟨?_, ?_, ?_, ?_, by decide, hkept _ _ (by decide), by decide, ?_, rfl, hword _ _ _ rfl⟩
  · exact (hmap.read 0).trans (by decide)
  · exact (hmap.read 3).trans (by decide)
  · exact (hmap.read 4).trans (by decide)
  · exact (hmap.read 0x4fff).trans (by decide)
  · exact hload .program [1, 2] 0x201 (by decide)

end Chip8.Memory
