import Chip8.Fault

/-!
# Memory is a total map on twelve-bit addresses

The machine has 4096 bytes. An address of any size names the byte at its lowest
twelve bits, so no access is out of range, and a word whose high byte is the
last of memory has its low byte at the very first.

The font lies at the bottom, where the machine's own code once lay, and programs
start at `0x200`. Only loading a whole region can fail, and it fails before it
has stored anything.
-/

namespace Chip8

/-- The bytes of memory. The machine always has `Memory.size` of them. -/
structure Memory where
  bytes : Array UInt8
  deriving DecidableEq

namespace Memory

def size : Nat := 4096

/-- The number of bytes that draw one hexadecimal digit. -/
def glyphSize : Nat := 5

/-- Where programs are loaded and execution begins. -/
def programStart : UInt16 := 0x200

/-- The hexadecimal digits `0` to `F`, five rows each. -/
def font : List UInt8 :=
  [0xf0, 0x90, 0x90, 0x90, 0xf0,
   0x20, 0x60, 0x20, 0x20, 0x70,
   0xf0, 0x10, 0xf0, 0x80, 0xf0,
   0xf0, 0x10, 0xf0, 0x10, 0xf0,
   0x90, 0x90, 0xf0, 0x10, 0x10,
   0xf0, 0x80, 0xf0, 0x10, 0xf0,
   0xf0, 0x80, 0xf0, 0x90, 0xf0,
   0xf0, 0x10, 0x20, 0x40, 0x40,
   0xf0, 0x90, 0xf0, 0x90, 0xf0,
   0xf0, 0x90, 0xf0, 0x10, 0xf0,
   0xf0, 0x90, 0xf0, 0x90, 0x90,
   0xe0, 0x90, 0xe0, 0x90, 0xe0,
   0xf0, 0x80, 0x80, 0x80, 0xf0,
   0xe0, 0x90, 0x90, 0x90, 0xe0,
   0xf0, 0x80, 0xf0, 0x80, 0xf0,
   0xf0, 0x80, 0xf0, 0x80, 0x80]

/-- Memory holds a byte for every address. -/
def Complete (m : Memory) : Prop :=
  m.bytes.size = size

instance (m : Memory) : Decidable m.Complete :=
  inferInstanceAs (Decidable (_ = _))

/-- The byte at an address, of which only the lowest twelve bits count. -/
def read (m : Memory) (address : Nat) : UInt8 :=
  m.bytes.getD (address % size) 0

/-- Stores a byte at an address, of which only the lowest twelve bits count. -/
def write (m : Memory) (address : Nat) (byte : UInt8) : Memory :=
  ⟨m.bytes.setIfInBounds (address % size) byte⟩

/-- The word at an address, high byte first. -/
def readWord (m : Memory) (address : Nat) : UInt16 :=
  UInt16.ofNat (256 * (m.read address).toNat + (m.read (address + 1)).toNat)

/-- Stores a word at an address, high byte first. -/
def writeWord (m : Memory) (address : Nat) (word : UInt16) : Memory :=
  (m.write address (UInt8.ofNat (word.toNat / 256))).write (address + 1) (UInt8.ofNat word.toNat)

/-- Stores bytes at consecutive addresses. -/
def store (m : Memory) : Nat → List UInt8 → Memory
  | _, [] => m
  | address, byte :: rest => (m.write address byte).store (address + 1) rest

/-- The bytes at `count` consecutive addresses. -/
def fetch (m : Memory) (address count : Nat) : List UInt8 :=
  (List.range count).map fun k => m.read (address + k)

/-- A named stretch of memory. -/
inductive Region
  | charset
  | program
  deriving DecidableEq, Repr

def Region.start : Region → Nat
  | .charset => 0
  | .program => programStart.toNat

def Region.stop : Region → Nat
  | .charset => font.length
  | .program => size

def Region.capacity (r : Region) : Nat :=
  r.stop - r.start

/-- The regions in the order of their addresses. -/
def Region.compare : Region → Region → Ordering
  | .charset, .charset | .program, .program => .eq
  | .charset, .program => .lt
  | .program, .charset => .gt

def region (m : Memory) (r : Region) : List UInt8 :=
  m.fetch r.start r.capacity

/-- Stores data at the start of a region, or nothing at all if it does not fit. -/
def load (m : Memory) (r : Region) (data : List UInt8) : Memory × Except Fault Unit :=
  if data.length ≤ r.capacity then (m.store r.start data, .ok ())
  else (m, .error (.programTooLarge data.length r.capacity))

/-- Stores zero in every byte of a region. -/
def clear (m : Memory) (r : Region) : Memory :=
  m.store r.start (List.replicate r.capacity 0)

/-- A request that may change memory. -/
inductive Edit
  | write (address : Nat) (byte : UInt8)
  | writeWord (address : Nat) (word : UInt16)
  /-- Store bytes at consecutive addresses. -/
  | store (address : Nat) (bytes : List UInt8)
  | load (region : Region) (data : List UInt8)
  | clear (region : Region)
  deriving DecidableEq, Repr

/-- Carries out a request, which is refused only if data does not fit its region. -/
def apply (m : Memory) : Edit → Memory × Except Fault Unit
  | .write address byte => (m.write address byte, .ok ())
  | .writeWord address word => (m.writeWord address word, .ok ())
  | .store address bytes => (m.store address bytes, .ok ())
  | .load region data => m.load region data
  | .clear region => (m.clear region, .ok ())

/-- Memory at power-on: the font, and zero everywhere else. -/
def initial : Memory :=
  store ⟨Array.replicate size 0⟩ 0 font

theorem Region.start_add_capacity (r : Region) : r.start + r.capacity = r.stop := by
  cases r <;> rfl

theorem Region.stop_le_size (r : Region) : r.stop ≤ size := by
  cases r <;> decide

theorem read_congr (m : Memory) {a b : Nat} (h : a % size = b % size) : m.read a = m.read b := by
  simp only [read, h]

theorem read_mod (m : Memory) (a : Nat) : m.read (a % size) = m.read a :=
  m.read_congr (Nat.mod_mod a size)

theorem write_congr (m : Memory) {a b : Nat} (h : a % size = b % size) (byte : UInt8) :
    m.write a byte = m.write b byte := by
  simp only [write, h]

theorem add_mod_size {a b : Nat} (h : a % size = b % size) (k : Nat) :
    (a + k) % size = (b + k) % size := by
  rw [Nat.add_mod, h, ← Nat.add_mod]

theorem readWord_congr (m : Memory) {a b : Nat} (h : a % size = b % size) :
    m.readWord a = m.readWord b := by
  simp only [readWord, m.read_congr h, m.read_congr (add_mod_size h 1)]

theorem length_fetch (m : Memory) (address count : Nat) :
    (m.fetch address count).length = count := by
  rw [fetch, List.length_map, List.length_range]

theorem fetch_congr (m : Memory) {a b : Nat} (h : a % size = b % size) (count : Nat) :
    m.fetch a count = m.fetch b count := by
  simp only [fetch]
  congr 1
  funext k
  exact m.read_congr (add_mod_size h k)

theorem store_congr (m : Memory) {a b : Nat} (h : a % size = b % size) (bytes : List UInt8) :
    m.store a bytes = m.store b bytes := by
  induction bytes generalizing m a b with
  | nil => rfl
  | cons byte rest ih =>
    rw [store, store, m.write_congr h byte]
    exact ih _ (add_mod_size h 1)

theorem Complete.lt {m : Memory} (hm : m.Complete) (a : Nat) : a % size < m.bytes.size := by
  rw [hm]
  exact Nat.mod_lt _ (by decide)

/-- A byte that was written is read back at every address that names its place. -/
theorem read_write {m : Memory} (hm : m.Complete) (a b : Nat) (byte : UInt8) :
    (m.write a byte).read b = if a % size = b % size then byte else m.read b := by
  simp only [read, write, Array.getD_eq_getD_getElem?, Array.getElem?_setIfInBounds]
  by_cases h : a % size = b % size
  · simp [h, hm.lt b]
  · simp [h]

theorem Complete.write {m : Memory} (hm : m.Complete) (a : Nat) (byte : UInt8) :
    (m.write a byte).Complete := by
  simpa [Complete, Memory.write] using hm

theorem Complete.writeWord {m : Memory} (hm : m.Complete) (a : Nat) (word : UInt16) :
    (m.writeWord a word).Complete :=
  (hm.write _ _).write _ _

theorem Complete.store {m : Memory} (hm : m.Complete) (a : Nat) (bytes : List UInt8) :
    (m.store a bytes).Complete := by
  induction bytes generalizing m a with
  | nil => exact hm
  | cons byte rest ih => exact ih (hm.write a byte) (a + 1)

theorem complete_initial : initial.Complete :=
  Complete.store (by simp [Complete]) 0 font

/-- A load stores its data if it fits, and else it is refused and stores nothing. -/
theorem load_cases (m : Memory) (r : Region) (data : List UInt8) :
    (data.length ≤ r.capacity ∧ m.load r data = (m.store r.start data, .ok ())) ∨
    (r.capacity < data.length ∧
      m.load r data = (m, .error (.programTooLarge data.length r.capacity))) := by
  obtain hfits | hlong := Nat.lt_or_ge r.capacity data.length
  · exact Or.inr ⟨hfits, if_neg (Nat.not_le_of_lt hfits)⟩
  · exact Or.inl ⟨hlong, if_pos hlong⟩

theorem Complete.load {m : Memory} (hm : m.Complete) (r : Region) (data : List UInt8) :
    (m.load r data).1.Complete := by
  obtain ⟨-, h⟩ | ⟨-, h⟩ := m.load_cases r data
  · rw [h]
    exact hm.store _ _
  · rw [h]
    exact hm

theorem Complete.apply {m : Memory} (hm : m.Complete) (edit : Edit) :
    (m.apply edit).1.Complete := by
  cases edit with
  | write a byte => exact hm.write a byte
  | writeWord a word => exact hm.writeWord a word
  | store a bytes => exact hm.store a bytes
  | load r data => exact hm.load r data
  | clear r => exact hm.store _ _

/-- Storing bytes changes no address that names none of their places. -/
theorem read_store_of_ne {m : Memory} (hm : m.Complete) (a b : Nat) (bytes : List UInt8)
    (h : ∀ k < bytes.length, (a + k) % size ≠ b % size) :
    (m.store a bytes).read b = m.read b := by
  induction bytes generalizing m a with
  | nil => rfl
  | cons byte rest ih =>
    have h0 : a % size ≠ b % size := h 0 (by simp)
    rw [store, ih (hm.write a byte) (a + 1), read_write hm, if_neg h0]
    intro k hk
    rw [Nat.add_assoc, Nat.add_comm 1 k]
    exact h (k + 1) (by simpa using hk)

/-- Bytes no more than memory holds are read back where they were stored. -/
theorem read_store {m : Memory} (hm : m.Complete) (a : Nat) (bytes : List UInt8)
    (h : bytes.length ≤ size) {k : Nat} (hk : k < bytes.length) :
    (m.store a bytes).read (a + k) = bytes[k] := by
  induction bytes generalizing m a k with
  | nil => simp at hk
  | cons byte rest ih =>
    simp only [List.length_cons] at h hk
    cases k with
    | zero =>
      rw [store, read_store_of_ne (hm.write a byte), read_write hm]
      · simp
      · intro j hj
        simp only [size] at h ⊢
        omega
    | succ k =>
      have hk' : k < rest.length := by omega
      rw [store, show a + (k + 1) = a + 1 + k by omega, ih (hm.write a byte) (a + 1) (by omega) hk']
      simp

theorem toNat_readWord (m : Memory) (a : Nat) :
    (m.readWord a).toNat = 256 * (m.read a).toNat + (m.read (a + 1)).toNat := by
  have high := UInt8.toNat_lt (m.read a)
  have low := UInt8.toNat_lt (m.read (a + 1))
  simp only [readWord, UInt16.toNat_ofNat']
  omega

/-- The word at an address where bytes were stored consists of the first two of them. -/
theorem readWord_store {m : Memory} (hm : m.Complete) (a : Nat) (high low : UInt8)
    (rest : List UInt8) (h : rest.length + 2 ≤ size) :
    (m.store a (high :: low :: rest)).readWord a
      = UInt16.ofNat (256 * high.toNat + low.toNat) := by
  have hh := read_store hm a (high :: low :: rest) h (k := 0) (by simp)
  have hl := read_store hm a (high :: low :: rest) h (k := 1) (by simp)
  rw [readWord, hl]
  simp only [Nat.add_zero, List.getElem_cons_zero, List.getElem_cons_succ] at hh ⊢
  rw [hh]

end Memory

end Chip8
