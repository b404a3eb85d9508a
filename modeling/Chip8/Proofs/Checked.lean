import Chip8.Proofs.Execution
import Chip8.Screen

/-!
# Accesses that are checked

The parts of the machine are total: an index past the end reads as zero or changes
nothing, and sums are taken without a bound. Here every operation on a part is written
once more so that it gives up at an index that is out of range, at a sum or a product
that does not fit its word, and at a shift by the width of a byte or more. Beside each
stands what it takes to be the operation that the machine uses: the bytes that it reaches
for have to be there, as they all are in a complete part, and the addresses that are asked
for have to be machine words.
-/

namespace Chip8

/-- The number, unless it reaches the limit. -/
def below? (limit n : Nat) : Option Nat :=
  if n < limit then some n else none

theorem below?_of_lt {limit n : Nat} (h : n < limit) : below? limit n = some n :=
  if_pos h

/-- Where an address or a coordinate is counted up within a block, it stays a machine word. -/
theorem add_le_word {n k : Nat} (hn : n < UInt16.size) (hk : k ≤ 16) : n + k ≤ UInt64.size := by
  simp only [UInt16.size, UInt64.size] at hn ⊢
  omega

section Lists

variable {α β : Type}

theorem mapM_eq_some {f? : α → Option β} {f : α → β} {l : List α}
    (h : ∀ a ∈ l, f? a = some (f a)) : l.mapM f? = some (l.map f) := by
  induction l with
  | nil => rfl
  | cons a rest ih =>
    have ha := h a List.mem_cons_self
    have hrest := ih fun b hb => h b (List.mem_cons_of_mem a hb)
    simp [ha, hrest]

theorem foldlM_eq_some {P : β → Prop} {f? : β → α → Option β} {f : β → α → β} {l : List α}
    (h : ∀ a ∈ l, ∀ b, P b → f? b a = some (f b a) ∧ P (f b a)) {b : β} (hb : P b) :
    l.foldlM f? b = some (l.foldl f b) := by
  induction l generalizing b with
  | nil => rfl
  | cons a rest ih =>
    obtain ⟨ha, hp⟩ := h a List.mem_cons_self b hb
    rw [List.foldlM_cons, ha, List.foldl_cons]
    exact ih (fun c hc => h c (List.mem_cons_of_mem a hc)) hp

/-- A run of requests goes through if each of them does, as long as what they leave behind
makes no difference to that. -/
theorem isSome_foldlM_iff {I : α → Prop} {P : β → Prop} {f? : α → β → Option α}
    (hrun : ∀ a, I a → ∀ b, (f? a b).isSome ↔ P b)
    (hkeep : ∀ a, I a → ∀ b, ∀ a' ∈ f? a b, I a') (l : List β) {a : α} (ha : I a) :
    (l.foldlM f? a).isSome ↔ ∀ b ∈ l, P b := by
  induction l generalizing a with
  | nil => simp
  | cons b rest ih =>
    have hb := hrun a ha b
    rw [List.foldlM_cons, List.forall_mem_cons]
    cases h : f? a b with
    | none =>
      have hnot : ¬P b := fun hp => by simpa [h] using hb.mpr hp
      simp [hnot]
    | some a' =>
      have hp : P b := hb.mp (by rw [h]; rfl)
      have hrest := ih (hkeep a ha b a' h)
      simp [hp, hrest]

end Lists

/-! ## Memory -/

namespace Memory

def read? (m : Memory) (address : Nat) : Option UInt8 :=
  m.bytes[address % size]?

def write? (m : Memory) (address : Nat) (byte : UInt8) : Option Memory := do
  let place ← below? m.bytes.size (address % size)
  return ⟨m.bytes.setIfInBounds place byte⟩

def readWord? (m : Memory) (address : Nat) : Option UInt16 := do
  let high ← m.read? address
  let next ← below? UInt64.size (address + 1)
  let low ← m.read? next
  return UInt16.ofNat (256 * high.toNat + low.toNat)

def writeWord? (m : Memory) (address : Nat) (word : UInt16) : Option Memory := do
  let m ← m.write? address (UInt8.ofNat (word.toNat / 256))
  let next ← below? UInt64.size (address + 1)
  m.write? next (UInt8.ofNat word.toNat)

def store? (m : Memory) : Nat → List UInt8 → Option Memory
  | _, [] => some m
  | address, byte :: rest => do
    let place ← below? UInt64.size address
    let m ← m.write? place byte
    m.store? (address + 1) rest

def fetch? (m : Memory) (address count : Nat) : Option (List UInt8) :=
  (List.range count).mapM fun k => do
    let place ← below? UInt64.size (address + k)
    m.read? place

/-- The length of a region that lies in memory as a whole. -/
def extent? (m : Memory) (r : Region) : Option Nat :=
  if r.start ≤ r.stop ∧ r.stop ≤ m.bytes.size then some (r.stop - r.start) else none

def region? (m : Memory) (r : Region) : Option (List UInt8) := do
  let capacity ← m.extent? r
  m.fetch? r.start capacity

def load? (m : Memory) (r : Region) (data : List UInt8) :
    Option (Memory × Except Fault Unit) := do
  let capacity ← m.extent? r
  if data.length ≤ capacity then
    let m ← m.store? r.start data
    return (m, .ok ())
  else return (m, .error (.programTooLarge data.length capacity))

def clear? (m : Memory) (r : Region) : Option Memory := do
  let capacity ← m.extent? r
  m.store? r.start (List.replicate capacity 0)

def edit? (m : Memory) : Edit → Option (Memory × Except Fault Unit)
  | .write address byte => do
    let m ← m.write? address byte
    return (m, .ok ())
  | .writeWord address word => do
    let m ← m.writeWord? address word
    return (m, .ok ())
  | .store address bytes => do
    let m ← m.store? address bytes
    return (m, .ok ())
  | .load region data => m.load? region data
  | .clear region => do
    let m ← m.clear? region
    return (m, .ok ())

/-- Every address of a request is a machine word, and not the last one. -/
def Edit.Fits : Edit → Prop
  | .write address _ => address + 1 < UInt64.size
  | .writeWord address _ => address + 1 < UInt64.size
  | .store address bytes => address + bytes.length < UInt64.size
  | .load _ _ => True
  | .clear _ => True

section Reach

variable (m : Memory)

theorem read?_eq_if (address : Nat) :
    m.read? address = if address % size < m.bytes.size then some (m.read address) else none := by
  split
  · rename_i h
    simp [read?, read, h]
  · rename_i h
    simpa [read?] using h

theorem write?_eq_if (address : Nat) (byte : UInt8) :
    m.write? address byte =
      if address % size < m.bytes.size then some (m.write address byte) else none := by
  simp only [write?, below?]
  split <;> rfl

theorem size_write (address : Nat) (byte : UInt8) :
    (m.write address byte).bytes.size = m.bytes.size :=
  Array.size_setIfInBounds

theorem size_store (address : Nat) (bytes : List UInt8) :
    (m.store address bytes).bytes.size = m.bytes.size := by
  induction bytes generalizing m address with
  | nil => rfl
  | cons byte rest ih => exact (ih _ _).trans (m.size_write address byte)

theorem readWord?_eq_if (address : Nat) :
    m.readWord? address =
      if address + 1 < UInt64.size ∧
          max (address % size) ((address + 1) % size) + 1 ≤ m.bytes.size then
        some (m.readWord address) else none := by
  simp only [readWord?, read?_eq_if, below?, Nat.add_one_le_iff, Nat.max_lt]
  by_cases hnext : address + 1 < UInt64.size <;>
    by_cases hhigh : address % size < m.bytes.size <;>
      by_cases hlow : (address + 1) % size < m.bytes.size <;>
        simp [hnext, hhigh, hlow, readWord]

theorem writeWord?_eq_if (address : Nat) (word : UInt16) :
    m.writeWord? address word =
      if address + 1 < UInt64.size ∧
          max (address % size) ((address + 1) % size) + 1 ≤ m.bytes.size then
        some (m.writeWord address word) else none := by
  simp only [writeWord?, write?_eq_if, below?, Nat.add_one_le_iff, Nat.max_lt]
  by_cases hnext : address + 1 < UInt64.size <;>
    by_cases hhigh : address % size < m.bytes.size <;>
      by_cases hlow : (address + 1) % size < m.bytes.size <;>
        simp [hnext, hhigh, hlow, writeWord, size_write]

/-- Bytes that end within memory are stored in range. -/
theorem store?_of_le {address : Nat} {bytes : List UInt8}
    (hsize : address + bytes.length ≤ size) (h : address + bytes.length ≤ m.bytes.size) :
    m.store? address bytes = some (m.store address bytes) := by
  induction bytes generalizing m address with
  | nil => rfl
  | cons byte rest ih =>
    rw [List.length_cons] at hsize h
    have hmod : address % size = address := Nat.mod_eq_of_lt (by omega)
    have hplace : address < UInt64.size :=
      Nat.lt_of_lt_of_le (by omega : address < size) (by decide)
    have hwritten := m.size_write address byte
    have hrest : (m.write address byte).store? (address + 1) rest =
        some ((m.write address byte).store (address + 1) rest) :=
      ih _ (by omega) (by omega)
    simp only [store?, below?_of_lt hplace, write?_eq_if, hmod,
      if_pos (show address < m.bytes.size by omega), Option.bind_eq_bind, Option.bind_some]
    exact hrest

theorem fetch?_of_le {address count : Nat} (hsize : address + count ≤ size)
    (h : address + count ≤ m.bytes.size) :
    m.fetch? address count = some (m.fetch address count) := by
  refine mapM_eq_some fun k hk => ?_
  have hlt := List.mem_range.mp hk
  have hmod : (address + k) % size = address + k := Nat.mod_eq_of_lt (by omega)
  have hplace : address + k < UInt64.size :=
    Nat.lt_of_lt_of_le (by omega : address + k < size) (by decide)
  simp [below?_of_lt hplace, read?_eq_if, hmod, show address + k < m.bytes.size by omega]

theorem extent?_eq_if (r : Region) :
    m.extent? r = if r.stop ≤ m.bytes.size then some r.capacity else none := by
  have hr : r.start ≤ r.stop := by cases r <;> decide
  simp [extent?, hr, Region.capacity]

theorem region?_eq_if (r : Region) :
    m.region? r = if r.stop ≤ m.bytes.size then some (m.region r) else none := by
  rw [region?, extent?_eq_if]
  split
  · rename_i h
    rw [← r.start_add_capacity] at h
    exact m.fetch?_of_le (r.start_add_capacity ▸ r.stop_le_size) h
  · rfl

theorem load?_eq_if (r : Region) (data : List UInt8) :
    m.load? r data = if r.stop ≤ m.bytes.size then some (m.load r data) else none := by
  rw [load?, extent?_eq_if]
  split
  · rename_i h
    have hstop := r.start_add_capacity
    have hsize := r.stop_le_size
    simp only [load, Option.bind_eq_bind, Option.bind_some]
    split
    · rw [m.store?_of_le (by omega) (by omega)]
      rfl
    · rfl
  · rfl

theorem clear?_eq_if (r : Region) :
    m.clear? r = if r.stop ≤ m.bytes.size then some (m.clear r) else none := by
  rw [clear?, extent?_eq_if]
  split
  · rename_i h
    have hstop := r.start_add_capacity
    have hsize := r.stop_le_size
    have hlength : (List.replicate r.capacity (0 : UInt8)).length = r.capacity :=
      List.length_replicate
    exact m.store?_of_le (by omega) (by omega)
  · rfl

end Reach

namespace Complete

variable {m : Memory}

theorem read?_eq (hm : m.Complete) (address : Nat) :
    m.read? address = some (m.read address) := by
  rw [read?_eq_if, if_pos (hm.lt address)]

theorem write?_eq (hm : m.Complete) (address : Nat) (byte : UInt8) :
    m.write? address byte = some (m.write address byte) := by
  rw [write?_eq_if, if_pos (hm.lt address)]

theorem readWord?_eq (hm : m.Complete) {address : Nat} (h : address + 1 < UInt64.size) :
    m.readWord? address = some (m.readWord address) := by
  rw [readWord?_eq_if, if_pos ⟨h, Nat.max_lt.mpr ⟨hm.lt _, hm.lt _⟩⟩]

theorem writeWord?_eq (hm : m.Complete) {address : Nat} (h : address + 1 < UInt64.size)
    (word : UInt16) : m.writeWord? address word = some (m.writeWord address word) := by
  rw [writeWord?_eq_if, if_pos ⟨h, Nat.max_lt.mpr ⟨hm.lt _, hm.lt _⟩⟩]

theorem store?_eq (hm : m.Complete) {address : Nat} {bytes : List UInt8}
    (h : address + bytes.length ≤ UInt64.size) :
    m.store? address bytes = some (m.store address bytes) := by
  induction bytes generalizing m address with
  | nil => rfl
  | cons byte rest ih =>
    rw [List.length_cons] at h
    have hplace : address < UInt64.size := by omega
    simp only [store?, below?_of_lt hplace, hm.write?_eq, Option.bind_eq_bind, Option.bind_some]
    exact ih (hm.write address byte) (by omega)

theorem fetch?_eq (hm : m.Complete) {address count : Nat} (h : address + count ≤ UInt64.size) :
    m.fetch? address count = some (m.fetch address count) := by
  refine mapM_eq_some fun k hk => ?_
  have hplace : address + k < UInt64.size := by
    have hlt := List.mem_range.mp hk
    omega
  simp only [below?_of_lt hplace, Option.bind_eq_bind, Option.bind_some]
  exact hm.read?_eq _

theorem stop_le (hm : m.Complete) (r : Region) : r.stop ≤ m.bytes.size :=
  hm ▸ r.stop_le_size

theorem load?_eq (hm : m.Complete) (r : Region) (data : List UInt8) :
    m.load? r data = some (m.load r data) := by
  rw [load?_eq_if, if_pos (hm.stop_le r)]

theorem clear?_eq (hm : m.Complete) (r : Region) : m.clear? r = some (m.clear r) := by
  rw [clear?_eq_if, if_pos (hm.stop_le r)]

theorem edit?_eq (hm : m.Complete) {edit : Edit} (h : edit.Fits) :
    m.edit? edit = some (m.apply edit) := by
  cases edit with
  | write address byte =>
    rw [edit?, hm.write?_eq]
    rfl
  | writeWord address word =>
    rw [edit?, hm.writeWord?_eq h]
    rfl
  | store address bytes =>
    rw [edit?, hm.store?_eq (Nat.le_of_lt h)]
    rfl
  | load region data => exact hm.load?_eq region data
  | clear region =>
    rw [edit?, hm.clear?_eq]
    rfl

end Complete

end Memory

/-! ## Stack and registers -/

namespace CallStack

def push? (s : CallStack) (address : UInt16) : Option (CallStack × Except Fault Unit) :=
  if s.depth < capacity then do
    let place ← below? s.slots.size s.depth
    let depth ← below? UInt64.size (s.depth + 1)
    return (⟨s.slots.setIfInBounds place address, depth⟩, .ok ())
  else return (s, .error .stackOverflow)

def pop? (s : CallStack) : Option (CallStack × Except Fault UInt16) :=
  match s.depth with
  | 0 => return (s, .error .stackUnderflow)
  | depth + 1 => do
    let address ← s.slots[depth]?
    return (⟨s.slots, depth⟩, .ok address)

/-- The live slots, if there are that many slots. -/
def live? (s : CallStack) : Option (List UInt16) :=
  if s.depth ≤ s.slots.size then some (s.slots.toList.take s.depth) else none

theorem push?_eq (s : CallStack) (address : UInt16) :
    s.push? address = some (s.push address) := by
  by_cases h : s.depth < capacity
  · have hplace : s.depth < s.slots.size := h
    have hdepth : s.depth + 1 < UInt64.size :=
      Nat.lt_trans (Nat.succ_lt_succ h) (by decide)
    rw [push?, push, if_pos h, if_pos h, below?_of_lt hplace, below?_of_lt hdepth]
    rfl
  · rw [push?, push, if_neg h, if_neg h]
    rfl

theorem Sound.pop?_eq {s : CallStack} (hs : s.Sound) : s.pop? = some s.pop := by
  cases h : s.depth with
  | zero =>
    simp only [pop?, CallStack.pop, h]
    rfl
  | succ depth =>
    have hd : depth < 16 := by
      simp only [Sound, capacity] at hs
      omega
    simp [pop?, CallStack.pop, h, hd]

theorem Sound.live?_eq {s : CallStack} (hs : s.Sound) : s.live? = some s.live :=
  if_pos hs

end CallStack

namespace Registers

def read? (v : Registers) (x : Nat) : Option UInt8 :=
  v[x]?

def write? (v : Registers) (x : Nat) (byte : UInt8) : Option Registers := do
  let place ← below? v.size x
  return v.setIfInBounds place byte

def setFlag? (v : Registers) : Option UInt8 → Option Registers
  | none => some v
  | some byte => v.write? flag byte

def combine? (v : Registers) (operation : Alu) (x y : Nat) : Option Registers := do
  let vx ← v.read? x
  let vy ← v.read? y
  let v ← v.setFlag? (operation.flag? vx vy)
  v.write? x (operation.result vx vy)

def writeFrom? (v : Registers) : Nat → List UInt8 → Option Registers
  | _, [] => some v
  | x, byte :: rest => do
    let v ← v.write? x byte
    v.writeFrom? (x + 1) rest

theorem read?_eq (v : Registers) {x : Nat} (hx : x < 16) : v.read? x = some (v.read x) := by
  simp [read?, read, hx]

theorem write?_eq (v : Registers) {x : Nat} (hx : x < 16) (byte : UInt8) :
    v.write? x byte = some (v.write x byte) := by
  simp only [write?, below?_of_lt hx]
  rfl

theorem setFlag?_eq (v : Registers) (byte? : Option UInt8) :
    v.setFlag? byte? = some (v.setFlag byte?) := by
  cases byte? with
  | none => rfl
  | some byte => exact v.write?_eq (by decide) byte

theorem mapM_read?_eq (v : Registers) {count : Nat} (h : count ≤ 16) :
    (List.range count).mapM v.read? = some ((List.range count).map v.read) := by
  refine mapM_eq_some fun x hx => v.read?_eq ?_
  exact Nat.lt_of_lt_of_le (List.mem_range.mp hx) h

theorem combine?_eq (v : Registers) (operation : Alu) {x y : Nat} (hx : x < 16) (hy : y < 16) :
    v.combine? operation x y = some (v.combine operation x y) := by
  simp only [combine?, v.read?_eq hx, v.read?_eq hy, setFlag?_eq, Option.bind_eq_bind,
    Option.bind_some]
  exact write?_eq _ hx _

theorem writeFrom?_eq (v : Registers) {x : Nat} {bytes : List UInt8}
    (h : x + bytes.length ≤ 16) : v.writeFrom? x bytes = some (v.writeFrom x bytes) := by
  induction bytes generalizing v x with
  | nil => rfl
  | cons byte rest ih =>
    rw [List.length_cons] at h
    simp only [writeFrom?, v.write?_eq (show x < 16 by omega), Option.bind_eq_bind,
      Option.bind_some]
    exact ih (v.write x byte) (by omega)

end Registers

/-! ## Screen and sprites -/

namespace Screen

/-- The byte that holds a pixel of the grid, found by way of the number of the pixel. -/
def locate? (x y : Nat) : Option (Option Nat) :=
  if x < width ∧ y < height then do
    let row ← below? UInt64.size (y * width)
    let place ← below? UInt64.size (row + x)
    let _ ← below? 8 (x % 8)
    return some (place / 8)
  else return none

def pixel? (s : Screen) (x y : Nat) : Option Bool := do
  match ← locate? x y with
  | some i =>
    let byte ← s.bytes[i]?
    return Octet.pixel byte x
  | none => return false

/-- Lights or darkens a pixel of the grid, whichever `f` does to a column of a byte. -/
def change? (s : Screen) (f : UInt8 → Nat → UInt8) (x y : Nat) : Option Screen := do
  match ← locate? x y with
  | some i =>
    let place ← below? s.bytes.size i
    return ⟨s.bytes.modify place (f · x)⟩
  | none => return s

def paint? (s : Screen) : Surface.Edit → Option Screen
  | .light x y => s.change? Octet.light x y
  | .darken x y => s.change? Octet.darken x y
  | .clear => return s.clear

theorem locate?_eq (x y : Nat) : locate? x y = some (byteOf? x y) := by
  by_cases h : x < width ∧ y < height
  · have hx : x < 64 := h.1
    have hy : y < 32 := h.2
    have hrow : y * width < UInt64.size := Nat.lt_trans (show y * 64 < 2048 by omega) (by decide)
    have hplace : y * width + x < UInt64.size :=
      Nat.lt_trans (show y * 64 + x < 2112 by omega) (by decide)
    have hshift : x % 8 < 8 := Nat.mod_lt _ (by decide)
    rw [locate?, if_pos h, byteOf?, if_pos h, below?_of_lt hrow]
    simp only [Option.bind_eq_bind, Option.bind_some, below?_of_lt hplace, below?_of_lt hshift]
    rfl
  · rw [locate?, if_neg h, byteOf?_eq_none h]
    rfl

section Reach

variable (s : Screen)

theorem pixel?_eq_some_iff (x y : Nat) (lit : Bool) :
    s.pixel? x y = some lit ↔ s.Holds x y ∧ s.pixel x y = lit := by
  simp only [pixel?, pixel, Holds, locate?_eq, Option.bind_eq_bind, Option.bind_some]
  cases byteOf? x y with
  | none => simp
  | some i => by_cases hlt : i < s.bytes.size <;> simp [byteAt, hlt]

theorem change?_eq_some_iff (f : UInt8 → Nat → UInt8) (x y : Nat) (t : Screen) :
    s.change? f x y = some t ↔
      s.Holds x y ∧ (match byteOf? x y with
        | some i => ⟨s.bytes.modify i (f · x)⟩
        | none => s) = t := by
  simp only [change?, Holds, locate?_eq, below?, Option.bind_eq_bind, Option.bind_some]
  cases byteOf? x y with
  | none => simp
  | some i => by_cases hlt : i < s.bytes.size <;> simp [hlt]

end Reach

namespace Complete

variable {s : Screen}

theorem pixel?_eq (hs : s.Complete) (x y : Nat) : s.pixel? x y = some (s.pixel x y) :=
  (s.pixel?_eq_some_iff x y _).mpr ⟨hs.holds x y, rfl⟩

theorem change?_eq (hs : s.Complete) (f : UInt8 → Nat → UInt8) (x y : Nat) :
    s.change? f x y = some (match byteOf? x y with
      | some i => ⟨s.bytes.modify i (f · x)⟩
      | none => s) :=
  (s.change?_eq_some_iff f x y _).mpr ⟨hs.holds x y, rfl⟩

theorem light?_eq (hs : s.Complete) (x y : Nat) :
    s.change? Octet.light x y = some (s.light x y) :=
  hs.change?_eq Octet.light x y

theorem darken?_eq (hs : s.Complete) (x y : Nat) :
    s.change? Octet.darken x y = some (s.darken x y) :=
  hs.change?_eq Octet.darken x y

theorem paint?_eq (hs : s.Complete) (edit : Surface.Edit) :
    s.paint? edit = some (Surface.apply s edit) := by
  cases edit with
  | light x y => exact hs.light?_eq x y
  | darken x y => exact hs.darken?_eq x y
  | clear => rfl

end Complete

end Screen

namespace Sprite

def drawPixel? (x y : Nat) (row : UInt8) (state : Screen × Bool) (column : Nat) :
    Option (Screen × Bool) := do
  let (screen, hit) := state
  let shift ← below? 8 column
  let px ← below? UInt64.size (x + column)
  let lit ← screen.pixel? px y
  let change := if lit != Octet.pixel row shift then Octet.light else Octet.darken
  let screen ← screen.change? change px y
  return (screen, hit || lit)

def draw? (x : Nat) : Nat → List UInt8 → Screen × Bool → Option (Screen × Bool)
  | _, [], state => some state
  | y, row :: rest, state => do
    let py ← below? UInt64.size y
    let state ← (List.range 8).foldlM (drawPixel? x py row) state
    draw? x (y + 1) rest state

theorem drawPixel?_eq {state : Screen × Bool} (hs : state.1.Complete) {x column : Nat}
    (hcolumn : column < 8) (hx : x + column < UInt64.size) (y : Nat) (row : UInt8) :
    drawPixel? x y row state column = some (drawPixel x y row state column) := by
  obtain ⟨screen, hit⟩ := state
  have hpixel : Surface.pixel screen (x + column) y = screen.pixel (x + column) y := rfl
  simp only [drawPixel?, drawPixel, below?_of_lt hcolumn, below?_of_lt hx, hs.pixel?_eq, hpixel,
    Option.bind_eq_bind, Option.bind_some]
  cases screen.pixel (x + column) y != Octet.pixel row column with
  | true =>
    rw [if_pos rfl, hs.light?_eq]
    rfl
  | false =>
    rw [if_neg Bool.false_ne_true, hs.darken?_eq]
    rfl

theorem drawRow?_eq {state : Screen × Bool} (hs : state.1.Complete) {x : Nat}
    (hx : x + 8 ≤ UInt64.size) (y : Nat) (row : UInt8) :
    (List.range 8).foldlM (drawPixel? x y row) state = some (drawRow x y state row) := by
  refine foldlM_eq_some (P := fun state => state.1.Complete) (fun column hc state hs => ?_) hs
  have hcolumn : column < 8 := List.mem_range.mp hc
  exact ⟨drawPixel?_eq hs hcolumn (by omega) y row,
    drawPixel_induction (P := Screen.Complete) (fun _ x y hs => hs.light x y)
      (fun _ x y hs => hs.darken x y) x y row hs column⟩

theorem draw?_eq {state : Screen × Bool} (hs : state.1.Complete) {x y : Nat} {rows : List UInt8}
    (hx : x + 8 ≤ UInt64.size) (hy : y + rows.length ≤ UInt64.size) :
    draw? x y rows state = some (draw x y rows state) := by
  induction rows generalizing y state with
  | nil => rfl
  | cons row rest ih =>
    rw [List.length_cons] at hy
    have hpy : y < UInt64.size := by omega
    simp only [draw?, below?_of_lt hpy, drawRow?_eq hs hx, Option.bind_eq_bind,
      Option.bind_some]
    exact ih (drawRow_induction (P := Screen.Complete) (fun _ x y hs => hs.light x y)
      (fun _ x y hs => hs.darken x y) x y hs row) (by omega)

end Sprite

end Chip8
