import Chip8.Proofs.Footprint

/-!
# Block transfers and decimal digits are exact wherever `I` points

A transfer walks over the registers and over memory side by side, and the places in memory count
modulo its size. `I` may be anywhere, also so close to the end of memory or of sixteen bits that
the walk goes on at the bottom. Since it is shorter than memory, it never comes to a place twice:
every byte that is stored is still there in the end, and nothing else has changed. That makes
storing and loading undo each other, in either order. The decimal digits of a register are stored
in the same way, as three bytes.
-/

namespace Chip8

namespace Memory

variable {m n : Memory}

/-- There is a byte in each place of memory, and it is the one that is read there. -/
theorem getElem?_bytes (hm : m.Complete) (a : Nat) :
    m.bytes[a]? = if a < size then some (m.read a) else none := by
  split
  · next h => simp [read, Nat.mod_eq_of_lt h, show a < m.bytes.size from hm ▸ h]
  · next h => exact Array.getElem?_eq_none (hm ▸ Nat.le_of_not_lt h)

theorem getElem?_bytes_mod (hm : m.Complete) (a : Nat) :
    m.bytes[a % size]? = some (m.read a) := by
  rw [getElem?_bytes hm, if_pos (Nat.mod_lt a (by decide)), read_mod]

theorem eq_of_read_eq (hm : m.Complete) (hn : n.Complete) (h : ∀ a, m.read a = n.read a) :
    m = n := by
  have hbytes : m.bytes = n.bytes := by
    apply Array.ext_getElem?
    intro a
    rw [getElem?_bytes hm, getElem?_bytes hn, h]
  cases m
  cases n
  exact congrArg Memory.mk hbytes

theorem getElem_fetch (m : Memory) (a : Nat) {count k : Nat} (h : k < (m.fetch a count).length) :
    (m.fetch a count)[k] = m.read (a + k) := by
  simp [fetch]

/-- What was stored is fetched again. -/
theorem fetch_store (hm : m.Complete) (a : Nat) {bytes : List UInt8} (h : bytes.length ≤ size) :
    (m.store a bytes).fetch a bytes.length = bytes := by
  apply List.ext_getElem (length_fetch _ _ _)
  intro k _ hk
  rw [getElem_fetch, read_store hm a bytes h hk]

/-- To store what was fetched changes nothing. -/
theorem store_fetch (hm : m.Complete) (a : Nat) {count : Nat} (h : count ≤ size) :
    m.store a (m.fetch a count) = m := by
  have hlength := m.length_fetch a count
  apply eq_of_read_eq (hm.store a _) hm
  intro b
  -- an address that names a place of the row may lie behind the end of memory
  by_cases hb : ∃ k < count, (a + k) % size = b % size
  · obtain ⟨k, hk, hplace⟩ := hb
    rw [← read_congr _ hplace, ← read_congr m hplace,
      read_store hm a _ (by omega) (by omega), getElem_fetch]
  · refine read_store_of_ne hm a b _ fun k hk hplace => hb ⟨k, ?_, hplace⟩
    exact hlength ▸ hk

end Memory

namespace Registers

theorem read_writeFrom_of_lt (v : Registers) {x r : Nat} (bytes : List UInt8) (h : r < x) :
    (v.writeFrom x bytes).read r = v.read r := by
  induction bytes generalizing v x with
  | nil => rfl
  | cons byte rest ih =>
    rw [writeFrom, ih (v.write x byte) (by omega), read_write_of_ne v (by omega)]

theorem read_writeFrom (v : Registers) {x k : Nat} {bytes : List UInt8}
    (h : x + bytes.length ≤ 16) (hk : k < bytes.length) :
    (v.writeFrom x bytes).read (x + k) = bytes[k] := by
  induction bytes generalizing v x k with
  | nil => exact absurd hk (Nat.not_lt_zero k)
  | cons byte rest ih =>
    rw [List.length_cons] at h hk
    cases k with
    | zero =>
      rw [Nat.add_zero, writeFrom, read_writeFrom_of_lt _ rest (Nat.lt_add_one x),
        read_write v (by omega), if_pos rfl]
      rfl
    | succ k =>
      rw [writeFrom, show x + (k + 1) = x + 1 + k by omega,
        ih (v.write x byte) (by omega) (by omega)]
      rfl

/-- The bytes of the first `count` registers. -/
def first (v : Registers) (count : Nat) : List UInt8 :=
  (List.range count).map v.read

theorem length_first (v : Registers) (count : Nat) : (v.first count).length = count := by
  rw [first, List.length_map, List.length_range]

theorem getElem_first (v : Registers) {count r : Nat} (h : r < (v.first count).length) :
    (v.first count)[r] = v.read r := by
  simp [first]

/-- Bytes written into the first registers, and what the others have kept. -/
theorem read_writeFrom_zero (v : Registers) {bytes : List UInt8} (h : bytes.length ≤ 16) (r : Nat) :
    (v.writeFrom 0 bytes).read r = bytes[r]?.getD (v.read r) := by
  rcases Nat.lt_or_ge r bytes.length with hr | hr
  · have hread := v.read_writeFrom (x := 0) (by omega) hr
    rw [Nat.zero_add] at hread
    rw [hread, List.getElem?_eq_getElem hr]
    rfl
  · rw [read_writeFrom_of_le v (by omega), List.getElem?_eq_none hr]
    rfl

theorem first_writeFrom_zero (v : Registers) {bytes : List UInt8} (h : bytes.length ≤ 16) :
    (v.writeFrom 0 bytes).first bytes.length = bytes := by
  apply List.ext_getElem (length_first _ _)
  intro r _ hr
  rw [getElem_first, read_writeFrom_zero v h, List.getElem?_eq_getElem hr]
  rfl

end Registers

namespace Machine

variable {σ : Type}

/-- The place in memory of the byte that is `k` behind the one `I` points to. -/
def place (m : Machine σ) (k : Nat) : Nat :=
  (m.index.toNat + k) % 4096

/-- In `n` the bytes lie in memory from `I` on, and all else is as in `m`. -/
structure Stored (m : Machine σ) (count : Nat) (byte : Nat → UInt8) (n : Machine σ) : Prop where
  size : n.memory.bytes.size = 4096
  stored : ∀ k < count, n.memory.bytes[m.place k]? = some (byte k)
  kept : ∀ a, (∀ k < count, m.place k ≠ a) → n.memory.bytes[a]? = m.memory.bytes[a]?
  rest : n = { m with memory := n.memory }

/-- In `n` the first `count` registers hold the bytes from `I` on, and all else is as in `m`. -/
structure Loaded (m : Machine σ) (count : Nat) (n : Machine σ) : Prop where
  loaded : ∀ r < count, m.memory.bytes[m.place r]? = some (n.v.read r)
  kept : ∀ r, count ≤ r → n.v.read r = m.v.read r
  rest : n = { m with v := n.v }

theorem Stored.index {m n : Machine σ} {count : Nat} {byte : Nat → UInt8}
    (h : Stored m count byte n) : n.index = m.index := by
  rw [h.rest]

theorem stored_storeAtIndex {m : Machine σ} (hm : m.memory.Complete) {count : Nat}
    (h : count ≤ Memory.size) (byte : Nat → UInt8) :
    Stored m count byte (m.storeAtIndex ((List.range count).map byte)) where
  size := hm.store _ _
  stored k hk := by
    have hread := Memory.read_store hm m.index.toNat ((List.range count).map byte)
      (by simpa using h) (k := k) (by simpa using hk)
    rw [List.getElem_map, List.getElem_range] at hread
    rw [← hread]
    exact Memory.getElem?_bytes_mod (hm.store _ _) _
  kept a ha := by
    show (m.memory.store m.index.toNat ((List.range count).map byte)).bytes[a]? = _
    rw [Memory.getElem?_bytes (hm.store _ _), Memory.getElem?_bytes hm]
    split
    · next hlt =>
      rw [Memory.read_store_of_ne hm]
      intro k hk hplace
      rw [Nat.mod_eq_of_lt hlt] at hplace
      exact ha k (by simpa using hk) hplace
    · rfl
  rest := rfl

theorem loaded_writeFrom {m : Machine σ} (hm : m.memory.Complete) {count : Nat} (h : count ≤ 16) :
    Loaded m count { m with v := m.v.writeFrom 0 (m.memory.fetch m.index.toNat count) } where
  loaded r hr := by
    have hlength := m.memory.length_fetch m.index.toNat count
    rw [Registers.read_writeFrom_zero m.v (by omega), List.getElem?_eq_getElem (by omega),
      Memory.getElem_fetch]
    exact Memory.getElem?_bytes_mod hm _
  kept r hr := by
    apply Registers.read_writeFrom_of_le
    rwa [Memory.length_fetch, Nat.zero_add]
  rest := rfl

/-- The hundreds, tens and ones of a byte. -/
def digit (byte : UInt8) : Nat → UInt8
  | 0 => byte / 100
  | 1 => byte / 10 % 10
  | _ => byte % 10

theorem digit_le (byte : UInt8) (k : Nat) : digit byte k ≤ 9 := by
  have hbyte := byte.toNat_lt
  unfold digit
  split <;>
    simp only [UInt8.le_iff_toNat_le, UInt8.toNat_div, UInt8.toNat_mod, UInt8.reduceToNat] <;>
    omega

theorem digits_eq (byte : UInt8) :
    100 * (digit byte 0).toNat + 10 * (digit byte 1).toNat + (digit byte 2).toNat =
      byte.toNat := by
  simp only [digit, UInt8.toNat_div, UInt8.toNat_mod, UInt8.reduceToNat]
  omega

/-- To store registers that were just loaded changes nothing. -/
theorem storeAtIndex_of_loaded {m : Machine σ} (hm : m.memory.Complete) {count : Nat}
    (hcount : count ≤ 16) :
    let n := { m with v := m.v.writeFrom 0 (m.memory.fetch m.index.toNat count) }
    n.storeAtIndex (n.v.first count) = n := by
  intro n
  have hlength := m.memory.length_fetch m.index.toNat count
  have hfirst : n.v.first count = m.memory.fetch m.index.toNat count := by
    have h := m.v.first_writeFrom_zero (hlength.symm ▸ hcount)
    rwa [hlength] at h
  have hmemory : n.memory.store n.index.toNat (n.v.first count) = n.memory := by
    rw [hfirst]
    exact Memory.store_fetch hm _ (Nat.le_trans hcount (by decide))
  exact congrArg (fun memory => { n with memory }) hmemory

variable [Surface σ]

/-- What was stored from the registers comes back into them, in any machine with that memory and
the same `I`, whatever else has become of it. -/
theorem loadRegisters_of_stored {m k : Machine σ} (hm : m.memory.Complete) {x : UInt64}
    (hx : x.toNat < 16) (hmemory : k.memory = (m.storeAtIndex (m.v.first (x.toNat + 1))).memory)
    (hindex : k.index = m.index) (noise : UInt8) :
    ∃ v : Registers, k.execute noise (.loadRegisters x) = .done { k with v } () ∧
      ∀ r, v.read r = if r ≤ x.toNat then m.v.read r else k.v.read r := by
  have hlength := m.v.length_first (x.toNat + 1)
  have hsize : (m.v.first (x.toNat + 1)).length ≤ Memory.size := by
    rw [hlength, Memory.size]
    omega
  have hfetch : k.memory.fetch k.index.toNat (x.toNat + 1) = m.v.first (x.toNat + 1) := by
    have h := Memory.fetch_store hm m.index.toNat hsize
    rw [hlength] at h
    rw [hmemory, hindex]
    exact h
  refine ⟨_, rfl, fun r => ?_⟩
  rw [hfetch, Registers.read_writeFrom_zero _ (by omega)]
  split
  · next hr => rw [List.getElem?_eq_getElem (by omega), Registers.getElem_first, Option.getD_some]
  · next hr => rw [List.getElem?_eq_none (by omega), Option.getD_none]

/-- **Block transfers and decimal digits are exact wherever `I` points.** For each register as
the last one, storing puts the registers up to it into the places from `I` on, one into each, and
loading takes them from there; the digits of a register go into three such places. Nothing else
changes, not even `I`. What was stored is loaded again whatever has become of the registers in
between, and what was just loaded is stored without a change. -/
theorem transfers_exact {m : Machine σ} (hm : m.memory.Complete) {x : UInt64}
    (hx : x.toNat < 16) (noise noise' : UInt8) :
    (∃ stored, m.execute noise (.storeRegisters x) = .done stored () ∧
      Stored m (x.toNat + 1) m.v.read stored ∧
      ∀ k : Machine σ, k.memory = stored.memory → k.index = m.index →
        ∃ v : Registers, k.execute noise' (.loadRegisters x) = .done { k with v } () ∧
          ∀ r, v.read r = if r ≤ x.toNat then m.v.read r else k.v.read r) ∧
    (∃ loaded, m.execute noise (.loadRegisters x) = .done loaded () ∧
      Loaded m (x.toNat + 1) loaded ∧
      loaded.execute noise' (.storeRegisters x) = .done loaded ()) ∧
    ∃ stored digit, m.execute noise (.storeDigits x) = .done stored () ∧
      Stored m 3 digit stored ∧ (∀ k, digit k ≤ 9) ∧
      100 * (digit 0).toNat + 10 * (digit 1).toNat + (digit 2).toNat =
        (m.v.read x.toNat).toNat := by
  have hsize : x.toNat + 1 ≤ Memory.size := Nat.le_trans hx (by decide)
  refine ⟨⟨_, rfl, stored_storeAtIndex hm hsize m.v.read, ?_⟩,
    ⟨_, rfl, loaded_writeFrom hm hx, ?_⟩,
    ⟨_, _, rfl, stored_storeAtIndex hm (by decide) (digit (m.v.read x.toNat)), ?_, ?_⟩⟩
  · intro k hmemory hindex
    exact loadRegisters_of_stored hm hx hmemory hindex noise'
  · exact congrArg (Outcome.done · ()) (storeAtIndex_of_loaded hm hx)
  · exact digit_le _
  · exact digits_eq _

/-- `I` points to the last place of memory, so that two of three registers are stored over the
font, and it is the font that is loaded. The registers are cleared in between, and what was stored
comes back. -/
theorem transfers_exact_across_end_of_memory :
    let m : Machine Screen :=
      { initial Screen.blank with index := 0xffff, v := Registers.zero.writeFrom 0 [1, 2, 254] }
    m.memory.Complete ∧ (2 : UInt64).toNat < 16 ∧
    (∃ stored, m.execute 0 (.storeRegisters 2) = .done stored () ∧
      stored.memory.bytes[4095]? = some 1 ∧ stored.memory.bytes[0]? = some 2 ∧
      stored.memory.bytes[1]? = some 254 ∧ stored.memory.bytes[2]? = m.memory.bytes[2]? ∧
      ∃ n, { stored with v := Registers.zero }.execute 0 (.loadRegisters 2) = .done n () ∧
        n.v.read 2 = 254) ∧
    (∃ loaded, m.execute 0 (.loadRegisters 2) = .done loaded () ∧
      m.memory.bytes[0]? = some (loaded.v.read 1) ∧
      loaded.execute 0 (.storeRegisters 2) = .done loaded ()) ∧
    ∃ stored, m.execute 0 (.storeDigits 2) = .done stored () ∧
      stored.memory.bytes[4095]? = some 2 ∧ stored.memory.bytes[0]? = some 5 ∧
      stored.memory.bytes[1]? = some 4 := by
  intro m
  have hm : m.memory.Complete := Memory.complete_initial
  have hbytes : m.v.read 0 = 1 ∧ m.v.read 1 = 2 ∧ m.v.read 2 = 254 := ⟨rfl, rfl, rfl⟩
  have hplaces : m.place 0 = 4095 ∧ m.place 1 = 0 ∧ m.place 2 = 1 := by decide
  obtain ⟨⟨stored, hstore, hstored, hback⟩, ⟨loaded, hload, hloaded, hsame⟩,
    written, digit, hdigits, hwritten, hle, hsum⟩ := transfers_exact hm (x := 2) (by decide) 0 0
  refine ⟨hm, by decide, ⟨stored, hstore, ?_, ?_, ?_, ?_, ?_⟩, ⟨loaded, hload, ?_, hsame⟩,
    written, hdigits, ?_⟩
  · exact hplaces.1 ▸ hbytes.1 ▸ hstored.stored 0 (by decide)
  · exact hplaces.2.1 ▸ hbytes.2.1 ▸ hstored.stored 1 (by decide)
  · exact hplaces.2.2 ▸ hbytes.2.2 ▸ hstored.stored 2 (by decide)
  · refine hstored.kept 2 fun k hk => ?_
    show (65535 + k) % 4096 ≠ 2
    have hk : k < 3 := hk
    omega
  · obtain ⟨v, hv, hread⟩ := hback { stored with v := Registers.zero } rfl hstored.index
    exact ⟨_, hv, hread 2⟩
  · exact hplaces.2.1 ▸ hloaded.loaded 1 (by decide)
  · have hdigit : digit 0 = 2 ∧ digit 1 = 5 ∧ digit 2 = 4 := by
      have hle0 := UInt8.le_iff_toNat_le.mp (hle 0)
      have hle1 := UInt8.le_iff_toNat_le.mp (hle 1)
      have hle2 := UInt8.le_iff_toNat_le.mp (hle 2)
      have hvalue : 100 * (digit 0).toNat + 10 * (digit 1).toNat + (digit 2).toNat = 254 := hsum
      simp only [UInt8.reduceToNat, ← UInt8.toNat_inj] at hle0 hle1 hle2 ⊢
      omega
    exact ⟨hplaces.1 ▸ hdigit.1 ▸ hwritten.stored 0 (by decide),
      hplaces.2.1 ▸ hdigit.2.1 ▸ hwritten.stored 1 (by decide),
      hplaces.2.2 ▸ hdigit.2.2 ▸ hwritten.stored 2 (by decide)⟩

end Machine

end Chip8
