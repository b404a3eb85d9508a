import Chip8.Fault

/-!
# The call stack holds up to sixteen return addresses

The stack is sixteen slots and a depth. The slots below the depth are live,
oldest first. A push writes the slot at the depth; a pop and `clear` only lower
the depth, so a slot that has died keeps its last address until it is used again.
A push on a full stack and a pop on an empty one are faults and change nothing.
-/

namespace Chip8

/-- Sixteen slots for return addresses, of which the first `depth` are live. -/
structure CallStack where
  slots : Vector UInt16 16
  depth : Nat
  deriving DecidableEq

namespace CallStack

def capacity : Nat := 16

def empty : CallStack :=
  ⟨Vector.replicate 16 0, 0⟩

/-- Every live slot exists. -/
def Sound (s : CallStack) : Prop :=
  s.depth ≤ capacity

instance (s : CallStack) : Decidable s.Sound :=
  inferInstanceAs (Decidable (_ ≤ _))

/-- The live return addresses, oldest first. -/
def live (s : CallStack) : List UInt16 :=
  s.slots.toList.take s.depth

/-- There are no live return addresses. -/
def isEmpty (s : CallStack) : Bool :=
  s.depth == 0

/-- Puts a return address on top, unless all slots are live. -/
def push (s : CallStack) (address : UInt16) : CallStack × Except Fault Unit :=
  if s.depth < capacity then (⟨s.slots.setIfInBounds s.depth address, s.depth + 1⟩, .ok ())
  else (s, .error .stackOverflow)

/-- Takes the youngest return address off, if there is one. -/
def pop (s : CallStack) : CallStack × Except Fault UInt16 :=
  match s.depth with
  | 0 => (s, .error .stackUnderflow)
  | depth + 1 => (⟨s.slots, depth⟩, .ok (s.slots[depth]?.getD 0))

def clear (s : CallStack) : CallStack :=
  ⟨s.slots, 0⟩

theorem length_live {s : CallStack} (hs : s.Sound) : s.live.length = s.depth := by
  simp only [live, List.length_take, Vector.length_toList]
  exact Nat.min_eq_left hs

theorem length_live_eq_capacity_iff (s : CallStack) :
    s.live.length = capacity ↔ capacity ≤ s.depth := by
  simp only [live, List.length_take, Vector.length_toList, capacity]
  omega

theorem live_eq_nil_iff (s : CallStack) : s.live = [] ↔ s.depth = 0 := by
  rw [← List.length_eq_zero_iff]
  simp only [live, List.length_take, Vector.length_toList]
  omega

theorem live_empty : empty.live = [] := rfl

theorem live_clear (s : CallStack) : s.clear.live = [] := rfl

/-! ## Pushes -/

section Push

variable {s t : CallStack} {address : UInt16}

theorem push_of_lt (h : s.depth < capacity) (address : UInt16) :
    s.push address = (⟨s.slots.setIfInBounds s.depth address, s.depth + 1⟩, .ok ()) :=
  if_pos h

theorem push_of_le (h : capacity ≤ s.depth) (address : UInt16) :
    s.push address = (s, .error .stackOverflow) :=
  if_neg (Nat.not_lt_of_le h)

/-- A push goes through if there is room, and else it is refused and changes nothing. -/
theorem push_cases (s : CallStack) (address : UInt16) :
    (∃ t, s.push address = (t, .ok ())) ∨
    (capacity ≤ s.depth ∧ s.push address = (s, .error .stackOverflow)) := by
  obtain hroom | hfull := Nat.lt_or_ge s.depth capacity
  · exact Or.inl ⟨_, push_of_lt hroom address⟩
  · exact Or.inr ⟨hfull, push_of_le hfull address⟩

/-- The stack behind a push that went through. -/
theorem eq_of_push (h : s.push address = (t, .ok ())) :
    s.depth < capacity ∧ t = ⟨s.slots.setIfInBounds s.depth address, s.depth + 1⟩ := by
  obtain hroom | hfull := Nat.lt_or_ge s.depth capacity
  · rw [push_of_lt hroom] at h
    exact ⟨hroom, (Prod.mk.inj h).1.symm⟩
  · rw [push_of_le hfull] at h
    cases (Prod.mk.inj h).2

/-- A push puts the address behind the live ones. -/
theorem live_push (h : s.push address = (t, .ok ())) : t.live = s.live ++ [address] := by
  obtain ⟨hroom, rfl⟩ := eq_of_push h
  simp only [capacity] at hroom
  simp only [live, Vector.setIfInBounds, Vector.toList_mk, Array.toList_setIfInBounds]
  rw [List.take_succ_eq_append_getElem (by simpa using hroom),
    List.take_set_of_le (Nat.le_refl _)]
  simp [Vector.toList]

theorem Sound.push (h : s.push address = (t, .ok ())) : t.Sound := by
  obtain ⟨hroom, rfl⟩ := eq_of_push h
  exact hroom

end Push

/-! ## Pops -/

section Pop

variable {s t : CallStack} {address : UInt16}

theorem pop_of_depth_eq_zero (h : s.depth = 0) : s.pop = (s, .error .stackUnderflow) := by
  simp only [pop, h]

/-- What a pop takes and what it leaves, said of the live addresses alone. -/
theorem pop_of_depth_eq_succ {depth : Nat} (h : s.depth = depth + 1) :
    s.pop = (⟨s.slots, depth⟩, .ok (s.live[depth]?.getD 0)) := by
  have hl : s.live[depth]? = s.slots[depth]? := by
    rw [live, List.getElem?_take_of_lt (by omega), Vector.getElem?_toList]
  simp only [pop, h, hl]

/-- A pop goes through if a slot is live, and else it is refused and changes nothing. -/
theorem pop_cases (s : CallStack) :
    (∃ t address, s.pop = (t, .ok address)) ∨
    (s.depth = 0 ∧ s.pop = (s, .error .stackUnderflow)) := by
  cases h : s.depth with
  | zero => exact Or.inr ⟨rfl, pop_of_depth_eq_zero h⟩
  | succ depth => exact Or.inl ⟨_, _, pop_of_depth_eq_succ h⟩

/-- The stack behind a pop that went through, and what was taken. -/
theorem eq_of_pop (h : s.pop = (t, .ok address)) :
    ∃ depth, s.depth = depth + 1 ∧ t = ⟨s.slots, depth⟩ ∧
      address = s.live[depth]?.getD 0 := by
  cases hd : s.depth with
  | zero =>
    rw [pop_of_depth_eq_zero hd] at h
    cases (Prod.mk.inj h).2
  | succ depth =>
    rw [pop_of_depth_eq_succ hd] at h
    obtain ⟨rfl, hanswer⟩ := Prod.mk.inj h
    exact ⟨depth, rfl, rfl, (Except.ok.inj hanswer).symm⟩

theorem live_of_le (s : CallStack) {depth : Nat} (h : depth ≤ s.depth) :
    live ⟨s.slots, depth⟩ = s.live.take depth := by
  rw [live, live, List.take_take, Nat.min_eq_left h]

/-- A pop takes the last of the live addresses. -/
theorem live_pop (hs : s.Sound) (h : s.pop = (t, .ok address)) : s.live = t.live ++ [address] := by
  obtain ⟨depth, hd, rfl, rfl⟩ := eq_of_pop h
  have hlength : s.live.length = depth + 1 := hd ▸ length_live hs
  have hlast : depth < s.live.length := by omega
  have hrest : live ⟨s.slots, depth⟩ = s.live.take depth := s.live_of_le (by omega)
  rw [hrest, List.getElem?_eq_getElem hlast, Option.getD_some,
    ← List.take_succ_eq_append_getElem hlast, ← hlength, List.take_length]

theorem Sound.pop (hs : s.Sound) (h : s.pop = (t, .ok address)) : t.Sound := by
  obtain ⟨depth, hd, rfl, -⟩ := eq_of_pop h
  have hle : depth + 1 ≤ capacity := hd ▸ hs
  exact Nat.le_of_succ_le hle

end Pop

end CallStack

end Chip8
