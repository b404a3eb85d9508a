import Chip8.CallStack

/-!
# The call stack is a list of at most sixteen addresses

A call stack keeps its sixteen slots for ever and moves a depth over them, so what was popped or
cleared stays behind above the depth until a push overwrites it. None of that can be seen: every
sequence of pushes, pops and clears is answered as by a plain list that grows at its end and
refuses to hold more than sixteen addresses, and the live addresses are that list.
-/

namespace Chip8.CallStack

/-- A request that may change a call stack. -/
inductive Edit
  | push (address : UInt16)
  | pop
  | clear
  deriving DecidableEq, Repr

/-- The address that a pop takes; other requests have no result. -/
abbrev Answer := Except Fault (Option UInt16)

/-- The answer to a request and the stack behind it. -/
def perform (s : CallStack) : Edit → Answer × CallStack
  | .push address =>
    let (t, result) := s.push address
    (result.map fun _ => none, t)
  | .pop =>
    let (t, result) := s.pop
    (result.map some, t)
  | .clear => (.ok none, s.clear)

/-- The same requests on a list of addresses, oldest first. -/
def performOnList (addresses : List UInt16) : Edit → Answer × List UInt16
  | .push address =>
    if addresses.length = 16 then (.error .stackOverflow, addresses)
    else (.ok none, addresses ++ [address])
  | .pop =>
    match addresses.getLast? with
    | some address => (.ok (some address), addresses.dropLast)
    | none => (.error .stackUnderflow, addresses)
  | .clear => (.ok none, [])

/-- The answers to requests one after another, and what the last of them leaves behind. -/
def run {α : Type} (perform : α → Edit → Answer × α) (a : α) : List Edit → List Answer × α
  | [] => ([], a)
  | edit :: rest =>
    let behind := run perform (perform a edit).2 rest
    ((perform a edit).1 :: behind.1, behind.2)

/-- The live slots hold the list, and there are enough slots for it. -/
structure Represents (s : CallStack) (addresses : List UInt16) : Prop where
  live : s.live = addresses
  depth : s.depth = addresses.length
  bounded : addresses.length ≤ 16

theorem represents_empty : Represents empty [] :=
  ⟨live_empty, rfl, Nat.zero_le _⟩

theorem Sound.represents {s : CallStack} (hs : s.Sound) : Represents s s.live where
  live := rfl
  depth := (length_live hs).symm
  bounded := length_live hs ▸ hs

/-! ## One request -/

namespace Represents

variable {s : CallStack} {addresses : List UInt16}

theorem sound (h : Represents s addresses) : s.Sound := by
  unfold Sound
  rw [h.depth]
  exact h.bounded

theorem push (h : Represents s addresses) (address : UInt16) :
    (s.perform (.push address)).1 = (performOnList addresses (.push address)).1 ∧
    Represents (s.perform (.push address)).2 (performOnList addresses (.push address)).2 := by
  have hdepth := h.depth
  have hbounded := h.bounded
  obtain ⟨t, hp⟩ | ⟨hfull, hp⟩ := s.push_cases address
  · have hroom : s.depth < 16 := (eq_of_push hp).1
    have hlength : addresses.length ≠ 16 := by omega
    have ht := (Sound.push hp).represents
    rw [live_push hp, h.live] at ht
    simp only [CallStack.perform, hp, performOnList, if_neg hlength]
    exact ⟨rfl, ht⟩
  · have hfull : 16 ≤ s.depth := hfull
    have hlength : addresses.length = 16 := by omega
    simp only [CallStack.perform, hp, performOnList, if_pos hlength]
    exact ⟨rfl, h⟩

theorem pop (h : Represents s addresses) :
    (s.perform .pop).1 = (performOnList addresses .pop).1 ∧
    Represents (s.perform .pop).2 (performOnList addresses .pop).2 := by
  obtain ⟨t, address, hp⟩ | ⟨hempty, hp⟩ := s.pop_cases
  · have hlive : addresses = t.live ++ [address] := h.live ▸ live_pop h.sound hp
    have ht := (h.sound.pop hp).represents
    rw [hlive]
    simp only [CallStack.perform, hp, performOnList, List.getLast?_concat, List.dropLast_concat]
    exact ⟨rfl, ht⟩
  · obtain rfl : addresses = [] := List.length_eq_zero_iff.mp (h.depth ▸ hempty)
    simp only [CallStack.perform, hp]
    exact ⟨rfl, h⟩

/-- A request is answered as by the list, and the stack still represents the list behind it. -/
theorem perform (h : Represents s addresses) (edit : Edit) :
    (s.perform edit).1 = (performOnList addresses edit).1 ∧
    Represents (s.perform edit).2 (performOnList addresses edit).2 := by
  cases edit with
  | push address => exact h.push address
  | pop => exact h.pop
  | clear => exact ⟨rfl, live_clear s, rfl, Nat.zero_le _⟩

theorem run (h : Represents s addresses) (edits : List Edit) :
    (run CallStack.perform s edits).1 = (run performOnList addresses edits).1 ∧
    Represents (CallStack.run CallStack.perform s edits).2
      (CallStack.run performOnList addresses edits).2 := by
  induction edits generalizing s addresses with
  | nil => exact ⟨rfl, h⟩
  | cons edit rest ih =>
    obtain ⟨hanswer, hnext⟩ := h.perform edit
    obtain ⟨hanswers, hlast⟩ := ih hnext
    exact ⟨by rw [CallStack.run, CallStack.run, hanswer, hanswers], hlast⟩

end Represents

/-! ## Slots -/

/-- A refused request changes neither slots nor depth. -/
theorem perform_of_error (s : CallStack) {edit : Edit} {fault : Fault}
    (h : (s.perform edit).1 = .error fault) : (s.perform edit).2 = s := by
  cases edit with
  | push address =>
    obtain ⟨t, hp⟩ | ⟨-, hp⟩ := s.push_cases address
    · simp only [perform, hp] at h
      cases h
    · simp only [perform, hp]
  | pop =>
    obtain ⟨t, address, hp⟩ | ⟨-, hp⟩ := s.pop_cases
    · simp only [perform, hp] at h
      cases h
    · simp only [perform, hp]
  | clear => cases h

/-- A push that goes through writes the slot at the old depth and no other. -/
theorem slots_push (s : CallStack) (address : UInt16) (hroom : s.depth < 16) (i : Nat) :
    (s.perform (.push address)).2.slots[i]? =
      if i = s.depth then some address else s.slots[i]? := by
  simp only [perform, push_of_lt hroom, Vector.getElem?_setIfInBounds, if_pos hroom, eq_comm]

theorem slots_pop (s : CallStack) : (s.perform .pop).2.slots = s.slots := by
  obtain ⟨t, address, hp⟩ | ⟨-, hp⟩ := s.pop_cases
  · obtain ⟨depth, -, rfl, -⟩ := eq_of_pop hp
    simp only [perform, hp]
  · simp only [perform, hp]

/-- **The call stack is a list of at most sixteen addresses.** Requests are answered as by the
list, the refused ones included, and what is live is the list. Of the slots only the one at the
old depth changes, and only by a push that goes through; a refused request changes nothing. -/
theorem represents_bounded_list (edits : List Edit) :
    let s := (run perform empty edits).2
    let addresses := (run performOnList [] edits).2
    (run perform empty edits).1 = (run performOnList [] edits).1 ∧
    s.live = addresses ∧ s.depth = addresses.length ∧ addresses.length ≤ 16 ∧
    (s.isEmpty = true ↔ addresses = []) ∧
    (∀ edit, (s.perform edit).1 = (performOnList addresses edit).1) ∧
    (∀ edit fault, (s.perform edit).1 = .error fault → (s.perform edit).2 = s) ∧
    (∀ address, addresses.length < 16 → ∀ i, (s.perform (.push address)).2.slots[i]? =
      if i = s.depth then some address else s.slots[i]?) ∧
    (s.perform .pop).2.slots = s.slots ∧ (s.perform .clear).2.slots = s.slots := by
  intro s addresses
  obtain ⟨hanswers, hs⟩ := represents_empty.run edits
  have hempty : s.isEmpty = true ↔ addresses = [] := by
    unfold isEmpty
    rw [beq_iff_eq, hs.depth, List.length_eq_zero_iff]
  exact ⟨hanswers, hs.live, hs.depth, hs.bounded, hempty, fun edit => (hs.perform edit).1,
    fun edit fault h => s.perform_of_error h,
    fun address hroom => s.slots_push address (hs.depth ▸ hroom), s.slots_pop, rfl⟩

/-- A seventeenth push is refused, and an address that was popped and cleared is still in its
slot when the next push goes to the bottom. -/
theorem represents_bounded_list_of_overflow :
    let edits : List Edit := List.replicate 17 (.push 0x202) ++ [.pop, .push 0x404, .clear]
    let s := (run perform empty edits).2
    (run perform empty edits).1[16]? = some (.error .stackOverflow) ∧ s.live = [] ∧
    (s.perform .pop).1 = .error .stackUnderflow ∧ (s.perform .pop).2 = s ∧
    (run performOnList [] edits).2.length < 16 ∧
    (s.perform (.push 0x808)).2.slots[0]? = some 0x808 ∧
    (s.perform (.push 0x808)).2.slots[15]? = some 0x404 := by
  intro edits s
  obtain ⟨hanswers, hlive, -, -, -, hanswer, hkept, hpush, -, -⟩ := represents_bounded_list edits
  have hrefused : (s.perform .pop).1 = .error .stackUnderflow := (hanswer .pop).trans rfl
  have hroom : (run performOnList [] edits).2.length < 16 := by decide
  refine ⟨?_, hlive.trans rfl, hrefused, hkept .pop .stackUnderflow hrefused, hroom, ?_, ?_⟩
  · rw [hanswers]
    rfl
  · exact (hpush 0x808 hroom 0).trans rfl
  · exact (hpush 0x808 hroom 15).trans rfl

end Chip8.CallStack
