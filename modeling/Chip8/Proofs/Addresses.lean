import Chip8.Proofs.Simulation
import Chip8.Screen

/-!
# Only the lowest twelve bits of an address can be observed

Program counter, index and return addresses have sixteen bits, and memory has room
for twelve. Sixteen bits wrap at a multiple of the size of memory, so two addresses
with the same byte keep naming the same byte when they move. Machines whose
addresses differ only in the upper bits are therefore told apart by no history, and
neither are machines with different addresses in the dead slots of their stacks.
-/

namespace Chip8

/-- The addresses name the same byte of memory. -/
def SameCell (a b : UInt16) : Prop :=
  a.toNat % Memory.size = b.toNat % Memory.size

instance (a b : UInt16) : Decidable (SameCell a b) :=
  inferInstanceAs (Decidable (_ = _))

theorem steady_sameCell : Steady SameCell where
  refl _ := rfl
  add {a b} h c := by
    simp only [SameCell, Memory.size, UInt16.toNat_add] at h ⊢
    omega
  cell h := h

namespace Machine

/-- **Only the lowest twelve bits of an address can be observed.** Machines that agree up to
the bytes that their addresses name answer every history alike, and agree in the same way
after each of its commands. -/
theorem answers_of_sameCell {σ : Type} [Surface σ] {m n : Machine σ} (h : Kin SameCell Eq m n)
    (history : List Command) :
    m.answers history = n.answers history ∧
    ∀ k, Kin SameCell Eq (m.after (history.take k)) (n.after (history.take k)) :=
  ⟨(h.history_of_eq steady_sameCell history).1,
    fun k => (h.history_of_eq steady_sameCell (history.take k)).2⟩

/-- Two machines at the last byte of memory whose next word wraps, with a live return address
and dead slots that differ. -/
theorem answers_of_sameCell_at_last_byte :
    let m : Machine Screen :=
      { Machine.initial Screen.blank with
        pc := 0x0fff, index := 0x0ffe, stack := ⟨Vector.replicate 16 0x0302, 1⟩ }
    let n : Machine Screen :=
      { Machine.initial Screen.blank with
        pc := 0x1fff, index := 0xfffe, stack := ⟨(Vector.replicate 16 0).set 0 0x4302, 1⟩ }
    let history : List Command :=
      [.edit (.writeWord 0x0fff 0x00ee), .step 0, .press 3, .edit (.writeWord 0x0302 0xfa55),
        .multistep (fun k => UInt8.ofNat k) 5, .setRegister 16 0, .edit (.writeWord 0x0304 0xbfff)]
    Kin SameCell Eq m n ∧ m.answers history = n.answers history ∧
    ∀ k, Kin SameCell Eq (m.after (history.take k)) (n.after (history.take k)) := by
  intro m n history
  have h : Kin SameCell Eq m n :=
    { memory := rfl, stack := ⟨rfl, .cons (by decide) .nil⟩, pc := by decide, index := by decide,
      v := rfl, delay := rfl, sound := rfl, keys := rfl, surface := rfl, beeps := rfl,
      status := rfl, redraw := rfl, cycle := rfl }
  exact ⟨h, answers_of_sameCell h history⟩

end Machine

end Chip8
