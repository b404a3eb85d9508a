import Chip8.Surface

/-!
# A surface without edges

A plane is the set of its lit coordinates, which may be any pair of numbers. It
is kept as a list without repetitions, ordered by column and then by row, so
planes with the same lit pixels are equal.
-/

namespace Chip8

/-- The lit coordinates, ordered by column and then by row. -/
structure Plane where
  lit : List (Nat × Nat)
  deriving DecidableEq

namespace Plane

def empty : Plane := ⟨[]⟩

/-- `p` comes before `q`: it is further left, or in the same column and further up. -/
def Before (p q : Nat × Nat) : Prop :=
  p.1 < q.1 ∨ p.1 = q.1 ∧ p.2 < q.2

instance (p q : Nat × Nat) : Decidable (Before p q) :=
  inferInstanceAs (Decidable (_ ∨ _))

/-- Puts a coordinate in its place, unless it is there already. -/
def insert (p : Nat × Nat) : List (Nat × Nat) → List (Nat × Nat)
  | [] => [p]
  | q :: rest =>
    if Before p q then p :: q :: rest
    else if p = q then q :: rest
    else q :: insert p rest

instance : Surface Plane where
  pixel plane x y := plane.lit.contains (x, y)
  light plane x y := ⟨insert (x, y) plane.lit⟩
  darken plane x y := ⟨plane.lit.filter (· != (x, y))⟩
  clear _ := empty

theorem mem_insert {p q : Nat × Nat} {coordinates : List (Nat × Nat)} :
    q ∈ insert p coordinates ↔ q = p ∨ q ∈ coordinates := by
  induction coordinates with
  | nil => simp [insert]
  | cons r rest ih =>
    simp only [insert]
    split
    · simp
    · split
      · rename_i h
        simp [h]
      · simp only [List.mem_cons, ih]
        constructor
        · rintro (h | h | h) <;> simp [h]
        · rintro (h | h | h) <;> simp [h]

theorem pixel_light (plane : Plane) (x y x' y' : Nat) :
    Surface.pixel (Surface.light plane x y) x' y' =
      (Surface.pixel plane x' y' || decide (x = x' ∧ y = y')) := by
  have h : (x', y') = (x, y) ↔ x = x' ∧ y = y' := by
    simp only [Prod.mk.injEq, eq_comm]
  simp only [Surface.pixel, Surface.light, List.contains_eq_mem, mem_insert, h,
    Bool.decide_or, Bool.or_comm]

theorem pixel_darken (plane : Plane) (x y x' y' : Nat) :
    Surface.pixel (Surface.darken plane x y) x' y' =
      (Surface.pixel plane x' y' && !decide (x = x' ∧ y = y')) := by
  have h : ((x', y') != (x, y)) = !decide (x = x' ∧ y = y') := by
    by_cases he : x = x' ∧ y = y'
    · simp [he]
    · have hn : (x', y') ≠ (x, y) := fun hp => he ⟨(Prod.mk.inj hp).1.symm, (Prod.mk.inj hp).2.symm⟩
      rw [bne_iff_ne.mpr hn, decide_eq_false he]
      rfl
  simp only [Surface.pixel, Surface.darken, List.contains_eq_mem, List.mem_filter, h,
    Bool.decide_and, Bool.decide_eq_true]

theorem pixel_empty (x y : Nat) : Surface.pixel empty x y = false := rfl

end Plane

end Chip8
