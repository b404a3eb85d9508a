import Chip8.Proofs.Compositing
import Chip8.Proofs.Footprint
import Chip8.Proofs.WellFormed

/-!
# Sprites combine by parity

A run that only draws turns each pixel over once for every sprite that covers it, so what
becomes of a pixel is known from the number of those sprites, odd or even. What a sprite
covers is settled at the moment it is drawn. Programs may move it, store other bytes under
`I`, or react to a collision as they like, and requests of the host and refused steps may
come in between.

It follows that the order of the sprites does not show in the picture, and that a sprite drawn
twice at one place is gone, with whatever was drawn in between left as it is.
-/

namespace Chip8

/-- The command does not touch pixels except by running instructions. -/
def Command.LeavesPicture : Command → Prop
  | .reset | .paint _ => False
  | _ => True

/-- The sprite that an instruction draws, if it draws one, with the place and the bytes that it
has now. -/
def Machine.stamp? {σ : Type} (m : Machine σ) : Instruction → Option Stamp
  | .draw x y n =>
    some
      { left := (m.v.read x.toNat).toNat
        top := (m.v.read y.toNat).toNat
        rows := m.memory.fetch m.index.toNat n.toNat }
  | _ => none

namespace Stamp

/-- An odd number of the sprites covers the pixel. -/
def flips (stamps : List Stamp) (x y : Nat) : Bool :=
  stamps.countP (·.covers x y) % 2 == 1

variable {stamps : List Stamp}

theorem flips_cons (stamp : Stamp) (stamps : List Stamp) (x y : Nat) :
    flips (stamp :: stamps) x y = (stamp.covers x y ^^ flips stamps x y) := by
  rw [flips, flips, List.countP_cons]
  obtain h | h := Nat.mod_two_eq_zero_or_one (stamps.countP (·.covers x y))
  · cases stamp.covers x y <;> simp [Nat.add_mod, h]
  · cases stamp.covers x y <;> simp [Nat.add_mod, h]

/-- The order of the sprites does not matter. -/
theorem flips_perm {stamps others : List Stamp} (h : stamps.Perm others) (x y : Nat) :
    flips stamps x y = flips others x y := by
  rw [flips, flips, h.countP_eq]

/-- Two sprites that are one and the same cancel out, wherever they stand. -/
theorem flips_twice (front between back : List Stamp) (stamp : Stamp) (x y : Nat) :
    flips (front ++ stamp :: (between ++ stamp :: back)) x y =
      flips (front ++ (between ++ back)) x y := by
  have hperm : (front ++ stamp :: (between ++ stamp :: back)).Perm
      (stamp :: stamp :: (front ++ (between ++ back))) := by
    refine List.perm_middle.trans (List.Perm.cons _ ?_)
    rw [← List.append_assoc, ← List.append_assoc]
    exact List.perm_middle
  rw [flips_perm hperm, flips_cons, flips_cons, ← Bool.xor_assoc, Bool.xor_self, Bool.false_xor]

end Stamp

namespace Machine

/-- The sprites that are drawn, in order. -/
def stampsOf {σ : Type} (executions : List (Execution σ)) : List Stamp :=
  executions.filterMap fun e => e.before.stamp? e.instruction

theorem stamp?_of_not_changesPicture {σ : Type} (m : Machine σ) {i : Instruction}
    (h : ¬i.ChangesPicture) : m.stamp? i = none := by
  cases i with
  | draw x y n => exact absurd trivial h
  | _ => rfl

/-! ## One command -/

section Command

variable {m : Machine Screen} {command : Command} {x y : Nat}

/-- What executes nothing leaves the picture alone. -/
theorem surface_perform_of_executed?_eq_none {σ : Type} [Surface σ] {m : Machine σ}
    {command : Command} (hs : command.IsSingle) (hl : command.LeavesPicture)
    (h : m.executed? command = none) : (m.perform command).machine.surface = m.surface := by
  obtain rfl | hkept | hm | hm := perform_of_executed?_eq_none hs h
  · exact hl.elim
  · apply hkept.surface
    rintro edit rfl
    exact hl
  · rw [hm]
  · rw [hm]
    rfl

/-- An executed instruction other than a clear turns over what its sprite covers, if it has one. -/
theorem pixel_perform_of_executed? (hm : m.surface.Complete) {i : Instruction}
    (h : m.executed? command = some i) (hi : i ≠ .clear) (hp : Screen.InGrid x y) :
    (m.perform command).machine.surface.pixel x y =
      (m.surface.pixel x y ^^ (m.stamp? i).any (·.covers x y)) := by
  obtain ⟨noise, n, hn, hperform⟩ := execute_of_executed? h
  have hsurface : (m.perform command).machine.surface = n.surface := by
    rw [hperform]
    rfl
  rw [hsurface]
  by_cases hpicture : i.ChangesPicture
  · cases i with
    | clear => exact absurd rfl hi
    | draw a b k =>
      obtain rfl : m.advance.drawSprite a.toNat b.toNat k.toNat = n := congrArg Outcome.machine hn
      have hstate : Screen.Complete (m.surface, false).1 := hm
      exact Sprite.pixel_draw hstate hp _ _ _
    | _ => exact hpicture.elim
  · have he := effect_execute m.advance noise i
    rw [hn] at he
    have hkept : n.surface = m.surface := (he.picture hpicture).1
    rw [hkept, m.stamp?_of_not_changesPicture hpicture]
    exact (Bool.xor_false _).symm

end Command

/-! ## Runs -/

/-- Each pixel of the grid is turned over once for every sprite that covers it. -/
theorem pixel_after_executions {m : Machine Screen} (hm : m.WellFormed) {moves : List Command}
    (hmoves : ∀ command ∈ moves, command.IsSingle ∧ command.LeavesPicture)
    (hclear : ∀ e ∈ m.executions moves, e.instruction ≠ .clear) {x y : Nat}
    (hp : Screen.InGrid x y) :
    (m.after moves).surface.pixel x y =
      (m.surface.pixel x y ^^ Stamp.flips (stampsOf (m.executions moves)) x y) := by
  induction moves generalizing m with
  | nil => exact (Bool.xor_false _).symm
  | cons command rest ih =>
    obtain ⟨hs, hl⟩ := hmoves command List.mem_cons_self
    have hrest : ∀ c ∈ rest, c.IsSingle ∧ c.LeavesPicture :=
      fun c hc => hmoves c (List.mem_cons_of_mem command hc)
    have hnext := hm.perform command
    cases hx : m.executed? command with
    | some i =>
      rw [executions_of_some hx] at hclear ⊢
      have hi : i ≠ .clear := hclear _ List.mem_cons_self
      have hone := pixel_perform_of_executed? hm.surface hx hi hp
      rw [after_cons, ih hnext hrest fun e he => hclear e (List.mem_cons_of_mem _ he), hone]
      simp only [stampsOf, List.filterMap_cons]
      cases m.stamp? i with
      | none => simp
      | some stamp => simp [Stamp.flips_cons]
    | none =>
      rw [executions_of_none hx] at hclear ⊢
      have hkept := surface_perform_of_executed?_eq_none hs hl hx
      rw [after_cons, ih hnext hrest hclear, hkept]

/-- The history does not touch pixels except by drawing sprites. -/
structure OnlyDraws {σ : Type} [Surface σ] (m : Machine σ) (history : List Command) : Prop where
  leavesPicture : ∀ command ∈ history, command.LeavesPicture
  not_clear : ∀ e ∈ m.trace history, e.instruction ≠ .clear

/-- The sprites that a history draws, in order. -/
def stamps {σ : Type} [Surface σ] (m : Machine σ) (history : List Command) : List Stamp :=
  stampsOf (m.trace history)

namespace OnlyDraws

variable {m n : Machine Screen} {history other : List Command}

theorem pixel_after (h : m.OnlyDraws history) (hm : m.WellFormed) {x y : Nat}
    (hp : Screen.InGrid x y) :
    (m.after history).surface.pixel x y =
      (m.surface.pixel x y ^^ Stamp.flips (m.stamps history) x y) := by
  have hmoves : ∀ command ∈ m.unroll history, command.IsSingle ∧ command.LeavesPicture := by
    intro command hc
    obtain ⟨hs, ⟨byte, rfl⟩ | hh⟩ := mem_unroll hc
    · exact ⟨hs, trivial⟩
    · exact ⟨hs, h.leavesPicture command hh⟩
  rw [← after_unroll]
  exact pixel_after_executions hm hmoves h.not_clear hp

/-- Runs whose sprites cover each pixel alike, odd or even, turn one picture into one picture. -/
theorem surface_after_eq (h : m.OnlyDraws history) (hm : m.WellFormed) (h' : n.OnlyDraws other)
    (hn : n.WellFormed) (hsurface : n.surface = m.surface)
    (hflips : ∀ x y, Stamp.flips (n.stamps other) x y = Stamp.flips (m.stamps history) x y) :
    (n.after other).surface = (m.after history).surface := by
  refine Screen.eq_of_pixel_eq (hn.after other).surface (hm.after history).surface ?_
  intro x hx y hy
  rw [h'.pixel_after hn ⟨hx, hy⟩, h.pixel_after hm ⟨hx, hy⟩, hsurface, hflips]

end OnlyDraws

/-- **Sprites combine by parity.** In a run without clears, resets and painted pixels each pixel
of the grid ends up turned over if an odd number of the drawn sprites covers it. So two runs
from one picture end with one picture if they draw the same sprites, in whatever order, and a
sprite that is drawn twice might as well not have been drawn. -/
theorem picture_by_parity {m : Machine Screen} {history : List Command} (hm : m.WellFormed)
    (h : m.OnlyDraws history) :
    (∀ x < 64, ∀ y < 32, (m.after history).surface.pixel x y =
      (m.surface.pixel x y ^^ (m.stamps history).countP (·.covers x y) % 2 == 1)) ∧
    (∀ {n : Machine Screen} {other : List Command}, n.WellFormed → n.OnlyDraws other →
      n.surface = m.surface → (n.stamps other).Perm (m.stamps history) →
      (n.after other).surface = (m.after history).surface) ∧
    ∀ {front between back : List Stamp} {stamp : Stamp},
      m.stamps history = front ++ stamp :: (between ++ stamp :: back) →
      (∀ x < 64, ∀ y < 32, (m.after history).surface.pixel x y =
        (m.surface.pixel x y ^^
          (front ++ (between ++ back)).countP (·.covers x y) % 2 == 1)) ∧
      ∀ {n : Machine Screen} {other : List Command}, n.WellFormed → n.OnlyDraws other →
        n.surface = m.surface → (n.stamps other).Perm (front ++ (between ++ back)) →
        (n.after other).surface = (m.after history).surface := by
  have hpixel : ∀ x < 64, ∀ y < 32, (m.after history).surface.pixel x y =
      (m.surface.pixel x y ^^ Stamp.flips (m.stamps history) x y) :=
    fun x hx y hy => h.pixel_after hm ⟨hx, hy⟩
  refine ⟨hpixel, fun hn h' hsurface hperm => ?_, fun hstamps => ⟨fun x hx y hy => ?_, ?_⟩⟩
  · exact h.surface_after_eq hm h' hn hsurface fun x y => Stamp.flips_perm hperm x y
  · rw [hpixel x hx y hy, hstamps, Stamp.flips_twice]
    rfl
  · intro n other hn h' hsurface hperm
    refine h.surface_after_eq hm h' hn hsurface fun x y => ?_
    rw [hstamps, Stamp.flips_twice, Stamp.flips_perm hperm]

/-- A digit clipped at two edges is drawn, another over it, and the first once more. The picture is
that of the other alone. -/
theorem picture_by_parity_of_overdrawn_digit :
    let memory := Memory.initial.store 0x200 [0xd0, 0x15, 0xd2, 0x15, 0xd0, 0x15]
    let m : Machine Screen := { initial Screen.blank with memory := memory }
    let n : Machine Screen := { m with pc := 0x202 }
    let places : List Command := [.setRegister 0 60, .setRegister 1 29, .setRegister 2 62]
    let history := places ++ [.multistep (fun _ => 0) 2, .press 3, .step 0]
    let other := places ++ [.step 0]
    let stamp : Stamp := ⟨60, 29, [0xf0, 0x90, 0x90, 0x90, 0xf0]⟩
    let kept : Stamp := ⟨62, 29, [0xf0, 0x90, 0x90, 0x90, 0xf0]⟩
    m.WellFormed ∧ m.OnlyDraws history ∧
    m.stamps history = [] ++ stamp :: ([kept] ++ stamp :: []) ∧
    n.WellFormed ∧ n.OnlyDraws other ∧ n.surface = m.surface ∧
    (n.stamps other).Perm ([] ++ ([kept] ++ [])) ∧
    (n.after other).surface = (m.after history).surface := by
  intro memory m n places history other stamp kept
  have hm : m.WellFormed :=
    { wellFormed_initial Screen.complete_blank with
      memory := Memory.complete_initial.store _ _ }
  have hn : n.WellFormed := { hm with }
  have hplain {k : Machine Screen} {l : List Command} (hl : ∀ c ∈ l, c.LeavesPicture)
      (hk : ∀ i ∈ (k.trace l).map Execution.instruction, i ≠ .clear) : k.OnlyDraws l :=
    ⟨hl, fun e he => hk _ (List.mem_map_of_mem he)⟩
  have hdraws : m.OnlyDraws history :=
    hplain (by simp [history, places, Command.LeavesPicture]) (by decide +kernel)
  have hdraws' : n.OnlyDraws other :=
    hplain (by simp [other, places, Command.LeavesPicture]) (by decide +kernel)
  have hstamps : m.stamps history = [] ++ stamp :: ([kept] ++ stamp :: []) := by decide +kernel
  have hperm : (n.stamps other).Perm ([] ++ ([kept] ++ [])) := by
    rw [show n.stamps other = [kept] by decide +kernel]
    exact List.Perm.refl _
  exact ⟨hm, hdraws, hstamps, hn, hdraws', rfl, hperm,
    ((picture_by_parity hm hdraws).2.2 hstamps).2 hn hdraws' rfl hperm⟩

end Machine

end Chip8
