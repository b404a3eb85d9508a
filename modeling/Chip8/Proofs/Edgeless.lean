import Chip8.Plane
import Chip8.Proofs.Calls
import Chip8.Proofs.Simulation
import Chip8.Proofs.Trace

/-!
# The edge of the screen shows only where it is crossed

A plane has no edges, and the screen drops what is drawn past its own. Inside the grid
the two are lit and darkened alike, so a run that never draws past the edge cannot tell
on which of them it draws: the same pixels are lit, hence the same flags are raised, and
the machines stay equal in everything but the surface.

A sprite that does cross the edge leaves the grid alike on both. Only the flag can
differ: the plane may have met a pixel beyond the edge that the screen cannot hold.
-/

namespace Chip8

/-! ## Drawing on two surfaces -/

namespace Sprite

section Relation

variable {σ τ : Type} [Surface σ] [Surface τ] {R : σ × Bool → τ × Bool → Prop}
  {P : Nat → Nat → Prop}
  (hpixel : ∀ {s t} (x y : Nat) (row : UInt8) (column : Nat), P (x + column) y → R s t →
    R (drawPixel x y row s column) (drawPixel x y row t column))

include hpixel

theorem drawRow_relation {x y : Nat} (hP : ∀ column < 8, P (x + column) y) {s : σ × Bool}
    {t : τ × Bool} (h : R s t) (row : UInt8) : R (drawRow x y s row) (drawRow x y t row) :=
  List.foldl_rel h fun column hc _ _ hr =>
    hpixel x y row column (hP column (List.mem_range.mp hc)) hr

/-- What drawing a pixel of the box preserves, drawing the sprite preserves. -/
theorem draw_relation {x y : Nat} {rows : List UInt8}
    (hP : ∀ column < 8, ∀ k < rows.length, P (x + column) (y + k)) {s : σ × Bool} {t : τ × Bool}
    (h : R s t) : R (draw x y rows s) (draw x y rows t) := by
  induction rows generalizing y s t with
  | nil => exact h
  | cons row rest ih =>
    have hfirst : ∀ column < 8, P (x + column) y :=
      fun column hc => hP column hc 0 (Nat.zero_lt_succ _)
    have hrest : ∀ column < 8, ∀ k < rest.length, P (x + column) (y + 1 + k) := by
      intro column hc k hk
      have hk' := hP column hc (k + 1) (Nat.succ_lt_succ hk)
      rwa [show y + (k + 1) = y + 1 + k by omega] at hk'
    exact ih hrest (drawRow_relation hpixel hfirst h row)

end Relation

theorem drawPixel_fst {σ : Type} [Surface σ] (x y : Nat) (row : UInt8) (state : σ × Bool)
    (column : Nat) :
    (drawPixel x y row state column).1 =
      if Surface.pixel state.1 (x + column) y != Octet.pixel row column
      then Surface.light state.1 (x + column) y else Surface.darken state.1 (x + column) y := by
  simp only [drawPixel]
  split <;> rfl

theorem drawPixel_snd {σ : Type} [Surface σ] (x y : Nat) (row : UInt8) (state : σ × Bool)
    (column : Nat) :
    (drawPixel x y row state column).2 = (state.2 || Surface.pixel state.1 (x + column) y) := by
  simp only [drawPixel]
  split <;> rfl

end Sprite

/-! ## A screen beside a plane -/

namespace Screen

/-- The pixel lies in the grid. -/
def InGrid (x y : Nat) : Prop :=
  x < width ∧ y < height

instance (x y : Nat) : Decidable (InGrid x y) :=
  inferInstanceAs (Decidable (_ ∧ _))

theorem InGrid.ne_of_not {x y x' y' : Nat} (h : InGrid x' y') (hxy : ¬InGrid x y) :
    ¬(x = x' ∧ y = y') := by
  rintro ⟨rfl, rfl⟩
  exact hxy h

/-- The screen has a byte for each pixel of the grid, and there the plane is lit where the
screen is. -/
structure AgreesOnGrid (s : Screen) (p : Plane) : Prop where
  holds : ∀ x y, s.Holds x y
  pixel_eq : ∀ x y, InGrid x y → Surface.pixel p x y = Surface.pixel s x y

/-- The screen has a byte for each pixel of the grid, and the plane is lit in the pixels of the
grid that are lit on the screen, and in no others. -/
structure SamePicture (s : Screen) (p : Plane) : Prop where
  holds : ∀ x y, s.Holds x y
  lit_iff : ∀ x y, Surface.pixel p x y = true ↔
    x < width ∧ y < height ∧ Surface.pixel s x y = true

theorem samePicture_blank : SamePicture blank Plane.empty where
  holds := complete_blank.holds
  lit_iff x y := by
    have hs : Surface.pixel blank x y = false := pixel_blank x y
    simp [Plane.pixel_empty, hs]

namespace AgreesOnGrid

variable {s : Screen} {p : Plane}

theorem light (h : AgreesOnGrid s p) (x y : Nat) :
    AgreesOnGrid (Surface.light s x y) (Surface.light p x y) where
  holds x' y' := (h.holds x' y').congr (size_light s x y)
  pixel_eq x' y' hgrid := by
    rw [Plane.pixel_light, h.pixel_eq x' y' hgrid]
    by_cases hxy : InGrid x y
    · exact (Screen.pixel_light (h.holds x y) hxy.1 hxy.2 x' y').symm
    · have hs : Surface.light s x y = s := light_of_not_lt s hxy
      rw [hs, decide_eq_false (hgrid.ne_of_not hxy), Bool.or_false]

theorem darken (h : AgreesOnGrid s p) (x y : Nat) :
    AgreesOnGrid (Surface.darken s x y) (Surface.darken p x y) where
  holds x' y' := (h.holds x' y').congr (size_darken s x y)
  pixel_eq x' y' hgrid := by
    rw [Plane.pixel_darken, h.pixel_eq x' y' hgrid]
    by_cases hxy : InGrid x y
    · exact (Screen.pixel_darken (h.holds x y) hxy.1 hxy.2 x' y').symm
    · have hs : Surface.darken s x y = s := darken_of_not_lt s hxy
      rw [hs, decide_eq_false (hgrid.ne_of_not hxy), Bool.not_false, Bool.and_true]

theorem lit_of_lit (h : AgreesOnGrid s p) {x y : Nat} (hl : Surface.pixel s x y = true) :
    Surface.pixel p x y = true := by
  by_cases hxy : InGrid x y
  · rw [h.pixel_eq x y hxy, hl]
  · have hs : Surface.pixel s x y = false := pixel_of_not_lt s hxy
    rw [hs] at hl
    cases hl

/-- Drawing one pixel, anywhere, leaves the grid alike. -/
theorem drawPixel {s : Screen × Bool} {p : Plane × Bool} (h : AgreesOnGrid s.1 p.1) (x y : Nat)
    (row : UInt8) (column : Nat) :
    AgreesOnGrid (Sprite.drawPixel x y row s column).1 (Sprite.drawPixel x y row p column).1 := by
  rw [Sprite.drawPixel_fst, Sprite.drawPixel_fst]
  by_cases hxy : InGrid (x + column) y
  · rw [h.pixel_eq _ _ hxy]
    split
    · exact h.light _ _
    · exact h.darken _ _
  · -- past the edge the screen takes no change, so it does not matter which one it is offered
    have hlight : Surface.light s.1 (x + column) y = s.1 := light_of_not_lt s.1 hxy
    have hdarken : Surface.darken s.1 (x + column) y = s.1 := darken_of_not_lt s.1 hxy
    have hl := h.light (x + column) y
    have hd := h.darken (x + column) y
    rw [hlight] at hl
    rw [hdarken] at hd
    rw [hlight, hdarken, ite_self]
    split
    · exact hl
    · exact hd

end AgreesOnGrid

namespace SamePicture

variable {s : Screen} {p : Plane}

theorem agreesOnGrid (h : SamePicture s p) : AgreesOnGrid s p where
  holds := h.holds
  pixel_eq x y hxy := by
    rw [Bool.eq_iff_iff, h.lit_iff]
    exact ⟨fun hl => hl.2.2, fun hl => ⟨hxy.1, hxy.2, hl⟩⟩

/-- A plane with the grid of a screen and nothing beyond it shows the same picture. -/
theorem of_agreesOnGrid (h : AgreesOnGrid s p)
    (hdark : ∀ x y, Surface.pixel p x y = true → InGrid x y) : SamePicture s p where
  holds := h.holds
  lit_iff x y := by
    constructor
    · intro hl
      have hxy := hdark x y hl
      exact ⟨hxy.1, hxy.2, h.pixel_eq x y hxy ▸ hl⟩
    · rintro ⟨hx, hy, hl⟩
      rw [h.pixel_eq x y ⟨hx, hy⟩, hl]

theorem inGrid_of_lit (h : SamePicture s p) {x y : Nat} (hl : Surface.pixel p x y = true) :
    InGrid x y :=
  have hxy := (h.lit_iff x y).mp hl
  ⟨hxy.1, hxy.2.1⟩

theorem light (h : SamePicture s p) {x y : Nat} (hxy : InGrid x y) :
    SamePicture (Surface.light s x y) (Surface.light p x y) := by
  refine of_agreesOnGrid (h.agreesOnGrid.light x y) fun x' y' hl => ?_
  rw [Plane.pixel_light, Bool.or_eq_true, decide_eq_true_eq] at hl
  obtain hl | ⟨rfl, rfl⟩ := hl
  · exact h.inGrid_of_lit hl
  · exact hxy

theorem darken (h : SamePicture s p) (x y : Nat) :
    SamePicture (Surface.darken s x y) (Surface.darken p x y) := by
  refine of_agreesOnGrid (h.agreesOnGrid.darken x y) fun x' y' hl => ?_
  rw [Plane.pixel_darken, Bool.and_eq_true] at hl
  exact h.inGrid_of_lit hl.1

theorem clear (h : SamePicture s p) : SamePicture (Surface.clear s) (Surface.clear p) where
  holds x y := (h.holds x y).congr (size_clear s)
  lit_iff x y := by
    have hs : Surface.pixel (Surface.clear s) x y = false := pixel_clear s x y
    have hp : Surface.pixel (Surface.clear p) x y = false := Plane.pixel_empty x y
    simp [hs, hp]

theorem drawPixel {s : Screen × Bool} {p : Plane × Bool} (h : SamePicture s.1 p.1) (x y : Nat)
    (row : UInt8) {column : Nat} (hxy : InGrid (x + column) y) :
    SamePicture (Sprite.drawPixel x y row s column).1
      (Sprite.drawPixel x y row p column).1 := by
  rw [Sprite.drawPixel_fst, Sprite.drawPixel_fst, h.agreesOnGrid.pixel_eq _ _ hxy]
  split
  · exact h.light hxy
  · exact h.darken _ _

end SamePicture

end Screen

/-! ## Machines on a screen and on a plane -/

/-- The request changes pixels of the grid only. -/
def Surface.Edit.InGrid : Surface.Edit → Prop
  | .light x y => Screen.InGrid x y
  | .darken x y => Screen.InGrid x y
  | .clear => True

/-- If the instruction draws a sprite, its box lies in the grid. -/
def Execution.DrawsInGrid {σ : Type} (e : Execution σ) : Prop :=
  ∀ x y n, e.instruction = .draw x y n →
    (e.before.v.read x.toNat).toNat + 8 ≤ 64 ∧ (e.before.v.read y.toNat).toNat + n.toNat ≤ 32

theorem Registers.flag_lt : Registers.flag < 16 := by decide

theorem flagByte_eq_one_iff (b : Bool) : flagByte b = 1 ↔ b = true := by
  cases b <;> decide

namespace Machine

/-- Machines that differ in nothing but their surfaces, which are related by `S`. -/
structure Twin {σ τ : Type} (S : σ → τ → Prop) (m : Machine σ) (n : Machine τ) : Prop where
  kin : Kin Eq S m n
  /-- Being kin says nothing of the dead slots. -/
  stack : m.stack = n.stack

/-- At power-on only the surfaces can differ. -/
theorem twin_initial {σ τ : Type} {S : σ → τ → Prop} {surface : σ} {other : τ}
    (h : S surface other) : Twin S (initial surface) (initial other) where
  kin :=
    { memory := rfl, stack := ⟨rfl, .nil⟩, pc := rfl, index := rfl, v := rfl, delay := rfl,
      sound := rfl, keys := rfl, surface := h, beeps := rfl, status := rfl, redraw := rfl,
      cycle := rfl }
  stack := rfl

section Stack

variable {σ τ : Type} {m : Machine σ} {n : Machine τ}

theorem stack_skipIf (m : Machine σ) (condition : Bool) : (m.skipIf condition).stack = m.stack := by
  cases condition <;> rfl

theorem stack_andThen_finish (o : Outcome σ Unit) :
    (o.andThen fun m _ => .done m.finish ()).machine.stack = o.machine.stack := by
  obtain ⟨m, a, rfl⟩ | ⟨m, fault, rfl⟩ := o.done_or_refused <;> rfl

variable [Surface σ] [Surface τ]

/-- What an instruction makes of the stack depends on the stack and the program counter. -/
theorem stack_execute_congr (hs : m.stack = n.stack) (hpc : m.pc = n.pc) (noise : UInt8)
    (i : Instruction) : (m.execute noise i).machine.stack = (n.execute noise i).machine.stack := by
  cases i with
  | ret =>
    simp only [execute, hs]
    rcases n.stack.pop with ⟨stack, fault | address⟩ <;> rfl
  | call a =>
    simp only [execute, hs, hpc]
    rcases n.stack.push n.pc with ⟨stack, fault | _⟩ <;> rfl
  | skipIfByte | skipUnlessByte | skipIfSame | skipUnlessSame | skipIfHeld | skipIfLoose =>
    exact (m.stack_skipIf _).trans (hs.trans (n.stack_skipIf _).symm)
  | _ => exact hs

end Stack

namespace Twin

variable {σ τ : Type} [Surface σ] [Surface τ] {S : σ → τ → Prop} {m : Machine σ} {n : Machine τ}

theorem stack_step (h : Twin S m n) (noise : UInt8) :
    (m.step noise).machine.stack = (n.step noise).machine.stack := by
  cases hr : m.isRunning with
  | false =>
    rw [step_of_not_running hr, step_of_not_running (h.kin.isRunning ▸ hr)]
    exact h.stack
  | true =>
    have hr' : n.isRunning = true := h.kin.isRunning ▸ hr
    have hw := h.kin.nextWord steady_eq
    cases hd : Instruction.decode m.nextWord with
    | none =>
      rw [step_of_decode_eq_none hr hd, step_of_decode_eq_none hr' (hw ▸ hd)]
      exact h.stack
    | some i =>
      have hpc : m.advance.pc = n.advance.pc := congrArg (· + 2) h.kin.pc
      rw [step_of_decode_eq_some hr hd, step_of_decode_eq_some hr' (hw ▸ hd),
        stack_andThen_finish, stack_andThen_finish]
      exact stack_execute_congr (m := m.advance) (n := n.advance) h.stack hpc noise i

end Twin

/-! ### In the grid -/

namespace Twin

open Screen (SamePicture AgreesOnGrid)

variable {m : Machine Screen} {n : Machine Plane}

theorem drawSprite (h : Kin Eq SamePicture m n) {x y k : Nat}
    (hx : (m.v.read x).toNat + 8 ≤ 64) (hy : (m.v.read y).toNat + k ≤ 32) :
    Kin Eq SamePicture (m.drawSprite x y k) (n.drawSprite x y k) := by
  have hbox : ∀ column < 8, ∀ j < (m.memory.fetch m.index.toNat k).length,
      Screen.InGrid ((m.v.read x).toNat + column) ((m.v.read y).toNat + j) := by
    intro column hc j hj
    rw [Memory.length_fetch] at hj
    constructor
    · simp only [Screen.width]
      omega
    · simp only [Screen.height]
      omega
  let R (s : Screen × Bool) (t : Plane × Bool) := SamePicture s.1 t.1 ∧ s.2 = t.2
  have hpixel {s : Screen × Bool} {t : Plane × Bool} (x y : Nat) (row : UInt8) (column : Nat)
      (hxy : Screen.InGrid (x + column) y) (hst : R s t) :
      R (Sprite.drawPixel x y row s column) (Sprite.drawPixel x y row t column) := by
    constructor
    · exact hst.1.drawPixel x y row hxy
    · rw [Sprite.drawPixel_snd, Sprite.drawPixel_snd, hst.2,
        hst.1.agreesOnGrid.pixel_eq _ _ hxy]
  have hblank : R (m.surface, false) (n.surface, false) := ⟨h.surface, rfl⟩
  obtain ⟨hsurface, hhit⟩ : R _ _ := Sprite.draw_relation hpixel hbox hblank
  simp only [Machine.drawSprite, ← h.v, ← h.fetch steady_eq, hhit]
  exact { h with surface := hsurface, v := rfl, redraw := rfl }

theorem step (h : Twin SamePicture m n) {noise : UInt8}
    (hdraw : ∀ e ∈ m.executions [.step noise], e.DrawsInGrid) :
    (m.step noise).Agree (Twin SamePicture) (n.step noise) := by
  have hkin : (m.step noise).Agree (Kin Eq SamePicture) (n.step noise) := by
    cases hr : m.isRunning with
    | false =>
      rw [step_of_not_running hr, step_of_not_running (h.kin.isRunning ▸ hr)]
      exact .done h.kin ()
    | true =>
      refine h.kin.step steady_eq h.kin.surface.clear noise fun x y k hd => ?_
      have hok : (m.step noise).result = .ok () := by
        rw [step_of_decode_eq_some hr hd]
        rfl
      have he := executions_of_some ((executed?_of_ok hr hok).trans hd) []
      have hbox := hdraw _ (he ▸ List.mem_cons_self) x y k rfl
      exact drawSprite (h.kin.advance steady_eq) hbox.1 hbox.2
  exact ⟨⟨hkin.machine, h.stack_step noise⟩, hkin.result⟩

theorem stepsFrom (h : Twin SamePicture m n) {noise : Nat → UInt8} {first count : Nat}
    (hdraw : ∀ e ∈ m.executions (strides noise first count m), e.DrawsInGrid) :
    (stepsFrom noise first count m).Agree (Twin SamePicture)
      (Machine.stepsFrom noise first count n) := by
  induction count generalizing first m n with
  | zero => exact .done h ()
  | succ count ih =>
    rw [strides, ← List.singleton_append, executions_append] at hdraw
    have hstep := h.step fun e he => hdraw e (List.mem_append_left _ he)
    rw [stepsFrom_succ, stepsFrom_succ]
    obtain ⟨m', n', a, hm, hn, hmn⟩ | ⟨m', n', fault, hm, hn, hmn⟩ := hstep.done_or_refused
    · rw [hm, hn]
      refine ih hmn fun e he => hdraw e (List.mem_append_right _ ?_)
      rw [after_cons, after_nil, perform, Outcome.machine_plain, hm]
      exact he
    · rw [hm, hn]
      exact .refused hmn fault

theorem stack_perform (h : Twin SamePicture m n) {command : Command}
    (hdraw : ∀ e ∈ m.executions (m.moves command), e.DrawsInGrid) :
    (m.perform command).machine.stack = (n.perform command).machine.stack := by
  by_cases hreq : command.IsRequest
  · rw [(m.keptBy_of_isRequest hreq).stack, (n.keptBy_of_isRequest hreq).stack]
    exact h.stack
  · cases command with
    | step noise =>
      simp only [Machine.perform, Outcome.machine_plain]
      exact h.stack_step noise
    | multistep noise count =>
      simp only [Machine.perform, Outcome.machine_plain]
      exact (h.stepsFrom hdraw).machine.stack
    | reset => exact congrArg CallStack.clear h.stack
    | _ => exact absurd trivial hreq

theorem perform (h : Twin SamePicture m n) {command : Command}
    (hpaint : ∀ edit, command = .paint edit → edit.InGrid)
    (hdraw : ∀ e ∈ m.executions (m.moves command), e.DrawsInGrid) :
    (m.perform command).Agree (Twin SamePicture) (n.perform command) := by
  have hkin : (m.perform command).Agree (Kin Eq SamePicture) (n.perform command) := by
    apply h.kin.perform steady_eq h.kin.surface.clear
    · rintro noise rfl
      have hs := h.step hdraw
      exact ⟨hs.machine.kin, hs.result⟩
    · rintro noise count rfl
      have hs := h.stepsFrom hdraw
      exact ⟨hs.machine.kin, hs.result⟩
    · rintro edit rfl
      have hin := hpaint edit rfl
      cases edit with
      | light x y => exact h.kin.surface.light hin
      | darken x y => exact h.kin.surface.darken x y
      | clear => exact h.kin.surface.clear
  exact ⟨⟨hkin.machine, h.stack_perform hdraw⟩, hkin.result⟩

/-- Twins answer a history alike and stay twins, if it draws and paints in the grid. -/
theorem history (h : Twin SamePicture m n) {history : List Command}
    (hpaint : ∀ edit, .paint edit ∈ history → edit.InGrid)
    (hdraw : ∀ e ∈ m.trace history, e.DrawsInGrid) :
    m.answers history = n.answers history ∧
    ∀ k, Twin SamePicture (m.after (history.take k)) (n.after (history.take k)) := by
  induction history generalizing m n with
  | nil => exact ⟨rfl, fun k => by simpa using h⟩
  | cons command rest ih =>
    rw [trace_cons] at hdraw
    have hc := h.perform (fun edit he => hpaint edit (he ▸ List.mem_cons_self))
      fun e he => hdraw e (List.mem_append_left _ he)
    obtain ⟨ha, hk⟩ := ih hc.machine (fun edit he => hpaint edit (List.mem_cons_of_mem _ he))
      fun e he => hdraw e (List.mem_append_right _ he)
    refine ⟨?_, fun k => ?_⟩
    · rw [answers, answers, hc.result, ha]
    · cases k with
      | zero => exact h
      | succ k => exact hk k

/-! ### Across the edge -/

/-- A sprite drawn anywhere leaves the grid alike, and the screen meets no lit pixel that the
plane does not meet. -/
theorem drawSprite_agrees (h : Kin Eq AgreesOnGrid m n) (x y k : Nat) :
    AgreesOnGrid (m.drawSprite x y k).surface (n.drawSprite x y k).surface ∧
    ((m.drawSprite x y k).v.read Registers.flag = 1 →
      (n.drawSprite x y k).v.read Registers.flag = 1) := by
  let P (_ _ : Nat) := True
  let R (s : Screen × Bool) (t : Plane × Bool) := AgreesOnGrid s.1 t.1 ∧ (s.2 = true → t.2 = true)
  have hpixel {s : Screen × Bool} {t : Plane × Bool} (x y : Nat) (row : UInt8) (column : Nat)
      (_ : P (x + column) y) (hst : R s t) :
      R (Sprite.drawPixel x y row s column) (Sprite.drawPixel x y row t column) := by
    constructor
    · exact hst.1.drawPixel x y row column
    · rw [Sprite.drawPixel_snd, Sprite.drawPixel_snd, Bool.or_eq_true, Bool.or_eq_true]
      exact Or.imp hst.2 hst.1.lit_of_lit
  have hblank : R (m.surface, false) (n.surface, false) := ⟨h.surface, id⟩
  obtain ⟨hsurface, hhit⟩ : R _ _ :=
    Sprite.draw_relation hpixel (fun _ _ _ _ => trivial) hblank
  simp only [Machine.drawSprite, ← h.v, ← h.fetch steady_eq,
    Registers.read_write _ Registers.flag_lt, ite_true, flagByte_eq_one_iff]
  exact ⟨hsurface, hhit⟩

end Twin

/-- **The edge of the screen shows only where it is crossed.** On a screen and on a plane with
the same picture, for instance a blank one, machines that are equal otherwise answer a history
alike and stay so, as long as every sprite that is drawn and every pixel that is painted lies in
the grid. A sprite drawn anywhere leaves the grid alike, and raises the flag on the screen only
if it does so on the plane. -/
theorem answers_on_plane :
    (∀ {m : Machine Screen} {n : Machine Plane} {history : List Command},
      Twin Screen.SamePicture m n →
      (∀ edit, .paint edit ∈ history → edit.InGrid) →
      (∀ e ∈ m.trace history, e.DrawsInGrid) →
      m.answers history = n.answers history ∧
      ∀ k, Twin Screen.SamePicture (m.after (history.take k)) (n.after (history.take k))) ∧
    ∀ {m : Machine Screen} {n : Machine Plane}, Twin Screen.AgreesOnGrid m n →
      ∀ noise x y k,
      let onScreen := (m.execute noise (.draw x y k)).machine
      let onPlane := (n.execute noise (.draw x y k)).machine
      Screen.AgreesOnGrid onScreen.surface onPlane.surface ∧
      (onScreen.v.read Registers.flag = 1 → onPlane.v.read Registers.flag = 1) :=
  ⟨fun h hpaint hdraw => h.history hpaint hdraw,
    fun h _ x y k => Twin.drawSprite_agrees h.kin x.toNat y.toNat k.toNat⟩

/-- A digit in the last corner of the grid, over a pixel that was painted there, and a digit of
which all but two columns lie past the edge. -/
theorem answers_on_plane_of_digit_in_corner :
    let memory := Memory.initial.store 0x200 [0xd0, 0x15]
    let m : Machine Screen := { initial Screen.blank with memory := memory }
    let n : Machine Plane := { initial Plane.empty with memory := memory }
    let history : List Command :=
      [.setRegister 0 56, .setRegister 1 27, .paint (.light 63 31), .multistep (fun _ => 0) 1,
        .reset]
    let onScreen := ((m.setV 0 62).execute 0 (.draw 0 1 5)).machine
    let onPlane := ((n.setV 0 62).execute 0 (.draw 0 1 5)).machine
    Twin Screen.SamePicture m n ∧ (∀ edit, .paint edit ∈ history → edit.InGrid) ∧
    (∀ e ∈ m.trace history, e.DrawsInGrid) ∧ m.answers history = n.answers history ∧
    (∀ k, Twin Screen.SamePicture (m.after (history.take k)) (n.after (history.take k))) ∧
    Twin Screen.AgreesOnGrid (m.setV 0 62) (n.setV 0 62) ∧
    Screen.AgreesOnGrid onScreen.surface onPlane.surface ∧
    (onScreen.v.read Registers.flag = 1 → onPlane.v.read Registers.flag = 1) := by
  intro memory m n history onScreen onPlane
  have hstart := twin_initial Screen.samePicture_blank
  have htwin : Twin Screen.SamePicture m n := ⟨{ hstart.kin with memory := rfl }, rfl⟩
  have hfar : Twin Screen.AgreesOnGrid (m.setV 0 62) (n.setV 0 62) :=
    ⟨{ htwin.kin.setV 0 62 with surface := Screen.samePicture_blank.agreesOnGrid }, rfl⟩
  have hpaint : ∀ edit, .paint edit ∈ history → edit.InGrid := by
    intro edit he
    obtain rfl : edit = .light 63 31 := by simpa [history] using he
    exact ⟨by decide, by decide⟩
  have htrace : (m.trace history).map
      (fun e => (e.instruction, e.before.v.read 0, e.before.v.read 1)) =
      [(.draw 0 1 5, 56, 27)] := by
    decide +kernel
  have hdraw : ∀ e ∈ m.trace history, e.DrawsInGrid := by
    intro e he x y k hi
    have hmem := List.mem_map_of_mem
      (f := fun e => (e.instruction, e.before.v.read 0, e.before.v.read 1)) he
    rw [htrace, List.mem_singleton, hi] at hmem
    simp only [Prod.mk.injEq, Instruction.draw.injEq] at hmem
    obtain ⟨⟨rfl, rfl, rfl⟩, hx, hy⟩ := hmem
    show (e.before.v.read 0).toNat + 8 ≤ 64 ∧ (e.before.v.read 1).toNat + 5 ≤ 32
    rw [hx, hy]
    decide
  obtain ⟨hanswers, hafter⟩ := answers_on_plane.1 htwin hpaint hdraw
  exact ⟨htwin, hpaint, hdraw, hanswers, hafter, hfar, answers_on_plane.2 hfar 0 0 1 5⟩

end Machine

end Chip8
