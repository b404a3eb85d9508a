import Chip8.Proofs.Execution
import Chip8.Screen

/-!
# A picture that needs no redraw is the one that was drawn

Whatever changes the surface raises the redraw flag: clearing and drawing do so as
instructions, and starting over does so as a request. Only the host lowers the flag,
when it has drawn the picture. So a flag that is down vouches for the picture. It is
bit for bit the one that the host drew last, however many steps were executed, waited
or refused since. Painting behind the machine's back is left out, since it asks for no
redraw.
-/

namespace Chip8.Machine

variable {σ : Type}

/-- Unless the later machine asks for a redraw, the earlier one did not ask for one either and
the picture is still the same. -/
def Vouches (earlier later : Machine σ) : Prop :=
  later.redraw = false → earlier.redraw = false ∧ later.surface = earlier.surface

theorem Vouches.refl (m : Machine σ) : Vouches m m :=
  fun h => ⟨h, rfl⟩

theorem Vouches.trans {m n k : Machine σ} (h : Vouches m n) (h' : Vouches n k) :
    Vouches m k := by
  intro hk
  obtain ⟨hn, hsurface⟩ := h' hk
  obtain ⟨hm, hsurface'⟩ := h hn
  exact ⟨hm, hsurface.trans hsurface'⟩

theorem vouches_of_redraw {m n : Machine σ} (h : n.redraw = true) : Vouches m n := by
  intro hn
  rw [h] at hn
  cases hn

theorem vouches_of_eq {m n : Machine σ} (hredraw : n.redraw = m.redraw)
    (hsurface : n.surface = m.surface) : Vouches m n :=
  fun h => ⟨hredraw ▸ h, hsurface⟩

variable [Surface σ]

theorem Effect.vouches {m : Machine σ} {i : Instruction} {o : Outcome σ Unit}
    (he : Effect m i o) : Vouches m o.machine := by
  cases he with
  | clear => exact vouches_of_redraw rfl
  | draw x y n => exact vouches_of_redraw rfl
  | _ => exact vouches_of_eq rfl rfl

/-- A step raises the flag or leaves the picture alone, also if it waits or is refused. -/
theorem vouches_step (m : Machine σ) (noise : UInt8) : Vouches m (m.step noise).machine := by
  obtain ⟨_, hs⟩ | ⟨_, _, hs⟩ | ⟨i, o, _, _, he, hs⟩ := m.step_cases noise
  · rw [hs]
    exact .refl m
  · rw [hs]
    exact vouches_of_eq rfl rfl
  · have hadvance : Vouches m m.advance := vouches_of_eq rfl rfl
    have hv := hadvance.trans he.vouches
    rw [hs]
    obtain ⟨n, a, rfl⟩ | ⟨n, fault, rfl⟩ := o.done_or_refused
    · exact hv.trans (vouches_of_eq rfl rfl)
    · exact hv

theorem vouches_perform (m : Machine σ) {command : Command} (hclear : command ≠ .clearRedraw)
    (hpaint : ∀ edit, command ≠ .paint edit) : Vouches m (m.perform command).machine := by
  by_cases hreq : command.IsRequest
  · have hkept := m.keptBy_of_isRequest hreq
    exact vouches_of_eq (hkept.redraw hclear) (hkept.surface hpaint)
  · cases command with
    | step noise =>
      rw [perform, Outcome.machine_plain]
      exact m.vouches_step noise
    | multistep noise count =>
      rw [perform, Outcome.machine_plain]
      exact multistep_induction (P := Vouches m)
        (fun n noise h => h.trans (n.vouches_step noise)) (.refl m) noise count
    | reset => exact vouches_of_redraw rfl
    | _ => exact absurd trivial hreq

theorem vouches_after (m : Machine σ) {history : List Command} (hclear : .clearRedraw ∉ history)
    (hpaint : ∀ edit, .paint edit ∉ history) : Vouches m (m.after history) := by
  induction history generalizing m with
  | nil => exact .refl m
  | cons command rest ih =>
    have hc : Vouches m (m.perform command).machine := by
      apply m.vouches_perform
      · rintro rfl
        exact hclear List.mem_cons_self
      · rintro edit rfl
        exact hpaint edit List.mem_cons_self
    exact hc.trans (ih _ (fun h => hclear (List.mem_cons_of_mem _ h))
      fun edit h => hpaint edit (List.mem_cons_of_mem _ h))

/-- **A picture that needs no redraw is the one that was drawn.** If no redraw is asked for, the
surface is what it was when the host last said that it had drawn it, or what it was at power-on
if the host never did. -/
theorem surface_of_redraw_eq_false (surface : σ) {history : List Command}
    (hpaint : ∀ edit, .paint edit ∉ history)
    (hflag : ((initial surface).after history).redraw = false) :
    (.clearRedraw ∉ history → ((initial surface).after history).surface = surface) ∧
    ∀ before rest, history = before ++ .clearRedraw :: rest → .clearRedraw ∉ rest →
      ((initial surface).after history).surface = ((initial surface).after before).surface := by
  constructor
  · intro hclear
    exact (vouches_after _ hclear hpaint hflag).2
  · rintro before rest rfl hclear
    rw [after_append, after_cons] at hflag ⊢
    have hrest : ∀ edit, .paint edit ∉ rest := fun edit h =>
      hpaint edit (List.mem_append_right _ (List.mem_cons_of_mem _ h))
    exact (vouches_after _ hclear hrest hflag).2

/-- A digit is drawn by a step, the host draws the picture, and then a request and a step are
refused. -/
theorem surface_of_redraw_eq_false_of_refusals :
    let before : List Command := [.edit (.writeWord 0x200 0xd005), .step 0]
    let rest : List Command := [.press 99, .step 0]
    let history := before ++ .clearRedraw :: rest
    (∀ edit, .paint edit ∉ history) ∧
    ((initial Screen.blank).after history).redraw = false ∧ .clearRedraw ∉ rest ∧
    ((initial Screen.blank).after history).surface
      = ((initial Screen.blank).after before).surface := by
  intro before rest history
  have hpaint : ∀ edit, .paint edit ∉ history := by simp [history, before, rest]
  have hflag : ((initial Screen.blank).after history).redraw = false := by decide +kernel
  have hclear : .clearRedraw ∉ rest := by simp [rest]
  exact ⟨hpaint, hflag, hclear,
    (surface_of_redraw_eq_false Screen.blank hpaint hflag).2 before rest rfl hclear⟩

end Chip8.Machine
