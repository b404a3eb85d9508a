import Chip8.Proofs.Redraw
import Chip8.Proofs.Terminal

/-!
# The terminal always shows the screen

A display and its machine take turns. A call for a frame draws only if the machine asks for it, so
a call that draws nothing has to find the screen on the terminal already. It does, since whatever
changes the screen also asks for a redraw. Before the first picture the screen is blank, or a
redraw is due. Behind it the terminal shows some screen, and the machine has that one or asks for a
redraw.
-/

namespace Chip8.Host

/-- The picture of the screen is in the corner, and there is nothing else. -/
def Terminal.Shows {rows columns : Nat} (t : Terminal rows columns) (s : Screen) : Prop :=
  ∀ row column, t.cells row column =
    if row < Screen.dotRows ∧ column < Screen.dotColumns then s.cell column row else ' '

theorem Terminal.Shows.corner_eq {rows columns : Nat} {t : Terminal rows columns} {s : Screen}
    (h : t.Shows s) : t.corner = s.dotLines := by
  refine List.map_congr_left fun row hrow => List.map_congr_left fun column hcolumn => ?_
  rw [h, if_pos ⟨List.mem_range.mp hrow, List.mem_range.mp hcolumn⟩]

/-- The display is called for a frame, or something is asked of the machine. -/
inductive Turn
  | frame
  | request (command : Command)

/-- Nobody paints behind the machine's back or takes back that a redraw is due. -/
def Turn.IsFair : Turn → Prop
  | frame => True
  | request command => command ≠ .clearRedraw ∧ ∀ edit, command ≠ .paint edit

/-- A display with its machine, and what the calls for a frame have answered. -/
structure Showing where
  display : Display
  machine : Machine Screen
  answers : List Bool

namespace Showing

/-- A display that has not drawn anything, of a machine as it is at power-on. -/
def fresh (held : List Nat) (sticky : Nat) : Showing :=
  ⟨.fresh held sticky, .initial Screen.blank, []⟩

def frame (v : Showing) : Showing :=
  let (display, machine, drew) := v.display.frame v.machine
  ⟨display, machine, v.answers ++ [drew]⟩

def take (v : Showing) : Turn → Showing
  | .frame => v.frame
  | .request command => { v with machine := (v.machine.perform command).machine }

def run (v : Showing) (turns : List Turn) : Showing :=
  turns.foldl take v

variable {rows columns : Nat} {t : Terminal rows columns} {v : Showing}

/-! ## A call for a frame -/

theorem pictureOrders_text_ne_empty (d : Display) (s : Screen) :
    String.join ((d.pictureOrders s).map Order.text) ≠ "" := by
  have hmem : Order.moveTo 0 0 ∈ d.pictureOrders s := by
    rw [Display.pictureOrders, s.readLines_dotPicture, Screen.dotLines, Screen.dotRows,
      List.range_succ_eq_map]
    exact List.mem_append_right _ List.mem_cons_self
  intro h
  rw [← String.toList_eq_nil_iff, String.toList_join, List.flatMap_eq_nil_iff] at h
  exact absurd (h _ (List.mem_map_of_mem hmem)) (by decide)

theorem frame_of_redraw_eq_false (h : v.machine.redraw = false) :
    v.frame = { v with answers := v.answers ++ [false] } := by
  simp [frame, Display.frame, h]

theorem frame_of_redraw (h : v.machine.redraw = true) :
    v.frame =
      { display := { v.display with
          drawn := v.display.drawn + 1
          orders := v.display.orders ++ v.display.pictureOrders v.machine.surface }
        machine := { v.machine with redraw := false }
        answers := v.answers ++ [true] } := by
  simp [frame, Display.frame, h]

theorem redraw_frame (v : Showing) : v.frame.machine.redraw = false := by
  cases h : v.machine.redraw with
  | false => rw [frame_of_redraw_eq_false h]; exact h
  | true => rw [frame_of_redraw h]

/-- The answer tells whether something has been written. -/
theorem answer_frame (v : Showing) : ∃ written answer,
    v.frame.display.output = v.display.output ++ written ∧
    v.frame.answers = v.answers ++ [answer] ∧ (answer = true ↔ written ≠ "") := by
  cases h : v.machine.redraw with
  | false =>
    refine ⟨"", false, ?_, ?_, by simp⟩
    · rw [frame_of_redraw_eq_false h, String.append_empty]
    · rw [frame_of_redraw_eq_false h]
  | true =>
    refine ⟨_, true, ?_, ?_, iff_of_true rfl
      (pictureOrders_text_ne_empty v.display v.machine.surface)⟩
    · rw [frame_of_redraw h, Display.output, List.map_append, String.join_append]
      rfl
    · rw [frame_of_redraw h]

/-! ## Turn after turn -/

/-- What has been drawn is what the calls have answered for. -/
theorem drawn_run (h : v.display.drawn = v.answers.count true) (turns : List Turn) :
    (v.run turns).display.drawn = (v.run turns).answers.count true := by
  refine List.foldlRecOn (motive := fun v : Showing => v.display.drawn = v.answers.count true)
    turns _ h fun v h turn _ => ?_
  cases turn with
  | request command => exact h
  | frame =>
    cases hredraw : v.machine.redraw with
    | false => simpa [take, frame_of_redraw_eq_false hredraw] using h
    | true => simpa [take, frame_of_redraw hredraw] using h

/-- What the terminal shows once all has been written, and how the screen of the machine may
differ from it. -/
inductive Tracks (t : Terminal rows columns) (v : Showing) : Prop
  | untouched (hdrawn : v.display.drawn = 0) (houtput : v.display.output = "")
      (hsurface : v.machine.redraw = false → v.machine.surface = Screen.blank)
  | shows (s : Screen) (hdrawn : v.display.drawn ≠ 0) (hshows : (t.write v.display.output).Shows s)
      (hsurface : v.machine.redraw = false → v.machine.surface = s)

theorem Tracks.fresh (t : Terminal rows columns) (held : List Nat) (sticky : Nat) :
    Tracks t (fresh held sticky) :=
  .untouched rfl rfl fun _ => rfl

theorem Tracks.request (h : Tracks t v) {command : Command}
    (hfair : (Turn.request command).IsFair) : Tracks t (v.take (.request command)) := by
  have hvouches := v.machine.vouches_perform hfair.1 hfair.2
  cases h with
  | untouched hdrawn houtput hsurface =>
    refine .untouched hdrawn houtput fun hredraw => ?_
    obtain ⟨hbefore, heq⟩ := hvouches hredraw
    exact heq.trans (hsurface hbefore)
  | shows s hdrawn hshows hsurface =>
    refine .shows s hdrawn hshows fun hredraw => ?_
    obtain ⟨hbefore, heq⟩ := hvouches hredraw
    exact heq.trans (hsurface hbefore)

variable (hrows : Screen.dotRows ≤ rows) (hcolumns : Screen.dotColumns ≤ columns)

include hrows hcolumns

/-- A picture that is drawn replaces whatever the terminal shows. -/
theorem Tracks.shows_drawn (h : Tracks t v) :
    ((t.write v.display.output).writeAll (v.display.pictureOrders v.machine.surface)).Shows
      v.machine.surface := by
  intro row column
  rw [Terminal.cells_writeAll_pictureOrders hrows hcolumns]
  split
  · rfl
  · rename_i houtside
    cases h with
    | untouched hdrawn => rw [if_pos hdrawn]
    | shows s hdrawn hshows => rw [if_neg hdrawn, hshows, if_neg houtside]

theorem Tracks.frame (h : Tracks t v) : Tracks t v.frame := by
  cases hredraw : v.machine.redraw with
  | false =>
    rw [frame_of_redraw_eq_false hredraw]
    cases h with
    | untouched hdrawn houtput hsurface => exact .untouched hdrawn houtput hsurface
    | shows s hdrawn hshows hsurface => exact .shows s hdrawn hshows hsurface
  | true =>
    -- the picture covers all that an earlier one may have left in the corner
    have hshows := h.shows_drawn hrows hcolumns
    rw [frame_of_redraw hredraw]
    refine .shows v.machine.surface (Nat.succ_ne_zero _) ?_ fun _ => rfl
    rw [Display.output, List.map_append, String.join_append, Terminal.write_append]
    exact hshows

theorem Tracks.run (h : Tracks t v) {turns : List Turn} (hfair : ∀ turn ∈ turns, turn.IsFair) :
    Tracks t (v.run turns) := by
  refine List.foldlRecOn turns _ h fun v h turn hturn => ?_
  cases turn with
  | frame => exact h.frame hrows hcolumns
  | request command => exact h.request (hfair _ hturn)

/-- **The terminal always shows the screen.** Behind every call for a frame nothing has been written
and the screen is blank, or the picture of the screen is in the corner of the terminal, whatever
the terminal showed at first. The call answers whether it has written anything, all the pictures
are counted, and no redraw is due. -/
theorem shows_screen (t : Terminal rows columns) (held : List Nat) (sticky : Nat)
    {turns : List Turn} (hfair : ∀ turn ∈ turns, turn.IsFair) :
    let before := (fresh held sticky).run turns
    let v := before.frame
    let shown := t.write v.display.output
    ((v.display.output = "" ∧ v.machine.surface = Screen.blank) ∨
      (shown.corner = v.machine.surface.dotLines ∧
        ∀ row column, Screen.dotRows ≤ row ∨ Screen.dotColumns ≤ column →
          shown.cells row column = ' ')) ∧
    (∃ written answer, v.display.output = before.display.output ++ written ∧
      v.answers = before.answers ++ [answer] ∧ (answer = true ↔ written ≠ "")) ∧
    v.display.drawn = v.answers.count true ∧
    v.machine.redraw = false := by
  intro before v shown
  have hbefore : Tracks t before := (Tracks.fresh t held sticky).run hrows hcolumns hfair
  have hdrawn := drawn_run (v := fresh held sticky) rfl (turns ++ [.frame])
  rw [run, List.foldl_append] at hdrawn
  refine ⟨?_, before.answer_frame, hdrawn, before.redraw_frame⟩
  cases hbefore.frame hrows hcolumns with
  | untouched _ houtput hsurface => exact Or.inl ⟨houtput, hsurface before.redraw_frame⟩
  | shows s _ hshows hsurface =>
    obtain rfl := hsurface before.redraw_frame
    refine Or.inr ⟨hshows.corner_eq, fun row column houtside => ?_⟩
    rw [hshows, if_neg (by omega)]

omit hrows hcolumns in
/-- A digit is drawn between two calls, and the call behind them has nothing to draw. The terminal
is just large enough, was full before, and had been left in the middle of a sequence. -/
theorem shows_screen_of_skipped_frame :
    let t : Terminal 9 33 := ⟨fun _ _ => '#', 8, 33, .escape⟩
    let turns : List Turn :=
      [.frame, .request (.edit (.writeWord 0x200 0xd005)), .request (.step 0), .frame,
        .request (.press 99)]
    let v := ((fresh [] 15).run turns).frame
    (∀ turn ∈ turns, turn.IsFair) ∧
    (t.write v.display.output).corner = v.machine.surface.dotLines ∧
    v.machine.surface.cell 0 0 = '⡏' ∧
    v.answers = [false, true, false] ∧ v.display.drawn = 1 := by
  intro t turns
  have hfair : ∀ turn ∈ turns, turn.IsFair := by simp [turns, Turn.IsFair]
  have hrun : ((fresh [] 15).run turns).frame.answers = [false, true, false] ∧
      ((fresh [] 15).run turns).frame.machine.surface.cell 0 0 = '⡏' := by decide +kernel
  obtain ⟨hshown, -, hdrawn, -⟩ := shows_screen (by decide) (by decide) t [] 15 hfair
  -- nothing below has to run the machine again
  generalize ((fresh [] 15).run turns).frame = v at *
  obtain ⟨hanswers, hcell⟩ := hrun
  have hblank : v.machine.surface ≠ Screen.blank := by
    intro h
    rw [h] at hcell
    exact absurd hcell (by decide +kernel)
  rw [hanswers] at hdrawn
  exact ⟨hfair, (hshown.resolve_left fun h => hblank h.2).1, hcell, hanswers, hdrawn⟩

end Showing

end Chip8.Host
