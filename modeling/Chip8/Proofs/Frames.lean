import Chip8.Proofs.Typing
import Chip8.Proofs.WellFormed

/-!
# A frame from its events to its picture

A frame has one of three fates. No frame was left and nothing happens; or an event asked to
quit, and the keys typed before it are all that reaches the machine; or the frame comes to
its steps. Then all its events have been polled, the keypad has ticked and the held keys
have been pressed, so the machine is the one from before the frame behind a known list of
presses and releases. What is not typed there is changed by the steps alone.
-/

namespace Chip8

theorem Machine.loadFile_eq_done {σ : Type} {m n : Machine σ}
    {file : Except FileFault (List UInt8)} (h : m.loadFile file = .done n ()) :
    ∃ program, file = .ok program ∧ m.load program = .done n () := by
  cases file with
  | error cause => cases h
  | ok program => exact ⟨program, rfl, h⟩

namespace Host.Session

/-! ## Up to the steps -/

/-- The session when the steps of its frame begin, if they do. -/
def atSteps? (s : Session) : Option Session :=
  if s.isOver then none
  else
    match s.countFrame.takeInput with
    | (s, .ok true) =>
      match s.holdKeys with
      | (s, .ok ()) => some s
      | (_, .error _) => none
    | (_, .ok false) | (_, .error _) => none

/-- Runs the steps of the frame, and draws unless one of them is refused. -/
def stepAndDraw (s : Session) (noise : Nat → UInt8) : Session × Option (Except Fault Unit) :=
  match s.runSteps noise with
  | (s, .error fault) => (s, some (.error fault))
  | (s, .ok ()) => (s.draw, some (.ok ()))

theorem not_isOver_of_atSteps? {s t : Session} (h : s.atSteps? = some t) : s.isOver = false := by
  rw [atSteps?] at h
  split at h
  · cases h
  · rename_i hover
    exact Bool.eq_false_iff.mpr hover

/-- A frame that comes to its steps goes on with them. -/
theorem next_of_atSteps? {s t : Session} (h : s.atSteps? = some t) (noise : Nat → UInt8) :
    s.next noise = t.stepAndDraw noise := by
  rw [atSteps?] at h
  rw [next]
  split at h
  · cases h
  · rename_i hover
    rw [if_neg hover]
    split at h
    · rename_i polled hinput
      rw [hinput]
      split at h
      · rename_i held hhold
        cases h
        simp only [hhold]
        rfl
      · cases h
    · cases h
    · cases h

/-- What has been typed when the steps begin. -/
def typedDisplay (s : Session) : Display :=
  s.display.typeAll (typings s.pending)

/-- The presses and releases that reach the machine before the steps. -/
def keyCommands (s : Session) : List Command :=
  (typings s.pending).map Typing.command ++ s.typedDisplay.keyCommands

/-- The session when the steps of its frame begin. -/
def poised (s : Session) : Session :=
  { s.countFrame with
    machine := s.machine.after s.keyCommands
    display := { s.typedDisplay with keypad := s.typedDisplay.keypad.countDown }
    pending := [] }

/-- The session behind a frame that an event ends. -/
def quitAt (s : Session) (before rest : List Event) : Session :=
  { s with
    remaining := some 0
    machine := s.machine.after ((typings before).map Typing.command)
    display := s.display.typeAll (typings before)
    pending := rest }

/-- The three fates of a frame. -/
theorem next_cases {s : Session} (hheld : ∀ key ∈ s.display.held, key < 16)
    (noise : Nat → UInt8) :
    (s.isOver = true ∧ s.atSteps? = none ∧ s.next noise = (s, none)) ∨
    (s.isOver = false ∧ s.atSteps? = none ∧ ∃ before event rest,
      s.pending = before ++ event :: rest ∧ (∀ event ∈ before, event.asksToQuit = false) ∧
      event.asksToQuit = true ∧ s.next noise = (s.quitAt before rest, none)) ∨
    (s.isOver = false ∧ s.atSteps? = some s.poised ∧
      (∀ event ∈ s.pending, event.asksToQuit = false) ∧
      s.next noise = s.poised.stepAndDraw noise) := by
  cases hover : s.isOver with
  | true => exact Or.inl ⟨rfl, by rw [atSteps?, if_pos hover], by rw [next, if_pos hover]⟩
  | false =>
    right
    have hover' : ¬s.isOver = true := by simp [hover]
    obtain ⟨hall, hpoll⟩ | ⟨before, event, rest, hsplit, hbefore, hevent, hpoll⟩ :=
      poll_cases s.display s.machine s.pending
    · have hinput : s.countFrame.takeInput =
          ({ s.countFrame with
              display := s.typedDisplay
              pending := []
              machine := s.machine.after ((typings s.pending).map Typing.command) }, .ok true) := by
        rw [takeInput]
        simp only [countFrame, hpoll]
        rfl
      have hsteps : s.atSteps? = some s.poised := by
        rw [atSteps?, if_neg hover', hinput]
        simp only [holdKeys, s.typedDisplay.keys_eq _ hheld, ← Machine.after_append]
        rfl
      exact Or.inr ⟨rfl, hsteps, hall, next_of_atSteps? hsteps noise⟩
    · have hinput : s.countFrame.takeInput =
          ({ s.countFrame with
              display := s.display.typeAll (typings before)
              pending := rest
              machine := s.machine.after ((typings before).map Typing.command) }, .ok false) := by
        rw [takeInput]
        simp only [countFrame, hpoll]
        rfl
      refine Or.inl ⟨rfl, ?_, before, event, rest, hsplit, hbefore, hevent, ?_⟩
      · rw [atSteps?, if_neg hover', hinput]
      · rw [next, if_neg hover', hinput]
        rfl

theorem eq_poised_of_atSteps? {s t : Session} (hheld : ∀ key ∈ s.display.held, key < 16)
    (h : s.atSteps? = some t) : t = s.poised := by
  obtain ⟨-, hnone, -⟩ | ⟨-, hnone, -⟩ | ⟨-, hsome, -⟩ := next_cases hheld fun _ => 0
  · cases hnone.symm.trans h
  · cases hnone.symm.trans h
  · exact Option.some.inj (h.symm.trans hsome)

theorem next_of_atSteps?_eq_none {s : Session} (hheld : ∀ key ∈ s.display.held, key < 16)
    (h : s.atSteps? = none) (noise : Nat → UInt8) : (s.next noise).2 = none := by
  obtain ⟨-, -, hnext⟩ | ⟨-, -, before, event, rest, -, -, -, hnext⟩ | ⟨-, hsome, -⟩ :=
    next_cases hheld noise
  · rw [hnext]
  · rw [hnext]
  · cases h.symm.trans hsome

/-- A frame that is left comes to its steps unless an event asks to quit. -/
theorem atSteps?_of_not_asksToQuit {s : Session} (hheld : ∀ key ∈ s.display.held, key < 16)
    (hleft : s.isOver = false) (hquit : ∀ event ∈ s.pending, event.asksToQuit = false) :
    s.atSteps? = some s.poised := by
  obtain ⟨hover, -⟩ | ⟨-, -, before, event, rest, hsplit, -, hasks, -⟩ | ⟨-, hsome, -⟩ :=
    next_cases hheld fun _ => 0
  · cases hleft.symm.trans hover
  · have hmem : event ∈ s.pending := hsplit ▸ List.mem_append_right before List.mem_cons_self
    cases (hquit event hmem).symm.trans hasks
  · exact hsome

theorem draw_eq (s : Session) : ∃ drawn orders, s.draw =
    { s with
      machine := { s.machine with redraw := false }
      display := { s.display with drawn := drawn, orders := orders } } := by
  cases hredraw : s.machine.redraw with
  | true =>
    refine ⟨s.display.drawn + 1,
      s.display.orders ++ s.display.pictureOrders s.machine.surface, ?_⟩
    simp only [draw, Display.frame, hredraw, if_true]
  | false =>
    have hsame : s.machine = { s.machine with redraw := false } :=
      congrArg (fun b => { s.machine with redraw := b }) hredraw
    refine ⟨s.display.drawn, s.display.orders, ?_⟩
    rw [← hsame]
    simp only [draw, Display.frame, hredraw, Bool.false_eq_true, if_false]

/-- The steps and the picture leave the keypad, the queue and the frames that are left alone. -/
theorem stepAndDraw_eq (s : Session) (noise : Nat → UInt8) :
    ∃ redraw drawn orders, (s.stepAndDraw noise).1 =
      { s with
        machine := { (s.machine.multistep noise s.steps).machine with redraw := redraw }
        display := { s.display with drawn := drawn, orders := orders } } := by
  rw [stepAndDraw, runSteps]
  obtain ⟨n, a, h⟩ | ⟨n, fault, h⟩ := (s.machine.multistep noise s.steps).done_or_refused
  · rw [h]
    obtain ⟨drawn, orders, hdraw⟩ := draw_eq { s with machine := n }
    exact ⟨false, drawn, orders, hdraw⟩
  · rw [h]
    exact ⟨n.redraw, s.display.drawn, s.display.orders, rfl⟩

/-! ## Whatever the host can come to -/

/-- The key of the command line that the machine does not have keeps the host from starting. -/
theorem start_eq_ok {settings : Settings} {file : Except FileFault (List UInt8)} {s : Session}
    (h : start settings file = .ok s) :
    (∀ key ∈ settings.keys, key < 16) ∧ ∃ machine,
      (Machine.initial Screen.blank).loadFile file = .done machine () ∧
      s = { steps := settings.steps, rate := max settings.frameRate 1, remaining := settings.frames,
            machine := machine, display := .fresh settings.keys settings.sticky, pending := [] } := by
  rw [start] at h
  split at h
  · cases h
  · rename_i machine hload
    split at h
    · cases h
    · rename_i hbad
      cases h
      have hkeys := List.find?_eq_none.mp hbad
      exact ⟨fun key hk => by simpa using hkeys key hk, machine, hload, rfl⟩

/-- Whether the host starts can be seen by running it, together with what it is like then. -/
theorem start_of_any {settings : Settings} {file : Except FileFault (List UInt8)}
    {p : Session → Bool} (h : (start settings file).toOption.any p = true) :
    ∃ first, start settings file = .ok first ∧ p first = true := by
  cases hs : start settings file with
  | error fault =>
    rw [hs] at h
    cases h
  | ok first =>
    rw [hs] at h
    exact ⟨first, rfl, h⟩

/-- A host of these settings with all that its machine and its held keys need. -/
structure WellFormed (settings : Settings) (s : Session) : Prop where
  machine : s.machine.WellFormed
  held_eq : s.display.held = settings.keys
  key_lt : ∀ key ∈ settings.keys, key < 16

theorem wellFormed_start {settings : Settings} {file : Except FileFault (List UInt8)}
    {s : Session} (h : start settings file = .ok s) : WellFormed settings s := by
  obtain ⟨hkeys, machine, hload, rfl⟩ := start_eq_ok h
  refine ⟨?_, rfl, hkeys⟩
  obtain ⟨program, -, hload⟩ := Machine.loadFile_eq_done hload
  have hinitial := Machine.wellFormed_initial Screen.complete_blank
  have hloaded : ((Machine.initial Screen.blank).perform (.load program)).machine = machine := by
    rw [Machine.perform, Outcome.machine_plain, hload]
    rfl
  exact hloaded ▸ hinitial.perform (.load program)

theorem WellFormed.held_lt {settings : Settings} {s : Session} (h : WellFormed settings s) :
    ∀ key ∈ s.display.held, key < 16 :=
  h.held_eq ▸ h.key_lt

theorem WellFormed.enqueue {settings : Settings} {s : Session} (h : WellFormed settings s)
    (events : List Event) : WellFormed settings (s.enqueue events) :=
  { h with }

theorem WellFormed.next {settings : Settings} {s : Session} (h : WellFormed settings s)
    (noise : Nat → UInt8) : WellFormed settings (s.next noise).1 := by
  obtain ⟨-, -, hnext⟩ | ⟨-, -, before, event, rest, -, -, -, hnext⟩ | ⟨-, -, -, hnext⟩ :=
    next_cases h.held_lt noise
  · rw [hnext]
    exact h
  · rw [hnext]
    exact ⟨h.machine.after _, h.held_eq, h.key_lt⟩
  · have hpoised : s.poised.machine.WellFormed := h.machine.after _
    have hrun := hpoised.perform (.multistep noise s.steps)
    rw [Machine.perform, Outcome.machine_plain] at hrun
    obtain ⟨redraw, drawn, orders, hs⟩ := s.poised.stepAndDraw_eq noise
    rw [hnext, hs]
    exact ⟨{ hrun with }, h.held_eq, h.key_lt⟩

/-- What a host of these settings can come to, also if the machine is used behind its back. -/
inductive Reachable (settings : Settings) : Session → Prop
  | start {file : Except FileFault (List UInt8)} {s : Session} (h : start settings file = .ok s) :
      Reachable settings s
  | enqueue {s : Session} (h : Reachable settings s) (events : List Event) :
      Reachable settings (s.enqueue events)
  | next {s : Session} (h : Reachable settings s) (noise : Nat → UInt8) :
      Reachable settings (s.next noise).1
  | perform {s : Session} (h : Reachable settings s) (command : Command) :
      Reachable settings { s with machine := (s.machine.perform command).machine }

theorem Reachable.wellFormed {settings : Settings} {s : Session} (h : Reachable settings s) :
    WellFormed settings s := by
  induction h with
  | start h => exact wellFormed_start h
  | enqueue _ events ih => exact ih.enqueue events
  | next _ noise ih => exact ih.next noise
  | perform _ command ih => exact { ih with machine := ih.machine.perform command }

/-! ## Frame after frame -/

/-- What comes from outside in a frame: the events that are pending when it begins, and the
random bytes for its steps. -/
structure Frame where
  events : List Event
  noise : Nat → UInt8

def frame (s : Session) (f : Frame) : Session :=
  ((s.enqueue f.events).next f.noise).1

/-- The host behind frames, one after another. -/
def run (s : Session) (frames : List Frame) : Session :=
  frames.foldl frame s

theorem run_append_singleton (s : Session) (frames : List Frame) (f : Frame) :
    s.run (frames ++ [f]) = (s.run frames).frame f := by
  rw [run, run, List.foldl_append]
  rfl

theorem Reachable.run {settings : Settings} {s : Session} (h : Reachable settings s)
    (frames : List Frame) : Reachable settings (s.run frames) :=
  List.foldlRecOn (motive := Reachable settings) frames _ h
    fun _ h f _ => (h.enqueue f.events).next f.noise

end Host.Session

end Chip8
