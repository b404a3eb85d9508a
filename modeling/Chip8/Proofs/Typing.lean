import Chip8.Host.Session
import Chip8.Proofs.Faults

/-!
# What is typed reaches the machine as presses and releases

An event of the terminal is about one of the sixteen keys, or it asks to quit, or nothing
comes of it. Since every key that it can be about exists, the machine refuses none of them.
So polling is a list of presses and releases, up to the first event that asks to quit. The
tick of the keypad and the keys that are held for the whole run are further presses and
releases, and none of them is refused either.
-/

namespace Chip8

/-- The command presses one of the sixteen keys or lets it go. -/
def Command.IsKeyCommand : Command → Prop
  | .press key | .release key => key < 16
  | _ => False

namespace Machine

variable {σ : Type} [Surface σ] (m : Machine σ)

theorem perform_press {key : Nat} (hk : key < 16) :
    ∃ news, m.press key = .done (m.perform (.press key)).machine news := by
  obtain ⟨n, news, h⟩ | ⟨n, fault, h⟩ := (m.press key).done_or_refused
  · rw [perform, Outcome.machine_telling, h]
    exact ⟨news, rfl⟩
  · have hf := ((m.press_refusedBy key).error_iff fault).mp (by rw [h]; rfl)
    omega

theorem perform_release {key : Nat} (hk : key < 16) :
    ∃ news, m.release key = .done (m.perform (.release key)).machine news := by
  obtain ⟨n, news, h⟩ | ⟨n, fault, h⟩ := (m.release key).done_or_refused
  · rw [perform, Outcome.machine_telling, h]
    exact ⟨news, rfl⟩
  · have hf := ((m.release_refusedBy key).error_iff fault).mp (by rw [h]; rfl)
    omega

/-- Presses and releases of existing keys go through. -/
theorem perform_of_isKeyCommand {command : Command} (h : command.IsKeyCommand) :
    ∃ reply, m.perform command = .done (m.perform command).machine reply := by
  cases command with
  | press key =>
    obtain ⟨news, hp⟩ := m.perform_press h
    exact ⟨.changed news, by rw [perform, hp]; rfl⟩
  | release key =>
    obtain ⟨news, hp⟩ := m.perform_release h
    exact ⟨.changed news, by rw [perform, hp]; rfl⟩
  | _ => exact h.elim

theorem script_of_isKeyCommand {commands : List Command}
    (h : ∀ command ∈ commands, command.IsKeyCommand) :
    m.script commands = .done (m.after commands) () := by
  induction commands generalizing m with
  | nil => rfl
  | cons command rest ih =>
    obtain ⟨reply, hp⟩ := m.perform_of_isKeyCommand (h command List.mem_cons_self)
    rw [script, hp, Outcome.andThen_done, after_cons]
    exact ih _ fun c hc => h c (List.mem_cons_of_mem command hc)

theorem keys_perform_press (key : Nat) :
    (m.perform (.press key)).machine.keys = m.keys.set key true := by
  rw [perform, Outcome.machine_telling, press]
  split
  · rename_i hnone
    exact (Keys.set_of_le m.keys ((Keys.held?_eq_none_iff m.keys key).mp hnone) true).symm
  · split <;> rfl

theorem machine_perform_release (key : Nat) :
    (m.perform (.release key)).machine = { m with keys := m.keys.set key false } := by
  rw [perform, Outcome.machine_telling, release]
  split
  · rename_i hnone
    have hle := (Keys.held?_eq_none_iff m.keys key).mp hnone
    rw [Keys.set_of_le m.keys hle]
    rfl
  · rfl

end Machine

namespace Host

/-- One of the machine's keys, and whether it went down or was let go. -/
structure Typing where
  key : Nat
  down : Bool
  deriving DecidableEq, Repr

/-- What the machine is asked to do about it. -/
def Typing.command (t : Typing) : Command :=
  if t.down then .press t.key else .release t.key

/-- The key goes down, or goes on being down. -/
def KeyAction.isDown : KeyAction → Bool
  | .press | .repeated => true
  | .release => false

namespace Event

/-- The event ends the run: a key that asks to quit, unless it is let go. -/
def asksToQuit : Event → Bool
  | .key event => event.isQuit && event.action.isDown
  | _ => false

/-- What the event says of the machine's keys. -/
def typing? : Event → Option Typing
  | .key event => event.key?.map (⟨·, event.action.isDown⟩)
  | _ => none

end Event

theorem KeyCode.key?_lt {code : KeyCode} {key : Nat} (h : code.key? = some key) : key < 16 := by
  have hall : ∀ entry ∈ keyboard, entry.2 < 16 := by decide
  cases code with
  | char c =>
    obtain ⟨before, rest, hsplit, -⟩ := List.lookup_eq_some_iff.mp h
    exact hall (c.toLower, key) (hsplit ▸ List.mem_append_right before List.mem_cons_self)
  | _ => cases h

theorem Event.key_lt_of_typing? {event : Event} {t : Typing} (h : event.typing? = some t) :
    t.key < 16 := by
  cases event with
  | key event =>
    obtain ⟨key, hkey, rfl⟩ := Option.map_eq_some_iff.mp h
    rw [KeyEvent.key?] at hkey
    split at hkey
    · cases hkey
    · exact KeyCode.key?_lt hkey
  | _ => cases h

/-- What events say of the machine's keys, in order. -/
def typings (events : List Event) : List Typing :=
  events.filterMap Event.typing?

theorem typings_cons (event : Event) (rest : List Event) :
    typings (event :: rest) = event.typing?.toList ++ typings rest := by
  rw [typings, List.filterMap_cons]
  cases event.typing? <;> rfl

theorem key_lt_of_mem_typings {events : List Event} {t : Typing} (h : t ∈ typings events) :
    t.key < 16 := by
  obtain ⟨event, -, ht⟩ := List.mem_filterMap.mp h
  exact Event.key_lt_of_typing? ht

theorem Typing.isKeyCommand_command {t : Typing} (h : t.key < 16) : t.command.IsKeyCommand := by
  rw [command]
  split <;> exact h

/-! ## The keypad -/

namespace Keypad

/-- A key that went down gets all its frames, and a key that was let go gets none. -/
def type (pad : Keypad) (t : Typing) : Keypad :=
  pad.setTimeout t.key (if t.down then pad.sticky else 0)

def typeAll (pad : Keypad) (ts : List Typing) : Keypad :=
  ts.foldl type pad

theorem typeAll_append_singleton (pad : Keypad) (ts : List Typing) (t : Typing) :
    pad.typeAll (ts ++ [t]) = (pad.typeAll ts).type t := by
  rw [typeAll, typeAll, List.foldl_append]
  rfl

theorem sticky_typeAll (pad : Keypad) (ts : List Typing) : (pad.typeAll ts).sticky = pad.sticky :=
  List.foldlRecOn (motive := fun p : Keypad => p.sticky = pad.sticky) _ _ rfl fun _ h _ _ => h

variable {σ : Type} [Surface σ] (pad : Keypad) (m : Machine σ)

theorem apply_eq {key : Nat} (hk : key < 16) (action : KeyAction) :
    let t : Typing := ⟨key, action.isDown⟩
    pad.apply m key action = (pad.type t, .done (m.perform t.command).machine ()) := by
  obtain ⟨news, hpress⟩ := m.perform_press hk
  obtain ⟨news', hrelease⟩ := m.perform_release hk
  cases action with
  | press | repeated =>
    rw [apply, hpress]
    rfl
  | release =>
    rw [apply, hrelease]
    rfl

/-- An event about a key of the machine goes to the keypad and to the machine. -/
theorem take_of_key? {event : KeyEvent} {key : Nat} (h : event.key? = some key) :
    let t : Typing := ⟨key, event.action.isDown⟩
    pad.take m event = (pad.type t, .done (m.perform t.command).machine true) := by
  intro t
  rw [KeyEvent.key?] at h
  split at h
  · cases h
  · rename_i hquit
    have happly : pad.apply m key event.action =
        (pad.type t, .done (m.perform t.command).machine ()) :=
      pad.apply_eq m (KeyCode.key?_lt h) event.action
    simp only [take, hquit, h, happly]
    rfl

omit [Surface σ] in
/-- Of any other event nothing comes but the answer to it. -/
theorem take_of_key?_eq_none {event : KeyEvent} (h : event.key? = none) :
    pad.take m event = (pad, .done m !(event.isQuit && event.action.isDown)) := by
  cases hquit : event.isQuit with
  | true =>
    have hup : (event.action == .release) = !event.action.isDown := by cases event.action <;> rfl
    simp only [take, hquit, if_true, hup, Bool.true_and]
  | false =>
    simp only [KeyEvent.key?, hquit, Bool.false_eq_true, if_false] at h
    simp only [take, hquit, h]
    rfl

end Keypad

/-! ## Polling -/

namespace Display

variable {σ : Type} [Surface σ] (d : Display) (m : Machine σ)

def typeAll (ts : List Typing) : Display :=
  { d with keypad := d.keypad.typeAll ts }

/-- An event that does not ask to quit is passed on. -/
theorem input_of_not_asksToQuit {event : Event} (h : event.asksToQuit = false) :
    d.input m event = (d.typeAll event.typing?.toList,
      .done (m.after (event.typing?.toList.map Typing.command)) true) := by
  cases event with
  | key event =>
    rw [Event.asksToQuit] at h
    cases hkey : event.key? with
    | none =>
      simp only [input, d.keypad.take_of_key?_eq_none m hkey, h, Event.typing?, hkey]
      rfl
    | some key =>
      simp only [input, d.keypad.take_of_key? m hkey, Event.typing?, hkey]
      rfl
  | _ => rfl

omit [Surface σ] in
theorem input_of_asksToQuit {event : Event} (h : event.asksToQuit = true) :
    d.input m event = (d, .done m false) := by
  cases event with
  | key event =>
    obtain ⟨hquit, hdown⟩ := Bool.and_eq_true_iff.mp h
    have hnot : (event.action == .release) = false := by
      cases ha : event.action <;> simp [KeyAction.isDown, ha] at hdown ⊢
    simp only [input, Keypad.take, hquit, if_true, hnot]
  | _ => cases h

/-! ## Ticking and holding -/

/-- The presses and releases of a frame that no event asks for. -/
def keyCommands (d : Display) : List Command :=
  d.keypad.expiring.map .release ++ d.holdCommands

theorem isKeyCommand_of_mem_keyCommands {d : Display} (hheld : ∀ key ∈ d.held, key < 16) :
    ∀ command ∈ d.keyCommands, command.IsKeyCommand := by
  intro command hc
  obtain hc | hc := List.mem_append.mp hc
  · obtain ⟨key, hkey, rfl⟩ := List.mem_map.mp hc
    exact List.mem_range.mp (List.mem_filter.mp hkey).1
  · obtain ⟨key, hkey, hc⟩ := List.mem_flatMap.mp hc
    simp only [List.mem_cons, List.not_mem_nil, or_false] at hc
    obtain rfl | rfl := hc
    · exact hheld key hkey
    · exact hheld key hkey

theorem keys_eq (hheld : ∀ key ∈ d.held, key < 16) :
    d.keys m = ({ d with keypad := d.keypad.countDown }, .done (m.after d.keyCommands) ()) := by
  have hall := isKeyCommand_of_mem_keyCommands hheld
  have hexpiring := m.script_of_isKeyCommand fun c hc => hall c (List.mem_append_left _ hc)
  have hhold := (m.after (d.keypad.expiring.map .release)).script_of_isKeyCommand
    fun c hc => hall c (List.mem_append_right _ hc)
  simp only [keys, Keypad.tick, hexpiring, Outcome.andThen_done]
  rw [hhold, keyCommands, Machine.after_append]

end Display

/-- Polling passes all events on, or it passes on those before the first that asks to quit and
leaves those behind it. -/
theorem Session.poll_cases (d : Display) (m : Machine Screen) (events : List Event) :
    ((∀ event ∈ events, event.asksToQuit = false) ∧
      poll d m events = (d.typeAll (typings events), [],
        .done (m.after ((typings events).map Typing.command)) true)) ∨
    ∃ before event rest, events = before ++ event :: rest ∧
      (∀ event ∈ before, event.asksToQuit = false) ∧ event.asksToQuit = true ∧
      poll d m events = (d.typeAll (typings before), rest,
        .done (m.after ((typings before).map Typing.command)) false) := by
  induction events generalizing d m with
  | nil => exact Or.inl ⟨by simp, rfl⟩
  | cons event rest ih =>
    cases hquit : event.asksToQuit with
    | true =>
      refine Or.inr ⟨[], event, rest, rfl, by simp, hquit, ?_⟩
      rw [poll, d.input_of_asksToQuit m hquit]
      rfl
    | false =>
      have hfirst (rest : List Event) : (d.typeAll event.typing?.toList).typeAll (typings rest) =
            d.typeAll (typings (event :: rest)) ∧
          (m.after (event.typing?.toList.map Typing.command)).after
            ((typings rest).map Typing.command) =
              m.after ((typings (event :: rest)).map Typing.command) := by
        rw [typings_cons, List.map_append, Machine.after_append]
        simp only [Display.typeAll, Keypad.typeAll, List.foldl_append, and_self]
      rw [poll, d.input_of_not_asksToQuit m hquit]
      obtain ⟨hrest, hp⟩ | ⟨before, last, behind, rfl, hbefore, hlast, hp⟩ :=
        ih (d.typeAll event.typing?.toList) (m.after (event.typing?.toList.map Typing.command))
      · refine Or.inl ⟨List.forall_mem_cons.mpr ⟨hquit, hrest⟩, ?_⟩
        rw [← (hfirst rest).1, ← (hfirst rest).2]
        exact hp
      · refine Or.inr ⟨event :: before, last, behind, rfl,
          List.forall_mem_cons.mpr ⟨hquit, hbefore⟩, hlast, ?_⟩
        rw [← (hfirst before).1, ← (hfirst before).2]
        exact hp

end Host

end Chip8
