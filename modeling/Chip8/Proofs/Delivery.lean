import Chip8.Proofs.Frames
import Chip8.Proofs.Waiting

/-!
# Which key a waiting program gets

A machine that waits is woken by the first key that goes down, and by nothing else. In a frame
the keys go down in a known order: first those that are typed, then the held ones. So a program
that waits gets the first of these, and if there is none the frame passes it by.
-/

namespace Chip8

/-- The key that the command presses. -/
def Command.pressed? : Command → Option Nat
  | .press key => some key
  | _ => none

namespace Machine

section Offer

variable {σ : Type} (m : Machine σ)

/-- A machine that waits takes the key that it is offered. -/
def offer (key : Nat) : Machine σ :=
  match m.status with
  | .running => m
  | .waiting r => { m with v := m.v.write r.toNat (UInt8.ofNat key), status := .running }

/-- Of several keys a machine that waits takes the first. -/
def offerAll : List Nat → Machine σ
  | [] => m
  | key :: _ => m.offer key

variable {m} in
theorem offer_of_running (h : m.status = .running) (key : Nat) : m.offer key = m := by
  rw [offer, h]

variable {m} in
theorem offer_of_waiting {r : UInt64} (h : m.status = .waiting r) (key : Nat) :
    m.offer key = { m with v := m.v.write r.toNat (UInt8.ofNat key), status := .running } := by
  rw [offer, h]

theorem offerAll_of_running {m : Machine σ} (h : m.status = .running) (keys : List Nat) :
    m.offerAll keys = m := by
  cases keys with
  | nil => rfl
  | cons key rest => rw [offerAll, offer_of_running h]

theorem status_offer (key : Nat) : (m.offer key).status = .running := by
  rw [offer]
  split
  · rename_i hrunning
    exact hrunning
  · rfl

/-- What is held makes no difference to what is taken. -/
theorem offerAll_with_keys (keys : Keys) (offered : List Nat) :
    { m with keys := keys }.offerAll offered = { m.offerAll offered with keys := keys } := by
  cases offered with
  | nil => rfl
  | cons key rest =>
    simp only [offerAll, offer]
    split <;> rfl

variable [Surface σ]

theorem machine_perform_press {key : Nat} (hk : key < 16) :
    (m.perform (.press key)).machine =
      { m.offer key with keys := m.keys.set key true } := by
  rw [perform, Outcome.machine_telling]
  cases hm : m.status with
  | running =>
    rw [press_of_running hm, offer_of_running hm]
  | waiting r =>
    rw [press_of_waiting hm hk, offer_of_waiting hm]
    rfl

/-- Presses and releases change the keys, and the first press is for the machine that waits. -/
theorem after_keyCommands {commands : List Command}
    (h : ∀ command ∈ commands, command.IsKeyCommand) :
    ∃ keys, m.after commands =
      { m.offerAll (commands.filterMap Command.pressed?) with keys := keys } := by
  induction commands generalizing m with
  | nil => exact ⟨m.keys, rfl⟩
  | cons command rest ih =>
    obtain ⟨hfirst, hrest⟩ := List.forall_mem_cons.mp h
    obtain ⟨keys, hafter⟩ := ih (m.perform command).machine hrest
    rw [after_cons, hafter]
    cases command with
    | press key =>
      -- behind the first press the machine runs, and takes no further key
      have hrunning : { m.offer key with keys := m.keys.set key true }.status = .running :=
        m.status_offer key
      rw [m.machine_perform_press hfirst, offerAll_of_running hrunning]
      exact ⟨keys, rfl⟩
    | release key =>
      rw [machine_perform_release, offerAll_with_keys]
      exact ⟨keys, rfl⟩
    | _ => exact hfirst.elim

end Offer

end Machine

namespace Host

/-- The keys that a frame offers, in order: those that its events press, and the held ones. -/
def offered (events : List Event) (held : List Nat) : List Nat :=
  ((typings events).filter Typing.down).map Typing.key ++ held

theorem pressed?_keyCommands (ts : List Typing) :
    (ts.map Typing.command).filterMap Command.pressed? =
      (ts.filter Typing.down).map Typing.key := by
  induction ts with
  | nil => rfl
  | cons t rest ih =>
    rw [List.map_cons, List.filterMap_cons, Typing.command]
    cases hdown : t.down with
    | true => simp [Command.pressed?, hdown, ih]
    | false => simp [Command.pressed?, hdown, ih]

theorem pressed?_releases (keys : List Nat) :
    (keys.map Command.release).filterMap Command.pressed? = [] := by
  simp [Command.pressed?]

theorem pressed?_holdCommands (d : Display) :
    d.holdCommands.filterMap Command.pressed? = d.held := by
  rw [Display.holdCommands]
  induction d.held with
  | nil => rfl
  | cons key rest ih =>
    rw [List.flatMap_cons, List.filterMap_append, ih]
    rfl

namespace Session

variable {s : Session}

theorem pressed?_frame (s : Session) :
    s.keyCommands.filterMap Command.pressed? = offered s.pending s.display.held := by
  rw [keyCommands, List.filterMap_append, pressed?_keyCommands, Display.keyCommands,
    List.filterMap_append, pressed?_releases, List.nil_append, pressed?_holdCommands, offered]
  rfl

theorem isKeyCommand_of_mem (hheld : ∀ key ∈ s.display.held, key < 16) :
    ∀ command ∈ s.keyCommands, command.IsKeyCommand := by
  intro command hc
  obtain hc | hc := List.mem_append.mp hc
  · obtain ⟨t, ht, rfl⟩ := List.mem_map.mp hc
    exact Typing.isKeyCommand_command (key_lt_of_mem_typings ht)
  · exact Display.isKeyCommand_of_mem_keyCommands (d := s.typedDisplay) hheld command hc

/-- When the steps begin, the machine has been offered the keys of the frame. -/
theorem machine_poised (hheld : ∀ key ∈ s.display.held, key < 16) :
    ∃ keys, s.poised.machine =
      { s.machine.offerAll (offered s.pending s.display.held) with keys := keys } := by
  rw [← pressed?_frame]
  exact s.machine.after_keyCommands (isKeyCommand_of_mem hheld)

theorem lt_of_mem_offered {settings : Settings} (h : WellFormed settings s) {key : Nat}
    (hkey : key ∈ offered s.pending settings.keys) : key < 16 := by
  obtain hkey | hkey := List.mem_append.mp hkey
  · obtain ⟨t, ht, rfl⟩ := List.mem_map.mp hkey
    exact key_lt_of_mem_typings (List.mem_filter.mp ht).1
  · exact h.key_lt key hkey

/-- A frame without keys passes a machine that waits by. -/
theorem next_of_offered_eq_nil {settings : Settings} (h : WellFormed settings s)
    {r : UInt64} (hwaits : s.machine.status = .waiting r) (hsteps : s.atSteps? = some s.poised)
    (hnone : offered s.pending settings.keys = []) (noise : Nat → UInt8) :
    (s.next noise).2 = some (.ok ()) ∧
      ∃ keys, (s.next noise).1.machine = { s.machine with keys := keys, redraw := false } := by
  obtain ⟨keys, hmachine⟩ := machine_poised h.held_lt
  rw [h.held_eq, hnone, Machine.offerAll] at hmachine
  have hidle : s.poised.machine.isRunning = false := by
    rw [hmachine]
    exact Machine.isRunning_of_waiting hwaits
  have hrun : s.poised.runSteps noise = (s.poised, .ok ()) := by
    rw [runSteps, Machine.multistep, Machine.stepsFrom_of_not_running hidle]
    rfl
  obtain ⟨drawn, orders, hdraw⟩ := s.poised.draw_eq
  rw [next_of_atSteps? hsteps, stepAndDraw, hrun]
  refine ⟨rfl, keys, ?_⟩
  show s.poised.draw.machine = _
  rw [hdraw, hmachine]

/-- **Which key a waiting program gets.** A frame in which nobody quits offers the keys that its
events press, and then the held ones. If there are any, the machine has the first of them in the
register that waits for it when the steps begin, and only that has changed besides the keys. If
there are none, the frame goes through and leaves the machine waiting as it was. -/
theorem key_delivered {settings : Settings} (hs : Reachable settings s)
    (hleft : s.isOver = false) {r : UInt64} (hwaits : s.machine.status = .waiting r)
    (hquit : ∀ event ∈ s.pending, event.asksToQuit = false) :
    (∀ key rest, offered s.pending settings.keys = key :: rest →
      ∃ t, s.atSteps? = some t ∧ (∀ noise, s.next noise = t.stepAndDraw noise) ∧
        (t.machine.v.read r.toNat).toNat = key ∧
        t.machine = { s.machine with
          keys := t.machine.keys
          v := s.machine.v.write r.toNat (UInt8.ofNat key)
          status := .running }) ∧
    (offered s.pending settings.keys = [] → ∀ noise, (s.next noise).2 = some (.ok ()) ∧
      ∃ keys, (s.next noise).1.machine = { s.machine with keys := keys, redraw := false }) := by
  have hwell := hs.wellFormed
  have hsteps := atSteps?_of_not_asksToQuit hwell.held_lt hleft hquit
  refine ⟨fun key rest hoffered => ?_, next_of_offered_eq_nil hwell hwaits hsteps⟩
  obtain ⟨keys, hmachine⟩ := machine_poised hwell.held_lt
  rw [hwell.held_eq, hoffered, Machine.offerAll, Machine.offer_of_waiting hwaits] at hmachine
  refine ⟨s.poised, hsteps, next_of_atSteps? hsteps, ?_, ?_⟩
  · have hr : r.toNat < 16 := UInt64.lt_iff_toNat_lt.mp (hwell.machine.waiting r hwaits)
    have hkey : key < 16 := lt_of_mem_offered hwell (hoffered ▸ List.mem_cons_self)
    rw [hmachine]
    show ((s.machine.v.write r.toNat (UInt8.ofNat key)).read r.toNat).toNat = key
    rw [Registers.read_write _ hr, if_pos rfl]
    exact UInt8.toNat_ofNat_of_lt (Nat.lt_trans hkey (by decide))
  · rw [hmachine]

/-- A frame with a release, a resize and a key that the machine does not have passes the waiting
program by. In another one key 4 is the first to go down. -/
theorem key_delivered_of_second_typed :
    let event (c : Char) (action : KeyAction) : Event := .key ⟨.char c, action, {}, {}⟩
    let idle := [event 'w' .release, .resize 80 24, event 'p' .press]
    let typed := [event 'w' .release, event 'Q' .repeated, event 'w' .press]
    ∃ s, Reachable .initial s ∧ s.isOver = false ∧ s.machine.status = .waiting 3 ∧
      (∀ noise, ((s.enqueue idle).next noise).2 = some (.ok ()) ∧
        ∃ keys, ((s.enqueue idle).next noise).1.machine =
          { s.machine with keys := keys, redraw := false }) ∧
      ∃ t, (s.enqueue typed).atSteps? = some t ∧ (t.machine.v.read 3).toNat = 4 := by
  intro event idle typed
  have hany : (start .initial (.ok [0xf3, 0x0a])).toOption.any (fun first =>
      let s := first.run [⟨[], fun _ => 0⟩]
      s.isOver = false ∧ s.machine.status = .waiting 3 ∧ s.pending = []) = true := by
    decide +kernel
  obtain ⟨first, hstart, hany⟩ := start_of_any hany
  obtain ⟨hleft, hwaits, hpending⟩ := of_decide_eq_true hany
  generalize hs : first.run [⟨[], fun _ => 0⟩] = s at hleft hwaits hpending
  have hreachable : Reachable .initial s := hs ▸ (Reachable.start hstart).run _
  have hqueue (events : List Event) : (s.enqueue events).pending = events := by
    rw [enqueue, hpending, List.nil_append]
  have hidle := key_delivered (hreachable.enqueue idle) hleft hwaits (by
    rw [hqueue]
    decide)
  have htyped := key_delivered (hreachable.enqueue typed) hleft hwaits (by
    rw [hqueue]
    decide)
  have hnone : offered (s.enqueue idle).pending [] = [] := by
    rw [hqueue]
    decide
  have hsome : offered (s.enqueue typed).pending [] = [4, 5] := by
    rw [hqueue]
    decide
  obtain ⟨t, ht, -, hregister, -⟩ := htyped.1 4 [5] hsome
  exact ⟨s, hreachable, hleft, hwaits, hidle.2 hnone, t, ht, hregister⟩

end Session

end Host

end Chip8
