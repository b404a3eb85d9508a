import Chip8.Proofs.Simulation
import Chip8.Proofs.Waiting
import Chip8.Screen

/-!
# A program that does not look cannot tell when a key moved

Three instructions look at the keys: two ask about one key each, and one waits for a press. All
others, and all faults, are the same whatever keys are held. So a press or a release can change
places with a step, unless the step asks about this very key or, for a press, begins to wait. And
a run that never looks takes any presses and releases at any of its points: only the keys come out
different.
-/

namespace Chip8

namespace Command

/-- The command presses a key or lets one go, whether there is such a key or not. -/
def isKeyEvent : Command → Bool
  | .press _ | .release _ => true
  | _ => false

/-- The second history is the first with presses and releases put in anywhere. -/
inductive Inserted : List Command → List Command → Prop
  | nil : Inserted [] []
  | keep (command : Command) {history longer : List Command} (h : Inserted history longer) :
      Inserted (command :: history) (command :: longer)
  | insert {event : Command} (he : event.isKeyEvent = true) {history longer : List Command}
      (h : Inserted history longer) : Inserted history (event :: longer)

end Command

/-- The instruction asks about a key or waits for one. -/
def Instruction.looksAtKeys : Instruction → Bool
  | .skipIfHeld _ | .skipIfLoose _ | .awaitKey _ => true
  | _ => false

namespace Keys

theorem held?_set_of_ne (keys : Keys) {key other : Nat} (h : key ≠ other) (down : Bool) :
    (keys.set key down).held? other = keys.held? other := by
  simp only [held?, set, Vector.getElem?_setIfInBounds, if_neg h]

/-- The answer to an event that brings a key down or lets it go. -/
def news (keys : Keys) (key : Nat) (down : Bool) : Except Fault Bool :=
  match keys.held? key with
  | none => .error (.invalidKey key)
  | some held => .ok (held != down)

end Keys

namespace Machine

variable {σ : Type}

/-- The machine with other keys held. -/
def rekeyed (m : Machine σ) (keys : Keys) : Machine σ :=
  { m with keys := keys }

/-- Brings a key down or lets it go, and does nothing else. -/
def setKey (m : Machine σ) (key : Nat) (down : Bool) : Outcome σ Bool :=
  ⟨m.rekeyed (m.keys.set key down), m.keys.news key down⟩

/-- The instruction asks about that key. -/
def Asks (m : Machine σ) (key : Nat) : Instruction → Prop
  | .skipIfHeld x | .skipIfLoose x => (m.v.read x.toNat).toNat = key
  | _ => False

theorem release_eq_setKey (m : Machine σ) (key : Nat) : m.release key = m.setKey key false := by
  simp only [release, setKey, Keys.news]
  cases hk : m.keys.held? key with
  | none =>
    rw [Keys.set_of_le m.keys ((Keys.held?_eq_none_iff m.keys key).mp hk)]
    rfl
  | some held => cases held <;> rfl

theorem press_eq_setKey {m : Machine σ} (h : m.status = .running) (key : Nat) :
    m.press key = m.setKey key true := by
  simp only [press, setKey, rekeyed, Keys.news, h]
  cases hk : m.keys.held? key with
  | none =>
    rw [Keys.set_of_le m.keys ((Keys.held?_eq_none_iff m.keys key).mp hk), ← h]
    rfl
  | some held => cases held <;> rfl

end Machine

/-- The outcome with other keys held. -/
def Outcome.rekeyed {σ α : Type} (o : Outcome σ α) (keys : Keys) : Outcome σ α :=
  ⟨o.machine.rekeyed keys, o.result⟩

namespace Machine

variable {σ : Type} [Surface σ] {m : Machine σ} {keys : Keys}

omit [Surface σ] in
theorem skipIf_rekeyed (condition : Bool) :
    (m.rekeyed keys).skipIf condition = (m.skipIf condition).rekeyed keys := by
  cases condition <;> rfl

/-- An instruction does the same whatever keys are held, apart from those that it asks about. -/
theorem execute_rekeyed {i : Instruction}
    (h : ∀ key, m.Asks key i → keys.held? key = m.keys.held? key) (noise : UInt8) :
    (m.rekeyed keys).execute noise i = (m.execute noise i).rekeyed keys := by
  have hskip (condition : Bool) : Outcome.done ((m.rekeyed keys).skipIf condition) () =
      (Outcome.done (m.skipIf condition) ()).rekeyed keys := by
    rw [skipIf_rekeyed]
    rfl
  cases i with
  | ret =>
    simp only [execute, rekeyed]
    rcases m.stack.pop with ⟨stack, fault | address⟩ <;> rfl
  | call a =>
    simp only [execute, rekeyed]
    rcases m.stack.push m.pc with ⟨stack, fault | _⟩ <;> rfl
  | skipIfByte | skipUnlessByte | skipIfSame | skipUnlessSame => exact hskip _
  | skipIfHeld x | skipIfLoose x =>
    have hheld : (m.rekeyed keys).keys.held? ((m.rekeyed keys).v.read x.toNat).toNat =
        m.keys.held? (m.v.read x.toNat).toNat := h _ rfl
    simp only [execute, hheld]
    exact hskip _
  | _ => rfl

/-- A step does the same whatever keys are held, apart from those that it asks about. -/
theorem step_rekeyed
    (h : m.isRunning = true → ∀ i, Instruction.decode m.nextWord = some i →
      ∀ key, m.Asks key i → keys.held? key = m.keys.held? key) (noise : UInt8) :
    (m.rekeyed keys).step noise = (m.step noise).rekeyed keys := by
  cases hr : m.isRunning with
  | false =>
    rw [step_of_not_running hr, step_of_not_running (m := m.rekeyed keys) hr]
    rfl
  | true =>
    cases hd : Instruction.decode m.nextWord with
    | none =>
      rw [step_of_decode_eq_none hr hd, step_of_decode_eq_none (m := m.rekeyed keys) hr hd]
      rfl
    | some i =>
      have he : (m.rekeyed keys).advance.execute noise i =
          (m.advance.execute noise i).rekeyed keys :=
        execute_rekeyed (m := m.advance) (h hr i hd) noise
      rw [step_of_decode_eq_some hr hd, step_of_decode_eq_some (m := m.rekeyed keys) hr hd, he]
      obtain ⟨n, a, ho⟩ | ⟨n, fault, ho⟩ := (m.advance.execute noise i).done_or_refused
      · rw [ho]
        rfl
      · rw [ho]
        rfl

/-- A running machine goes on running unless it begins to wait. -/
theorem status_step_of_ne_awaitKey (hr : m.status = .running)
    (h : ∀ x, Instruction.decode m.nextWord ≠ some (.awaitKey x)) (noise : UInt8) :
    (m.step noise).machine.status = .running := by
  cases hs : (m.step noise).machine.status with
  | running => rfl
  | waiting r =>
    have hw : (m.perform (.step noise)).machine.status = .waiting r := by
      rw [perform, Outcome.machine_plain]
      exact hs
    have hsingle : (Command.step noise).IsSingle := trivial
    obtain ⟨hm, -⟩ | hx := (status_perform_eq_waiting_iff hsingle r).mp hw
    · rw [hr] at hm
      cases hm
    · obtain ⟨-, -, -, hd, -⟩ := step_of_executed? hx
      exact absurd hd (h r)

/-! ## One event and one step -/

/-- A step and an event can change places: the same machine is left behind, the step ends alike,
and the event is answered alike. -/
structure Swaps (m : Machine σ) (noise : UInt8) (event : Machine σ → Outcome σ Bool) : Prop where
  machine : ((event m).machine.step noise).machine = (event (m.step noise).machine).machine
  step_result : ((event m).machine.step noise).result = (m.step noise).result
  event_result : (event (m.step noise).machine).result = (event m).result

theorem swaps_of_eq_setKey {noise : UInt8} {event : Machine σ → Outcome σ Bool} {key : Nat}
    {down : Bool} (hbefore : event m = m.setKey key down)
    (hafter : event (m.step noise).machine = (m.step noise).machine.setKey key down)
    (hasks : ∀ i, Instruction.decode m.nextWord = some i → ¬m.Asks key i) :
    m.Swaps noise event := by
  have hstep : (m.rekeyed (m.keys.set key down)).step noise =
      (m.step noise).rekeyed (m.keys.set key down) := by
    apply step_rekeyed
    intro _ i hd other hother
    apply Keys.held?_set_of_ne
    rintro rfl
    exact hasks i hd hother
  have hkeys := m.keys_step noise
  constructor
  case machine =>
    rw [hbefore, hafter, setKey, setKey, hstep, hkeys]
    rfl
  case step_result =>
    rw [hbefore, setKey, hstep]
    rfl
  case event_result => rw [hbefore, hafter, setKey, setKey, hkeys]

/-! ## Any events and a whole run -/

/-- The machines differ at most in the keys that are held. -/
def AlikeButKeys (m n : Machine σ) : Prop :=
  ∃ keys, n = m.rekeyed keys

/-- The answers to a history, without those to presses and releases. -/
def otherAnswers (m : Machine σ) (history : List Command) : List (Except Fault Reply) :=
  ((history.zip (m.answers history)).filter fun p => !p.1.isKeyEvent).map Prod.snd

theorem otherAnswers_cons (m : Machine σ) (command : Command) (rest : List Command) :
    m.otherAnswers (command :: rest) =
      if command.isKeyEvent then (m.perform command).machine.otherAnswers rest
      else (m.perform command).result :: (m.perform command).machine.otherAnswers rest := by
  cases he : command.isKeyEvent <;> simp [otherAnswers, answers, he]

/-- None of the instructions that a list of single commands executes looks at the keys. -/
def Unlooking (m : Machine σ) (moves : List Command) : Prop :=
  ∀ e ∈ m.executions moves, e.instruction.looksAtKeys = false

theorem unlooking_append {first second : List Command} :
    m.Unlooking (first ++ second) ↔ m.Unlooking first ∧ (m.after first).Unlooking second := by
  simp only [Unlooking, executions_append, List.forall_mem_append]

/-- A press or a release of a running machine changes keys only. -/
theorem perform_of_isKeyEvent (hr : m.status = .running) {event : Command}
    (he : event.isKeyEvent = true) : m.AlikeButKeys (m.perform event).machine := by
  cases event with
  | press key =>
    rw [perform, Outcome.machine_telling, press_eq_setKey hr]
    exact ⟨_, rfl⟩
  | release key =>
    rw [perform, Outcome.machine_telling, release_eq_setKey]
    exact ⟨_, rfl⟩
  | _ => cases he

/-- An instruction that asks about a key goes through. -/
theorem executed?_of_asks (hr : m.isRunning = true) {i : Instruction}
    (hd : Instruction.decode m.nextWord = some i) {key : Nat} (h : m.Asks key i) (noise : UInt8) :
    m.executed? (.step noise) = some i := by
  rw [executed?_of_ok hr, hd]
  rw [step_of_decode_eq_some hr hd]
  cases i with
  | skipIfHeld x => rfl
  | skipIfLoose x => rfl
  | _ => exact h.elim

theorem step_rekeyed_of_unlooking {noise : UInt8} (h : m.Unlooking [.step noise]) (keys : Keys) :
    (m.rekeyed keys).step noise = (m.step noise).rekeyed keys := by
  apply step_rekeyed
  intro hr i hd key hasks
  have hi : i.looksAtKeys = false := by
    apply h ⟨m, i, _⟩
    rw [executions_of_some (executed?_of_asks hr hd hasks noise)]
    exact List.mem_cons_self
  cases i with
  | skipIfHeld x => cases hi
  | skipIfLoose x => cases hi
  | _ => exact hasks.elim

theorem stepsFrom_rekeyed {noise : Nat → UInt8} {first count : Nat}
    (h : m.Unlooking (strides noise first count m)) (keys : Keys) :
    stepsFrom noise first count (m.rekeyed keys) =
      (stepsFrom noise first count m).rekeyed keys := by
  induction count generalizing first m with
  | zero => rfl
  | succ count ih =>
    rw [strides, ← List.singleton_append, unlooking_append, after_cons, after_nil, perform,
      Outcome.machine_plain] at h
    obtain ⟨hfirst, hrest⟩ := h
    rw [stepsFrom_succ, stepsFrom_succ, step_rekeyed_of_unlooking hfirst]
    obtain ⟨n, a, hn⟩ | ⟨n, fault, hn⟩ := (m.step (noise first)).done_or_refused
    · rw [hn] at hrest ⊢
      exact ih hrest
    · rw [hn]
      rfl

/-- What is no key event and executes nothing that looks at the keys is carried out alike. -/
theorem perform_rekeyed {command : Command} (he : command.isKeyEvent = false)
    (h : m.Unlooking (m.moves command)) (keys : Keys) :
    (m.perform command).Agree AlikeButKeys ((m.rekeyed keys).perform command) := by
  cases command with
  | step noise =>
    rw [perform, perform, step_rekeyed_of_unlooking h]
    exact Outcome.Agree.plain ⟨⟨keys, rfl⟩, rfl⟩
  | multistep noise count =>
    have hsteps : (m.rekeyed keys).multistep noise count =
        (m.multistep noise count).rekeyed keys := stepsFrom_rekeyed h keys
    rw [perform, perform, hsteps]
    exact Outcome.Agree.plain ⟨⟨keys, rfl⟩, rfl⟩
  | press key => cases he
  | release key => cases he
  | setRegister register byte =>
    simp only [perform, setRegister]
    split
    · exact .done ⟨keys, rfl⟩ _
    · exact .refused ⟨keys, rfl⟩ _
  | load program =>
    simp only [perform, load, rekeyed]
    split
    · exact .done ⟨keys, rfl⟩ _
    · exact .refused ⟨keys, rfl⟩ _
  | edit edit =>
    simp only [perform, rekeyed]
    split
    · exact .done ⟨keys, rfl⟩ _
    · exact .refused ⟨keys, rfl⟩ _
  | reset => exact .done ⟨.loose, rfl⟩ _
  | _ => exact .done ⟨keys, rfl⟩ _

theorem status_perform_of_unlooking (hr : m.status = .running) {command : Command}
    (h : m.Unlooking (m.moves command)) : (m.perform command).machine.status = .running := by
  have hrun : (m.after [command]).status = .running := by
    refine status_history_eq_running hr fun e he x hx => ?_
    rw [trace, unroll, unroll, List.append_nil] at he
    have hlooks := h e he
    rw [hx] at hlooks
    cases hlooks
  rwa [after_cons, after_nil] at hrun

/-- Running machines that differ in the keys only stay so, and answer alike, along a run that does
not look at them, with presses and releases put into one of the two. -/
theorem history_rekeyed {history longer : List Command} (hi : Command.Inserted history longer)
    (hr : m.status = .running) (h : m.Unlooking (m.unroll history)) (keys : Keys) :
    (m.rekeyed keys).otherAnswers longer = m.otherAnswers history ∧
    AlikeButKeys (m.after history) ((m.rekeyed keys).after longer) := by
  -- the keys of the second machine stay free, since every event that is put in changes them
  induction hi generalizing m keys with
  | nil => exact ⟨rfl, keys, rfl⟩
  | insert he _ ih =>
    obtain ⟨others, hothers⟩ := perform_of_isKeyEvent (m := m.rekeyed keys) hr he
    rw [otherAnswers_cons, if_pos he, after_cons, hothers]
    exact ih hr h others
  | keep command _ ih =>
    rw [unroll, unlooking_append, after_moves] at h
    have hnext := status_perform_of_unlooking hr h.1
    cases he : command.isKeyEvent with
    | true =>
      obtain ⟨first, hfirst⟩ := perform_of_isKeyEvent hr he
      obtain ⟨second, hsecond⟩ := perform_of_isKeyEvent (m := m.rekeyed keys) hr he
      have hpair : ((m.rekeyed keys).perform command).machine =
          (m.perform command).machine.rekeyed second := by
        rw [hsecond, hfirst]
        rfl
      rw [otherAnswers_cons, otherAnswers_cons, he, if_pos rfl, if_pos rfl, after_cons, after_cons,
        hpair]
      exact ih hnext h.2 second
    | false =>
      have hagree := perform_rekeyed he h.1 keys
      obtain ⟨others, hothers⟩ := hagree.machine
      obtain ⟨hanswers, hafter⟩ := ih hnext h.2 others
      rw [otherAnswers_cons, otherAnswers_cons, he, after_cons, after_cons, hothers]
      refine ⟨?_, hafter⟩
      rw [if_neg Bool.false_ne_true, if_neg Bool.false_ne_true, hanswers, hagree.result]

/-- **A program that does not look cannot tell when a key moved.** A press or a release of any key
and the step of a running machine can change places if the step does not ask about that key and, for
a press, does not begin to wait. Presses and releases put anywhere into a run from a running machine
that never looks at the keys change no answer to anything else, and of the machine behind the run
nothing but its keys. -/
theorem key_events_unseen (hr : m.isRunning = true) :
    (∀ noise key, (∀ i, Instruction.decode m.nextWord = some i → ¬m.Asks key i) →
      m.Swaps noise (·.release key) ∧
      ((∀ x, Instruction.decode m.nextWord ≠ some (.awaitKey x)) →
        m.Swaps noise (·.press key))) ∧
    ∀ {history longer : List Command}, Command.Inserted history longer →
      (∀ e ∈ m.trace history, e.instruction.looksAtKeys = false) →
      m.otherAnswers longer = m.otherAnswers history ∧
      m.after longer = { m.after history with keys := (m.after longer).keys } := by
  have hm : m.status = .running := isRunning_iff.mp hr
  constructor
  · intro noise key hasks
    constructor
    · exact swaps_of_eq_setKey (m.release_eq_setKey key) (release_eq_setKey _ key) hasks
    · intro hawait
      have hafter := press_eq_setKey (status_step_of_ne_awaitKey hm hawait noise) key
      exact swaps_of_eq_setKey (press_eq_setKey hm key) hafter hasks
  · intro history longer hi hunlooking
    obtain ⟨hanswers, others, hothers⟩ := history_rekeyed hi hm hunlooking m.keys
    have hafter : m.after longer = (m.after history).rekeyed others := hothers
    refine ⟨hanswers, ?_⟩
    rw [hafter]
    rfl

/-- A step asks about key 5, and a press of key 3 changes places with it. A run that draws,
faults and goes on takes presses and releases at three points, one of them of no key. -/
theorem key_events_unseen_of_other_key :
    let asking : Machine Plane :=
      { initial Plane.empty with
        memory := Memory.initial.store 0x200 [0xe1, 0x9e], v := Registers.zero.write 1 5 }
    let m : Machine Plane :=
      { initial Plane.empty with
        memory := Memory.initial.store 0x200 [0xd1, 0x15, 0x00, 0xee, 0x61, 0x07] }
    let history : List Command := [.step 0, .step 0, .multistep (fun _ => 0) 1]
    let longer : List Command :=
      [.press 3, .step 0, .release 16, .step 0, .release 3, .press 7, .multistep (fun _ => 0) 1]
    asking.isRunning = true ∧
    (∀ i, Instruction.decode asking.nextWord = some i → ¬asking.Asks 3 i) ∧
    (∀ x, Instruction.decode asking.nextWord ≠ some (.awaitKey x)) ∧
    asking.Swaps 0 (·.press 3) ∧ m.isRunning = true ∧ Command.Inserted history longer ∧
    (∀ e ∈ m.trace history, e.instruction.looksAtKeys = false) ∧
    m.otherAnswers longer = [.ok .done, .error .stackUnderflow, .ok .done] ∧
    (m.after longer).v.read 1 = 7 := by
  intro asking m history longer
  have hd : Instruction.decode asking.nextWord = some (.skipIfHeld 1) := by
    show Instruction.decode (Memory.readWord _ 0x200) = _
    rw [Memory.readWord_store Memory.complete_initial 0x200 0xe1 0x9e _ (by decide)]
    decide
  have hasks : ∀ i, Instruction.decode asking.nextWord = some i → ¬asking.Asks 3 i := by
    intro i hi
    rw [hd] at hi
    cases hi
    show ¬((Registers.zero.write 1 5).read 1).toNat = 3
    decide
  have hawait : ∀ x, Instruction.decode asking.nextWord ≠ some (.awaitKey x) := by
    intro x hx
    rw [hd] at hx
    cases hx
  have hi : Command.Inserted history longer :=
    .insert rfl <| .keep _ <| .insert rfl <| .keep _ <| .insert rfl <| .insert rfl <|
      .keep _ .nil
  obtain ⟨hunlooking, hplain, hregister⟩ :
      (∀ e ∈ m.trace history, e.instruction.looksAtKeys = false) ∧
      m.otherAnswers history = [.ok .done, .error .stackUnderflow, .ok .done] ∧
      (m.after history).v.read 1 = 7 := by
    decide +kernel
  have hswaps := (key_events_unseen (m := asking) rfl).1 0 3 hasks
  obtain ⟨hanswers, hafter⟩ := (key_events_unseen (m := m) rfl).2 hi hunlooking
  refine ⟨rfl, hasks, hawait, hswaps.2 hawait, rfl, hi, hunlooking, hanswers.trans hplain, ?_⟩
  rw [hafter]
  exact hregister

end Machine

end Chip8
