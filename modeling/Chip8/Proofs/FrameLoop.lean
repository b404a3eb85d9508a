import Chip8.Proofs.Delivery
import Chip8.Proofs.Trace

/-!
# The loop ends when its frames are used up or the user quits

A script is what comes from outside, frame by frame, and each frame is asked for by a call. The
calls are answered until the frames are used up or one of them polls an event that asks to quit.
From then on nothing is answered and nothing changes any more. A fault of the program is an
answer like any other: it costs a frame and does not end the loop. Since only existing keys are
typed and held, the program is the only one that can fault.
-/

namespace Chip8

namespace Machine

variable {σ : Type} [Surface σ]

/-! ## What a run of several steps executes, and how it may fault -/

theorem length_executions_le (m : Machine σ) (moves : List Command) :
    (m.executions moves).length ≤ moves.length := by
  induction moves generalizing m with
  | nil => exact Nat.le_refl 0
  | cons command rest ih =>
    cases h : m.executed? command with
    | some i =>
      rw [executions_of_some h]
      exact Nat.succ_le_succ (ih _)
    | none =>
      rw [executions_of_none h]
      exact Nat.le_succ_of_le (ih _)

theorem length_strides_le (m : Machine σ) (noise : Nat → UInt8) (first count : Nat) :
    (strides noise first count m).length ≤ count := by
  induction count generalizing first m with
  | zero => exact Nat.le_refl 0
  | succ count ih =>
    rw [strides]
    apply Nat.succ_le_succ
    split
    · exact ih _ _
    · exact Nat.zero_le count

theorem length_trace_multistep_le (m : Machine σ) (noise : Nat → UInt8) (count : Nat) :
    (m.trace [.multistep noise count]).length ≤ count := by
  rw [trace_cons, trace, unroll, executions, List.append_nil]
  exact Nat.le_trans (m.length_executions_le _) (m.length_strides_le noise 0 count)

/-- Presses and releases execute nothing. -/
theorem trace_of_isKeyCommand (m : Machine σ) {commands : List Command}
    (h : ∀ command ∈ commands, command.IsKeyCommand) (rest : List Command) :
    m.trace (commands ++ rest) = (m.after commands).trace rest := by
  induction commands generalizing m with
  | nil => rfl
  | cons command tail ih =>
    obtain ⟨hkey, htail⟩ := List.forall_mem_cons.mp h
    have hnone : m.executions (m.moves command) = [] := by
      cases command with
      | press key | release key => rfl
      | _ => exact hkey.elim
    rw [List.cons_append, trace_cons, hnone, List.nil_append, ih _ htail, after_cons]

theorem stepFault_of_stepsFrom {m : Machine σ} {noise : Nat → UInt8} {first count : Nat}
    {fault : Fault} (h : (stepsFrom noise first count m).result = .error fault) :
    ∃ n : Machine σ, n.StepFault fault := by
  induction count generalizing first m with
  | zero => cases h
  | succ count ih =>
    rw [stepsFrom_succ] at h
    obtain ⟨n, a, hstep⟩ | ⟨n, cause, hstep⟩ := (m.step (noise first)).done_or_refused
    · rw [hstep] at h
      exact ih h
    · rw [hstep] at h
      cases h
      have hfault : (m.step (noise first)).result = .error fault := congrArg Outcome.result hstep
      exact ⟨m, (stepFault_of_error hfault).2⟩

omit [Surface σ] in
/-- The program can fault in three ways. -/
theorem StepFault.cases {m : Machine σ} {fault : Fault} (h : m.StepFault fault) :
    (∃ word, fault = .unknownOpcode word) ∨ fault = .stackOverflow ∨ fault = .stackUnderflow := by
  cases h with
  | unknownOpcode => exact Or.inl ⟨_, rfl⟩
  | stackOverflow => exact Or.inr (Or.inl rfl)
  | stackUnderflow => exact Or.inr (Or.inr rfl)

end Machine

namespace Host.Session

/-! ## Calls -/

/-- A call for a frame: the host with the events of the frame queued, and the random bytes for
the steps. -/
structure Call where
  before : Session
  noise : Nat → UInt8

def call (s : Session) (f : Frame) : Call := ⟨s.enqueue f.events, f.noise⟩

/-- The calls for the frames of a script. -/
def calls (s : Session) : List Frame → List Call
  | [] => []
  | f :: rest => s.call f :: (s.frame f).calls rest

namespace Call

variable (c : Call)

def behind : Session := (c.before.next c.noise).1

def answer : Option (Except Fault Unit) := (c.before.next c.noise).2

/-- The events that the call takes from the queue. -/
def polled : List Event :=
  c.before.pending.take (c.before.pending.length - c.behind.pending.length)

/-- The call polls an event that asks to quit. -/
def quits : Bool := c.polled.any Event.asksToQuit

/-- What the machine is asked to do if the frame comes to its steps. -/
def history : List Command := c.before.keyCommands ++ [.multistep c.noise c.before.steps]

/-- There is no answer. What was typed before the event that asks to quit is passed on, what is
behind it stays in the queue, and nothing is run or drawn. -/
def EndsQuietly : Prop :=
  c.answer = none ∧ ∃ typed event unread,
    c.before.pending = typed ++ event :: unread ∧
    event.asksToQuit = true ∧ (∀ event ∈ typed, event.asksToQuit = false) ∧
    c.behind = { c.before with
      remaining := some 0
      machine := c.before.machine.after ((typings typed).map Typing.command)
      display := { c.before.display with
        keypad := c.before.display.keypad.typeAll (typings typed) }
      pending := unread }

variable {c}

theorem polled_eq {polled unread : List Event} (hpending : c.before.pending = polled ++ unread)
    (hbehind : c.behind.pending = unread) : c.polled = polled := by
  rw [Call.polled, hbehind, hpending, List.length_append, Nat.add_sub_cancel, List.take_left]

/-- A call finds no frame left, or it quits, or the frame comes to its steps. -/
theorem fates (hheld : ∀ key ∈ c.before.display.held, key < 16) :
    (c.before.isOver = true ∧ c.quits = false ∧ c.answer = none ∧ c.behind = c.before) ∨
    (c.before.isOver = false ∧ c.quits = true ∧ c.EndsQuietly) ∨
    (c.before.isOver = false ∧ c.quits = false ∧
      c.before.next c.noise = c.before.poised.stepAndDraw c.noise) := by
  obtain ⟨hover, -, hnext⟩ | ⟨hover, -, typed, event, unread, hpending, htyped, hevent, hnext⟩ |
    ⟨hover, -, hquit, hnext⟩ := next_cases hheld c.noise
  · have hbehind : c.behind = c.before := by rw [behind, hnext]
    have hpolled : c.polled = [] := polled_eq rfl (congrArg pending hbehind)
    exact Or.inl ⟨hover, by rw [quits, hpolled]; rfl, by rw [answer, hnext], hbehind⟩
  · have hbehind : c.behind = c.before.quitAt typed unread := by rw [behind, hnext]
    have hpolled : c.polled = typed ++ [event] :=
      polled_eq (by rw [hpending, List.append_assoc]; rfl) (congrArg pending hbehind)
    refine Or.inr (Or.inl ⟨hover, ?_, by rw [answer, hnext], ?_⟩)
    · rw [quits, hpolled, List.any_append, List.any_cons, hevent, Bool.true_or, Bool.or_true]
    · exact ⟨typed, event, unread, hpending, hevent, htyped, hbehind⟩
  · obtain ⟨redraw, drawn, orders, hs⟩ := c.before.poised.stepAndDraw_eq c.noise
    have hpolled : c.polled = c.before.pending := by
      refine polled_eq (List.append_nil _).symm ?_
      rw [behind, hnext, hs]
      rfl
    refine Or.inr (Or.inr ⟨hover, ?_, hnext⟩)
    rw [quits, hpolled, List.any_eq_false]
    exact fun event he => Bool.eq_false_iff.mp (hquit event he)

/-- Only a call that comes to its steps has an answer. -/
theorem next_of_isSome_answer (hheld : ∀ key ∈ c.before.display.held, key < 16)
    (hsome : c.answer.isSome = true) :
    c.before.next c.noise = c.before.poised.stepAndDraw c.noise := by
  obtain ⟨-, -, hnone, -⟩ | ⟨-, -, hnone, -⟩ | ⟨-, -, hnext⟩ := fates hheld
  · rw [hnone] at hsome
    cases hsome
  · rw [hnone] at hsome
    cases hsome
  · exact hnext

theorem isSome_answer_of_next (h : c.before.next c.noise = c.before.poised.stepAndDraw c.noise) :
    c.answer.isSome = true := by
  rw [answer, h, stepAndDraw]
  split <;> rfl

theorem remaining_behind_of_next
    (h : c.before.next c.noise = c.before.poised.stepAndDraw c.noise) :
    c.behind.remaining = c.before.remaining.map (· - 1) := by
  obtain ⟨redraw, drawn, orders, hs⟩ := c.before.poised.stepAndDraw_eq c.noise
  rw [behind, h, hs]
  rfl

/-- What an answered call does to the machine is its history, and a picture may have been drawn. -/
theorem machine_behind_of_next (h : c.before.next c.noise = c.before.poised.stepAndDraw c.noise) :
    ∃ redraw, c.behind.machine = { c.before.machine.after c.history with redraw := redraw } := by
  obtain ⟨redraw, drawn, orders, hs⟩ := c.before.poised.stepAndDraw_eq c.noise
  refine ⟨redraw, ?_⟩
  rw [behind, h, hs, history, Machine.after_append, Machine.after_cons, Machine.after_nil,
    Machine.perform, Outcome.machine_plain]
  rfl

theorem length_trace_history_le (hheld : ∀ key ∈ c.before.display.held, key < 16) :
    (c.before.machine.trace c.history).length ≤ c.before.steps := by
  rw [history, Machine.trace_of_isKeyCommand _ (isKeyCommand_of_mem hheld)]
  exact Machine.length_trace_multistep_le _ _ _

theorem fault_of_next (h : c.before.next c.noise = c.before.poised.stepAndDraw c.noise)
    {fault : Fault} (hanswer : c.answer = some (.error fault)) :
    (∃ word, fault = .unknownOpcode word) ∨ fault = .stackOverflow ∨ fault = .stackUnderflow := by
  rw [answer, h, stepAndDraw] at hanswer
  split at hanswer
  · rename_i cause hrun
    cases hanswer
    obtain ⟨n, hn⟩ := Machine.stepFault_of_stepsFrom (congrArg Prod.snd hrun)
    exact hn.cases
  · cases hanswer

/-- A call with frames left spends one of them and has an answer, or it quits and spends all. -/
theorem spends (hheld : ∀ key ∈ c.before.display.held, key < 16)
    (hleft : c.before.remaining ≠ some 0) :
    (c.quits = true ∧ c.answer = none ∧ c.behind.remaining = some 0) ∨
    (c.quits = false ∧ c.answer.isSome = true ∧
      c.behind.remaining = c.before.remaining.map (· - 1)) := by
  obtain ⟨hover, -⟩ | ⟨-, hquits, hnone, _, _, _, -, -, -, hbehind⟩ | ⟨-, hquits, hnext⟩ :=
    fates hheld
  · exact absurd (beq_iff_eq.mp hover) hleft
  · exact Or.inl ⟨hquits, hnone, congrArg remaining hbehind⟩
  · exact Or.inr ⟨hquits, isSome_answer_of_next hnext, remaining_behind_of_next hnext⟩

end Call

/-! ## Scripts -/

variable {settings : Settings} {s : Session}

theorem calls_of_isOver (hover : s.isOver = true) {script : List Frame} {call : Call}
    (h : call ∈ s.calls script) : call.answer = none ∧ call.behind = call.before := by
  induction script generalizing s with
  | nil => cases h
  | cons f rest ih =>
    have hnext : (s.enqueue f.events).next f.noise = (s.enqueue f.events, none) := by
      rw [next, if_pos]
      exact hover
    obtain rfl | h := List.mem_cons.mp h
    · exact ⟨congrArg Prod.snd hnext, congrArg Prod.fst hnext⟩
    · refine ih ?_ h
      rw [frame, hnext]
      exact hover

theorem Reachable.steps_eq (h : Reachable settings s) : s.steps = settings.steps := by
  induction h with
  | start h =>
    obtain ⟨-, machine, -, rfl⟩ := start_eq_ok h
    rfl
  | enqueue _ _ ih => exact ih
  | next h noise ih =>
    obtain ⟨-, -, hnext⟩ | ⟨-, -, before, event, rest, -, -, -, hnext⟩ | ⟨-, -, -, hnext⟩ :=
      next_cases h.wellFormed.held_lt noise
    · rw [hnext]
      exact ih
    · rw [hnext]
      exact ih
    · obtain ⟨redraw, drawn, orders, hs⟩ := stepAndDraw_eq (Session.poised _) noise
      rw [hnext, hs]
      exact ih
  | perform _ _ ih => exact ih

theorem Reachable.frame (h : Reachable settings s) (f : Frame) : Reachable settings (s.frame f) :=
  (h.enqueue f.events).next f.noise

theorem Reachable.call_held_lt (h : Reachable settings s) (f : Frame) :
    ∀ key ∈ (s.call f).before.display.held, key < 16 :=
  (h.enqueue f.events).wellFormed.held_lt

theorem Reachable.of_mem_calls (h : Reachable settings s) {script : List Frame} {call : Call}
    (hc : call ∈ s.calls script) : Reachable settings call.before := by
  induction script generalizing s with
  | nil => cases hc
  | cons f rest ih =>
    obtain rfl | hc := List.mem_cons.mp hc
    · exact h.enqueue f.events
    · exact ih (h.frame f) hc

/-- Whoever has no answer gets none from then on, and changes nothing. -/
theorem pairwise_calls (h : Reachable settings s) (script : List Frame) :
    (s.calls script).Pairwise fun earlier later =>
      earlier.answer = none → later.answer = none ∧ later.behind = later.before := by
  induction script generalizing s with
  | nil => exact .nil
  | cons f rest ih =>
    refine .cons (fun later hlater hnone => calls_of_isOver ?_ hlater) (ih (h.frame f))
    obtain ⟨hover, -, -, hbehind⟩ | ⟨-, -, -, _, _, _, -, -, -, hbehind⟩ | ⟨-, -, hnext⟩ :=
      (s.call f).fates (h.call_held_lt f)
    · exact (congrArg isOver hbehind).trans hover
    · exact congrArg isOver hbehind
    · have hsome := Call.isSome_answer_of_next hnext
      rw [hnone] at hsome
      cases hsome

/-- No more calls are answered than frames are left. -/
theorem countP_isSome_le (h : Reachable settings s) {n : Nat} (hn : s.remaining = some n)
    (script : List Frame) : (s.calls script).countP (·.answer.isSome) ≤ n := by
  induction script generalizing s n with
  | nil => exact Nat.zero_le n
  | cons f rest ih =>
    cases n with
    | zero =>
      refine Nat.le_of_eq (List.countP_eq_zero.mpr fun call hcall hsome => ?_)
      rw [(calls_of_isOver (beq_iff_eq.mpr hn) hcall).1] at hsome
      cases hsome
    | succ n =>
      have hleft : (s.call f).before.remaining ≠ some 0 := hn ▸ nofun
      rw [calls, List.countP_cons]
      obtain ⟨-, hnone, hspent⟩ | ⟨-, hsome, hspent⟩ := Call.spends (h.call_held_lt f) hleft
      · have hrest := ih (h.frame f) hspent
        rw [hnone]
        exact Nat.le_succ_of_le (Nat.le_trans hrest (Nat.zero_le n))
      · have hrest := ih (n := n) (h.frame f) (hspent.trans (hn ▸ rfl))
        rw [if_pos hsome]
        exact Nat.succ_le_succ hrest

/-- As long as nobody quits, the first call without an answer comes when all frames are spent. -/
theorem findIdx_of_remaining_eq_some (h : Reachable settings s) {n : Nat}
    (hn : s.remaining = some n) {script : List Frame}
    (hquits : ∀ call ∈ (s.calls script).take n, call.quits = false) :
    (s.calls script).findIdx (·.answer.isNone) = min n script.length := by
  induction script generalizing s n with
  | nil => exact (Nat.min_zero n).symm
  | cons f rest ih =>
    cases n with
    | zero =>
      have hmem : s.call f ∈ s.calls (f :: rest) := List.mem_cons_self
      rw [calls, List.findIdx_cons, (calls_of_isOver (beq_iff_eq.mpr hn) hmem).1, Nat.zero_min]
      rfl
    | succ n =>
      have hleft : (s.call f).before.remaining ≠ some 0 := hn ▸ nofun
      rw [calls, List.take_succ_cons, List.forall_mem_cons] at hquits
      obtain ⟨hquit, -⟩ | ⟨-, hsome, hspent⟩ := Call.spends (h.call_held_lt f) hleft
      · cases hquit.symm.trans hquits.1
      · have hrest := ih (h.frame f) (hspent.trans (congrArg (Option.map (· - 1)) hn)) hquits.2
        rw [calls, List.findIdx_cons, Option.isNone_eq_false_iff.mpr hsome, hrest, List.length_cons,
          Nat.succ_min_succ]
        rfl

theorem findIdx_of_remaining_eq_none (h : Reachable settings s) (hn : s.remaining = none)
    (script : List Frame) :
    (s.calls script).findIdx (·.answer.isNone) = (s.calls script).findIdx Call.quits := by
  induction script generalizing s with
  | nil => rfl
  | cons f rest ih =>
    have hleft : (s.call f).before.remaining ≠ some 0 := hn ▸ nofun
    rw [calls, List.findIdx_cons, List.findIdx_cons]
    obtain ⟨hquit, hnone, -⟩ | ⟨hquit, hsome, hspent⟩ := Call.spends (h.call_held_lt f) hleft
    · rw [hnone, hquit]
      rfl
    · have hrest := ih (h.frame f) (hspent.trans (congrArg (Option.map (· - 1)) hn))
      rw [hquit, Option.isNone_eq_false_iff.mpr hsome, hrest]

/-- **The loop ends when its frames are used up or the user quits.** With a limit no more calls
are answered than it allows, and all of those if none of them polls an event that asks to quit.
Without one the first call that polls such an event is the first without an answer. Behind it
nothing is answered and nothing changes. A call that quits leaves what is behind the event in the
queue, and runs and draws nothing. An answered call executes at most the steps of a frame, and
if it is a fault, the program is at fault. -/
theorem loop_ends {file : Except FileFault (List UInt8)} {first : Session}
    (hstart : start settings file = .ok first) (script : List Frame) :
    let calls := first.calls script
    (∀ n, settings.frames = some n →
      calls.countP (·.answer.isSome) ≤ n ∧
      ((∀ call ∈ calls.take n, call.quits = false) →
        calls.findIdx (·.answer.isNone) = min n script.length)) ∧
    (settings.frames = none → calls.findIdx (·.answer.isNone) = calls.findIdx Call.quits) ∧
    (calls.Pairwise fun earlier later =>
      earlier.answer = none → later.answer = none ∧ later.behind = later.before) ∧
    (∀ call ∈ calls, call.quits = true → call.EndsQuietly) ∧
    (∀ call ∈ calls, call.answer.isSome = true →
      (∃ redraw, call.behind.machine =
        { call.before.machine.after call.history with redraw := redraw }) ∧
      (call.before.machine.trace call.history).length ≤ settings.steps) ∧
    ∀ call ∈ calls, ∀ fault, call.answer = some (.error fault) →
      (∃ word, fault = .unknownOpcode word) ∨ fault = .stackOverflow ∨ fault = .stackUnderflow := by
  intro calls
  have hreachable : Reachable settings first := .start hstart
  have hframes : first.remaining = settings.frames := by
    obtain ⟨-, machine, -, rfl⟩ := start_eq_ok hstart
    rfl
  refine ⟨fun n hn => ⟨countP_isSome_le hreachable (hframes.trans hn) script,
    findIdx_of_remaining_eq_some hreachable (hframes.trans hn)⟩,
    fun hn => findIdx_of_remaining_eq_none hreachable (hframes.trans hn) script,
    pairwise_calls hreachable script, fun call hcall hquits => ?_, fun call hcall hsome => ?_,
    fun call hcall fault hfault => ?_⟩
  · obtain ⟨-, hno, -⟩ | ⟨-, -, hends⟩ | ⟨-, hno, -⟩ :=
      Call.fates (hreachable.of_mem_calls hcall).wellFormed.held_lt
    · cases hno.symm.trans hquits
    · exact hends
    · cases hno.symm.trans hquits
  · have hbefore := hreachable.of_mem_calls hcall
    have hnext := Call.next_of_isSome_answer hbefore.wellFormed.held_lt hsome
    exact ⟨Call.machine_behind_of_next hnext,
      hbefore.steps_eq ▸ Call.length_trace_history_le hbefore.wellFormed.held_lt⟩
  · have hheld := (hreachable.of_mem_calls hcall).wellFormed.held_lt
    have hnext := Call.next_of_isSome_answer hheld (hfault ▸ rfl)
    exact Call.fault_of_next hnext hfault

/-- The program faults in the first frame. In the second one the user quits between two keys, so
the third is not run although there is no limit. -/
theorem loop_ends_of_fault_and_quit :
    let event (c : Char) (control : Bool) : Event :=
      .key ⟨.char c, .press, { control := control }, {}⟩
    let events := [event 'w' false, event 'c' true, event 'q' false]
    let script : List Frame := [⟨[], fun _ => 0⟩, ⟨events, fun _ => 0⟩, ⟨[], fun _ => 0⟩]
    ∃ first, start .initial (.ok [0x00, 0x00]) = .ok first ∧
      (first.calls script).findIdx (·.answer.isNone) = 1 ∧
      (∃ call ∈ first.calls script, call.EndsQuietly ∧ call.behind.pending = [event 'q' false]) ∧
      ∃ call ∈ first.calls script, ∃ fault, call.answer = some (.error fault) ∧
        ((∃ word, fault = .unknownOpcode word) ∨
          fault = .stackOverflow ∨ fault = .stackUnderflow) := by
  intro event events script
  have hany : (start .initial (.ok [0x00, 0x00])).toOption.any (fun first =>
      (first.calls script).findIdx Call.quits = 1 ∧
      (first.calls script).any (fun call =>
        call.quits = true ∧ call.behind.pending = [event 'q' false]) = true ∧
      (first.calls script).any (fun call =>
        call.answer.any (·.toOption.isNone)) = true) = true := by
    decide +kernel
  obtain ⟨first, hstart, hany⟩ := start_of_any hany
  obtain ⟨hquits, hends, hfaulty⟩ := of_decide_eq_true hany
  obtain ⟨-, hunlimited, -, hquiet, -, hcauses⟩ := loop_ends hstart script
  obtain ⟨last, hlast, hends⟩ := List.any_eq_true.mp hends
  obtain ⟨hquit, hpending⟩ := of_decide_eq_true hends
  obtain ⟨faulty, hmem, hfaulty⟩ := List.any_eq_true.mp hfaulty
  obtain ⟨answer, hanswer, hnone⟩ := (Option.any_eq_true _ _).mp hfaulty
  obtain ⟨fault, rfl⟩ : ∃ fault, answer = .error fault := by
    cases answer with
    | error fault => exact ⟨fault, rfl⟩
    | ok _ => cases hnone
  exact ⟨first, hstart, (hunlimited rfl).trans hquits,
    ⟨last, hlast, hquiet last hlast hquit, hpending⟩,
    faulty, hmem, fault, hanswer, hcauses faulty hmem fault hanswer⟩

end Host.Session

end Chip8
