import Chip8.Proofs.Faults
import Chip8.Proofs.Unrolling

/-!
# The instructions that a history executes

A command executes an instruction if it is a step that goes through. A step of a
machine that waits and a step that is refused execute nothing: they move the program
counter at most. The trace of a history lists its executions in order, each with the
machine that fetched the instruction and the machine that its step left behind. What
the other commands keep, two neighbours of a trace share.
-/

namespace Chip8

/-- An executed instruction between the machine that fetched it and the one behind its step. -/
structure Execution (σ : Type) where
  before : Machine σ
  instruction : Instruction
  after : Machine σ

namespace Machine

variable {σ : Type} [Surface σ]

/-- The instruction that a command executes, if it executes one and that goes through. -/
def executed? (m : Machine σ) : Command → Option Instruction
  | .step noise =>
    match m.isRunning, (m.step noise).result with
    | true, .ok _ => Instruction.decode m.nextWord
    | _, _ => none
  | _ => none

/-- The executions of a list of single commands, in order. -/
def executions (m : Machine σ) : List Command → List (Execution σ)
  | [] => []
  | command :: rest =>
    let next := (m.perform command).machine
    match m.executed? command with
    | some i => ⟨m, i, next⟩ :: next.executions rest
    | none => next.executions rest

/-- The executions of a history, in order. -/
def trace (m : Machine σ) (history : List Command) : List (Execution σ) :=
  m.executions (m.unroll history)

/-! ## Single commands -/

theorem executed?_of_ok {m : Machine σ} {noise : UInt8} (hr : m.isRunning = true)
    (hok : (m.step noise).result = .ok ()) :
    m.executed? (.step noise) = Instruction.decode m.nextWord := by
  simp only [executed?, hr, hok]

/-- What executes an instruction is a step of a running machine, and it goes through. -/
theorem step_of_executed? {m : Machine σ} {command : Command} {i : Instruction}
    (h : m.executed? command = some i) :
    ∃ noise, command = .step noise ∧ m.isRunning = true ∧
      Instruction.decode m.nextWord = some i ∧ (m.step noise).result = .ok () := by
  cases command with
  | step noise =>
    simp only [executed?] at h
    split at h
    · rename_i hr hok
      exact ⟨noise, rfl, hr, h, hok⟩
    · cases h
  | _ => cases h

/-- The step of an executed instruction is the instruction and a tick. -/
theorem execute_of_executed? {m : Machine σ} {command : Command} {i : Instruction}
    (h : m.executed? command = some i) :
    ∃ noise n, m.advance.execute noise i = .done n () ∧
      (m.perform command).machine = n.finish := by
  obtain ⟨noise, rfl, hr, hd, hok⟩ := step_of_executed? h
  rw [step_of_decode_eq_some hr hd] at hok
  obtain ⟨n, a, ho⟩ | ⟨n, fault, ho⟩ := (m.advance.execute noise i).done_or_refused
  · refine ⟨noise, n, ho, ?_⟩
    rw [perform, Outcome.machine_plain, step_of_decode_eq_some hr hd, ho]
    rfl
  · rw [ho] at hok
    cases hok

/-- A step that executes nothing leaves the machine as it was, or past a refused word. -/
theorem step_of_executed?_eq_none {m : Machine σ} {noise : UInt8}
    (h : m.executed? (.step noise) = none) :
    (m.step noise).machine = m ∨ (m.step noise).machine = m.advance := by
  cases hr : m.isRunning with
  | false =>
    rw [step_of_not_running hr]
    exact Or.inl rfl
  | true =>
    cases hresult : (m.step noise).result with
    | ok a =>
      have hd : Instruction.decode m.nextWord = none := executed?_of_ok hr hresult ▸ h
      rw [step_of_decode_eq_none hr hd]
      exact Or.inr rfl
    | error fault => exact Or.inr ((m.step_refusedBy noise).machine_eq fault hresult)

/-- A single command that executes nothing starts the machine over, or is a request, or is such
a step. -/
theorem perform_of_executed?_eq_none {m : Machine σ} {command : Command} (hs : command.IsSingle)
    (h : m.executed? command = none) :
    command = .reset ∨ KeptBy command m (m.perform command).machine ∨
      (m.perform command).machine = m ∨ (m.perform command).machine = m.advance := by
  by_cases hreq : command.IsRequest
  · exact Or.inr (Or.inl (m.keptBy_of_isRequest hreq))
  · cases command with
    | step noise =>
      rw [perform, Outcome.machine_plain]
      exact Or.inr (Or.inr (step_of_executed?_eq_none h))
    | multistep noise count => exact hs.elim
    | reset => exact Or.inl rfl
    | _ => exact absurd trivial hreq

/-! ## Runs of single commands -/

theorem executions_of_some {m : Machine σ} {command : Command} {i : Instruction}
    (h : m.executed? command = some i) (rest : List Command) :
    m.executions (command :: rest) =
      ⟨m, i, (m.perform command).machine⟩ :: (m.perform command).machine.executions rest := by
  simp only [executions, h]

theorem executions_of_none {m : Machine σ} {command : Command} (h : m.executed? command = none)
    (rest : List Command) :
    m.executions (command :: rest) = (m.perform command).machine.executions rest := by
  simp only [executions, h]

theorem executions_append (m : Machine σ) (first second : List Command) :
    m.executions (first ++ second) = m.executions first ++ (m.after first).executions second := by
  induction first generalizing m with
  | nil => rfl
  | cons command rest ih =>
    cases h : m.executed? command with
    | some i =>
      rw [List.cons_append, executions_of_some h, executions_of_some h, ih]
      rfl
    | none =>
      rw [List.cons_append, executions_of_none h, executions_of_none h, ih]
      rfl

theorem mem_executions {m : Machine σ} {moves : List Command} {e : Execution σ}
    (h : e ∈ m.executions moves) :
    ∃ command, e.before.executed? command = some e.instruction ∧
      e.after = (e.before.perform command).machine := by
  induction moves generalizing m with
  | nil => cases h
  | cons command rest ih =>
    cases hc : m.executed? command with
    | some i =>
      rw [executions_of_some hc, List.mem_cons] at h
      obtain rfl | h := h
      · exact ⟨command, hc, rfl⟩
      · exact ih h
    | none =>
      rw [executions_of_none hc] at h
      exact ih h

theorem trace_cons (m : Machine σ) (command : Command) (rest : List Command) :
    m.trace (command :: rest) =
      m.executions (m.moves command) ++ (m.perform command).machine.trace rest := by
  rw [trace, unroll, executions_append, after_moves, trace]

/-! ## Between two executions -/

section Between

variable {α : Type} {f : Machine σ → α} {m : Machine σ} {moves : List Command}
  (hkeep : ∀ (m : Machine σ), ∀ command ∈ moves, m.executed? command = none →
    f (m.perform command).machine = f m)

include hkeep

/-- What the other commands keep is there at the first execution. -/
theorem before_of_getElem?_zero {e : Execution σ} (h : (m.executions moves)[0]? = some e) :
    f e.before = f m := by
  induction moves generalizing m with
  | nil => cases h
  | cons command rest ih =>
    cases hc : m.executed? command with
    | some i =>
      rw [executions_of_some hc] at h
      cases h
      rfl
    | none =>
      rw [executions_of_none hc] at h
      have hrest := ih (fun m c hm => hkeep m c (List.mem_cons_of_mem command hm)) h
      rw [hrest, hkeep m command List.mem_cons_self hc]

/-- What the other commands keep goes from one execution to the next. -/
theorem before_of_getElem?_succ {k : Nat} {d e : Execution σ}
    (hd : (m.executions moves)[k]? = some d) (he : (m.executions moves)[k + 1]? = some e) :
    f e.before = f d.after := by
  induction moves generalizing m k with
  | nil => cases hd
  | cons command rest ih =>
    have hrest : ∀ (m : Machine σ), ∀ c ∈ rest, m.executed? c = none →
        f (m.perform c).machine = f m :=
      fun m c hm => hkeep m c (List.mem_cons_of_mem command hm)
    cases hc : m.executed? command with
    | some i =>
      rw [executions_of_some hc] at hd he
      cases k with
      | zero =>
        cases hd
        exact before_of_getElem?_zero hrest he
      | succ k => exact ih hrest hd he
    | none =>
      rw [executions_of_none hc] at hd he
      exact ih hrest hd he

end Between

end Machine

end Chip8
