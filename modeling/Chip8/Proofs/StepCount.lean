import Chip8.Proofs.Execution

/-!
# A run of several steps counts what it executes

A step ends in one of three ways. It executes an instruction and counts it, it finds the machine
waiting and does nothing, or it faults and counts nothing. So the count says where in a run the
last instruction was executed: behind it come only steps that wait, or the one that faults. And a
run can be cut anywhere, as long as the second part is left out when the first has faulted.
-/

namespace Chip8

theorem Outcome.andThen_assoc {σ α β γ : Type} (o : Outcome σ α)
    (next : Machine σ → α → Outcome σ β) (last : Machine σ → β → Outcome σ γ) :
    (o.andThen next).andThen last = o.andThen fun m a => (next m a).andThen last := by
  obtain ⟨m, a, rfl⟩ | ⟨m, fault, rfl⟩ := o.done_or_refused <;> rfl

namespace Machine

variable {σ : Type} [Surface σ]

/-- Only a step that executes is counted. -/
theorem step_counts (m : Machine σ) (noise : UInt8) :
    (m.isRunning = false ∧ m.step noise = .done m ()) ∨
    (∃ n fault, m.step noise = .refused n fault ∧ n.cycle = m.cycle) ∨
    ∃ n, m.step noise = .done n () ∧ n.cycle = m.cycle + 1 := by
  obtain ⟨hr, hs⟩ | ⟨-, -, hs⟩ | ⟨i, o, -, -, he, hs⟩ := m.step_cases noise
  · exact Or.inl ⟨hr, hs⟩
  · exact Or.inr (Or.inl ⟨_, _, hs, rfl⟩)
  · have hcycle : o.machine.cycle = m.cycle := he.counters.1
    obtain ⟨n, a, rfl⟩ | ⟨n, fault, rfl⟩ := o.done_or_refused
    · exact Or.inr (Or.inr ⟨n.finish, hs, congrArg (· + 1) hcycle⟩)
    · exact Or.inr (Or.inl ⟨n, fault, hs, hcycle⟩)

/-- A run is its first part, and then the rest of it unless the first part faulted. -/
theorem stepsFrom_add (noise : Nat → UInt8) (first a b : Nat) (m : Machine σ) :
    stepsFrom noise first (a + b) m =
      (stepsFrom noise first a m).andThen fun n _ => stepsFrom noise (first + a) b n := by
  induction a generalizing first m with
  | zero =>
    rw [Nat.zero_add]
    rfl
  | succ a ih =>
    rw [Nat.succ_add, stepsFrom_succ, stepsFrom_succ, Outcome.andThen_assoc]
    simp only [ih, Nat.add_assoc, Nat.add_comm 1 a]

/-- Only the random bytes tell a run that begins later from one that begins at once. -/
theorem stepsFrom_later (noise : Nat → UInt8) (later first count : Nat) (m : Machine σ) :
    stepsFrom noise (later + first) count m =
      stepsFrom (fun k => noise (later + k)) first count m := by
  induction count generalizing first m with
  | zero => rfl
  | succ count ih =>
    rw [stepsFrom_succ, stepsFrom_succ]
    simp only [Nat.add_assoc, ih]

theorem multistep_add (m : Machine σ) (noise : Nat → UInt8) (a b : Nat) :
    m.multistep noise (a + b) =
      (m.multistep noise a).andThen fun n _ => n.multistep (fun k => noise (a + k)) b := by
  simp only [multistep, stepsFrom_add noise 0 a b, Nat.zero_add]
  congr
  funext n _
  exact stepsFrom_later noise a 0 b n

/-- A run executes and counts up to some machine on its way, and that is where it ends, or where
the machine waits, or where the next step faults. -/
theorem stepsFrom_counts (noise : Nat → UInt8) (first count : Nat) (m : Machine σ) :
    ∃ k n, k ≤ count ∧ stepsFrom noise first k m = .done n () ∧ n.cycle = m.cycle + k ∧
      (k = count ∨ n.isRunning = false ∨
        ∃ last fault, k < count ∧ n.step (noise (first + k)) = .refused last fault ∧
          last.cycle = n.cycle) := by
  induction count generalizing first m with
  | zero => exact ⟨0, m, Nat.le_refl 0, rfl, rfl, Or.inl rfl⟩
  | succ count ih =>
    obtain ⟨hr, -⟩ | ⟨last, fault, hs, hcycle⟩ | ⟨next, hs, hcycle⟩ := m.step_counts (noise first)
    · exact ⟨0, m, Nat.zero_le _, rfl, rfl, Or.inr (Or.inl hr)⟩
    · exact ⟨0, m, Nat.zero_le _, rfl, rfl,
        Or.inr (Or.inr ⟨last, fault, Nat.succ_pos count, hs, hcycle⟩)⟩
    · obtain ⟨k, n, hk, hrun, hcount, hend⟩ := ih (first + 1) next
      refine ⟨k + 1, n, Nat.succ_le_succ hk, ?_, by omega, ?_⟩
      · rw [stepsFrom_succ, hs]
        exact hrun
      · obtain hk | hr | ⟨last, fault, hk, hlast, hcycle⟩ := hend
        · exact Or.inl (congrArg (· + 1) hk)
        · exact Or.inr (Or.inl hr)
        · have hnext : first + 1 + k = first + (k + 1) := by omega
          rw [hnext] at hlast
          exact Or.inr (Or.inr ⟨last, fault, Nat.succ_lt_succ hk, hlast, hcycle⟩)

/-- **A run can be cut anywhere, and counts exactly what it executes.** What is behind `a + b`
steps is what is behind `a` of them and, unless these faulted, the other `b`. The count grows by
some `k`. If the run goes through and the machine still runs, `k` is all of its steps. If the
machine then waits, it has done so since the first `k`, and any longer run ends the same. If the
run faults, the first `k` steps go through and the next one is the one that faults. -/
theorem multistep_composes_and_counts (m : Machine σ) (noise : Nat → UInt8) :
    (∀ a b, m.multistep noise (a + b) =
      (m.multistep noise a).andThen fun n _ => n.multistep (fun k => noise (a + k)) b) ∧
    ∀ count, ∃ k, (m.multistep noise count).machine.cycle = m.cycle + k ∧
      ((∃ n, m.multistep noise count = .done n () ∧ n.isRunning = true ∧ k = count) ∨
        (∃ n, m.multistep noise count = .done n () ∧ n.isRunning = false ∧ k ≤ count ∧
          ∀ j, k ≤ j → m.multistep noise j = .done n ()) ∨
        ∃ n last fault, m.multistep noise count = .refused last fault ∧ k < count ∧
          m.multistep noise k = .done n () ∧ n.step (noise k) = .refused last fault) := by
  refine ⟨m.multistep_add noise, fun count => ?_⟩
  obtain ⟨k, n, hk, hrun, hcycle, hend⟩ := stepsFrom_counts noise 0 count m
  -- behind the first `k` steps, a run of any length goes on from `n`
  have hrest (more : Nat) : m.multistep noise (k + more) = stepsFrom noise k more n := by
    rw [multistep, stepsFrom_add, hrun, Nat.zero_add]
    rfl
  refine ⟨k, ?_⟩
  cases hr : n.isRunning with
  | false =>
    have hwaits (j : Nat) (hj : k ≤ j) : m.multistep noise j = .done n () := by
      obtain ⟨more, rfl⟩ := Nat.exists_eq_add_of_le hj
      rw [hrest, stepsFrom_of_not_running hr]
    rw [hwaits count hk]
    exact ⟨hcycle, Or.inr (Or.inl ⟨n, rfl, hr, hk, hwaits⟩)⟩
  | true =>
    rw [hr] at hend
    obtain rfl | hr' | ⟨last, fault, hlt, hlast, hkept⟩ := hend
    · have hall : m.multistep noise k = .done n () := hrun
      rw [hall]
      exact ⟨hcycle, Or.inl ⟨n, rfl, hr, rfl⟩⟩
    · cases hr'
    · obtain ⟨more, rfl⟩ := Nat.exists_eq_add_of_le' hlt
      have hfault : m.multistep noise (more + (k + 1)) = .refused last fault := by
        rw [Nat.zero_add] at hlast
        rw [Nat.add_comm more, Nat.add_assoc, Nat.add_comm 1, hrest, stepsFrom_succ, hlast]
        rfl
      rw [hfault]
      refine ⟨hkept.trans hcycle, Or.inr (Or.inr ⟨n, last, fault, rfl, hlt, hrun, ?_⟩)⟩
      rw [← hlast, Nat.zero_add]

end Machine

end Chip8
