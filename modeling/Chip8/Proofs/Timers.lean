import Chip8.Proofs.Decoding
import Chip8.Proofs.Trace
import Chip8.Screen

/-!
# A timer counts executed instructions

Both timers are set by an instruction of their own and count down with every tick, and
a tick comes with every executed instruction and with nothing else. So what a timer
holds at some execution is known from the last one that set it: the value that it was
given, less the number of executions since. Steps that wait or are refused, and requests
of the host, make no difference.

The machine beeps with the tick that brings the sound timer from one to zero. Each beep
is therefore due to the value that the timer was last given, and a value is good for one
beep at most. Executions are counted from zero, in the order of the trace.
-/

namespace Chip8

/-- The timers that the machine counts down. -/
inductive Timer
  | delay
  | sound

/-- The command does not start the machine over and does not beep by itself. -/
def Command.LeavesClocks : Command → Prop
  | .reset | .beep | .forgetBeeps => False
  | _ => True

/-- The execution beeps. -/
def Execution.rings {σ : Type} (e : Execution σ) : Bool :=
  e.before.beeps < e.after.beeps

namespace Timer

variable {σ : Type}

/-- What the timer holds. -/
def read (m : Machine σ) : Timer → UInt8
  | delay => m.delay
  | sound => m.sound

/-- The value that an instruction gives the timer, if it sets it. -/
def given? (m : Machine σ) : Timer → Instruction → Option UInt8
  | delay, .setDelay x => some (m.v.read x.toNat)
  | sound, .setSound x => some (m.v.read x.toNat)
  | _, _ => none

/-- The value that an execution gives the timer, if it sets it. -/
def setting? (t : Timer) (e : Execution σ) : Option UInt8 :=
  t.given? e.before e.instruction

/-- What the timer holds when the execution ticks. -/
def pending (t : Timer) (e : Execution σ) : Nat :=
  ((t.setting? e).getD (t.read e.before)).toNat

/-- No execution from number `first` on and before number `stop` sets the timer. -/
def Unset (t : Timer) (es : List (Execution σ)) (first stop : Nat) : Prop :=
  ∀ i e, first ≤ i → i < stop → es[i]? = some e → t.setting? e = none

/-- Where the timer goes from one to zero in execution `q`, and why: it still counts down from
what it held before the first execution, or from what execution `j` gave it. -/
inductive RunsOut (t : Timer) (m : Machine σ) (es : List (Execution σ)) (q : Nat) :
    Option Nat → Prop
  | start (hq : q + 1 = (t.read m).toNat) (hunset : t.Unset es 0 (q + 1)) : RunsOut t m es q none
  | set {j : Nat} {d : Execution σ} {k : UInt8} (hj : es[j]? = some d)
      (hk : t.setting? d = some k) (hpos : 1 ≤ k.toNat) (hq : q + 1 = j + k.toNat)
      (hunset : t.Unset es (j + 1) (q + 1)) : RunsOut t m es q (some j)

theorem given?_of_isControl (t : Timer) (m : Machine σ) {i : Instruction} (hi : i.IsControl) :
    t.given? m i = none := by
  cases i with
  | setDelay x => exact hi.elim
  | setSound x => exact hi.elim
  | _ => cases t <;> rfl

theorem read_execute [Surface σ] (t : Timer) (m : Machine σ) (noise : UInt8) (i : Instruction) :
    t.read (m.execute noise i).machine = (t.given? m i).getD (t.read m) := by
  by_cases hi : i.IsControl
  · obtain ⟨pc, stack, h⟩ := m.execute_of_isControl noise hi
    rw [h, t.given?_of_isControl m hi]
    cases t <;> rfl
  · cases i with
    | ret | jump | call | jumpOffset | skipIfByte | skipUnlessByte | skipIfSame | skipUnlessSame
    | skipIfHeld | skipIfLoose => exact absurd trivial hi
    | _ => cases t <;> rfl

theorem toNat_countDown (byte : UInt8) :
    (if byte = 0 then 0 else byte - 1).toNat = byte.toNat - 1 := by
  split
  · rename_i h
    rw [h]
    rfl
  · rename_i h
    have hle : 1 ≤ byte := by
      have hne : byte.toNat ≠ 0 := fun h0 => h (UInt8.toNat_inj.mp h0)
      exact UInt8.le_iff_toNat_le.mpr (Nat.one_le_iff_ne_zero.mpr hne)
    exact UInt8.toNat_sub_of_le _ _ hle

theorem toNat_read_finish (t : Timer) (m : Machine σ) :
    (t.read m.finish).toNat = (t.read m).toNat - 1 := by
  cases t with
  | delay => exact toNat_countDown m.delay
  | sound => exact toNat_countDown m.sound

end Timer

namespace Machine

variable {σ : Type}

/-- What only instructions and ticks may change. -/
def clocks (m : Machine σ) : UInt8 × UInt8 × Nat :=
  (m.delay, m.sound, m.beeps)

theorem read_of_clocks_eq {m n : Machine σ} (h : m.clocks = n.clocks) (t : Timer) :
    t.read m = t.read n := by
  simp only [clocks, Prod.mk.injEq] at h
  obtain ⟨hdelay, hsound, -⟩ := h
  cases t with
  | delay => exact hdelay
  | sound => exact hsound

variable [Surface σ]

/-- What executes nothing does not touch the clocks, be it a step that waits or is refused. -/
theorem clocks_perform_of_executed?_eq_none {m : Machine σ} {command : Command}
    (hs : command.IsSingle) (hc : command.LeavesClocks) (h : m.executed? command = none) :
    (m.perform command).machine.clocks = m.clocks := by
  obtain rfl | hkept | hm | hm := perform_of_executed?_eq_none hs h
  · exact hc.elim
  · have hbeeps : (m.perform command).machine.beeps = m.beeps := by
      apply hkept.beeps
      · rintro rfl
        exact hc
      · rintro rfl
        exact hc
    simp only [clocks, hkept.delay, hkept.sound, hbeeps]
  · rw [hm]
  · rw [hm]
    rfl

end Machine

/-! ## One execution -/

section Execution

variable {σ : Type} [Surface σ] {m : Machine σ} {moves : List Command} {e : Execution σ}

theorem Timer.toNat_read_after (t : Timer) (h : e ∈ m.executions moves) :
    (t.read e.after).toNat = t.pending e - 1 := by
  obtain ⟨command, hx, ha⟩ := Machine.mem_executions h
  obtain ⟨noise, n, hn, hp⟩ := Machine.execute_of_executed? hx
  have hread := t.read_execute e.before.advance noise e.instruction
  rw [hn] at hread
  have hpending : t.read n = (t.setting? e).getD (t.read e.before) := hread
  rw [ha, hp, t.toNat_read_finish, hpending, Timer.pending]

theorem Execution.beeps_after (h : e ∈ m.executions moves) :
    e.after.beeps = if Timer.sound.pending e = 1 then e.before.beeps + 1 else e.before.beeps := by
  obtain ⟨command, hx, ha⟩ := Machine.mem_executions h
  obtain ⟨noise, n, hn, hp⟩ := Machine.execute_of_executed? hx
  have hbeeps : n.beeps = e.before.beeps := by
    have hcounters := (Machine.effect_execute e.before.advance noise e.instruction).counters
    rw [hn] at hcounters
    exact hcounters.2
  have hread := Timer.sound.read_execute e.before.advance noise e.instruction
  rw [hn] at hread
  have hpending : n.sound = (Timer.sound.setting? e).getD (Timer.sound.read e.before) := hread
  have hone : n.sound = 1 ↔ Timer.sound.pending e = 1 := by
    rw [hpending, Timer.pending, ← UInt8.toNat_inj]
    rfl
  rw [ha, hp]
  simp only [Machine.finish, Machine.tick, hone, hbeeps]

theorem Execution.rings_iff (h : e ∈ m.executions moves) :
    e.rings = true ↔ Timer.sound.pending e = 1 := by
  have hbeeps := e.beeps_after h
  rw [Execution.rings, decide_eq_true_eq, hbeeps]
  split
  · rename_i hone
    simp only [hone, iff_true]
    omega
  · rename_i hone
    simp only [hone, iff_false]
    omega

theorem Execution.beeps_eq (h : e ∈ m.executions moves) :
    e.after.beeps = e.before.beeps + if e.rings then 1 else 0 := by
  have hbeeps := e.beeps_after h
  have hrings := e.rings_iff h
  by_cases hone : Timer.sound.pending e = 1
  · rw [hbeeps, if_pos hone, if_pos (hrings.mpr hone)]
  · rw [hbeeps, if_neg hone, if_neg (fun hr => hone (hrings.mp hr)), Nat.add_zero]

theorem Execution.read_after_of_getDelay (h : e ∈ m.executions moves) {x : UInt64}
    (hi : e.instruction = .getDelay x) : e.after.v.read x.toNat = e.before.delay := by
  obtain ⟨command, hx, ha⟩ := Machine.mem_executions h
  obtain ⟨noise, -, -, hd, -⟩ := Machine.step_of_executed? hx
  obtain ⟨noise, n, hn, hp⟩ := Machine.execute_of_executed? hx
  rw [hi] at hd hn
  have hx : x.toNat < 16 := Instruction.inRange_of_decode hd
  obtain rfl : e.before.advance.setV x.toNat e.before.advance.delay = n :=
    congrArg Outcome.machine hn
  rw [ha, hp]
  show ((e.before.v.write x.toNat e.before.delay).read x.toNat) = _
  rw [Registers.read_write _ hx, if_pos rfl]

end Execution

/-! ## Many executions -/

section Run

variable {σ : Type} [Surface σ] {m : Machine σ} {moves : List Command}
  (hmoves : ∀ command ∈ moves, command.IsSingle ∧ command.LeavesClocks)

include hmoves

theorem Machine.clocks_kept (n : Machine σ) :
    ∀ command ∈ moves, n.executed? command = none →
      (n.perform command).machine.clocks = n.clocks := by
  intro command hc hx
  obtain ⟨hs, hclocks⟩ := hmoves command hc
  exact clocks_perform_of_executed?_eq_none hs hclocks hx

namespace Timer

variable (t : Timer)

theorem read_before_zero {e : Execution σ} (h : (m.executions moves)[0]? = some e) :
    t.read e.before = t.read m :=
  Machine.read_of_clocks_eq
    (Machine.before_of_getElem?_zero (f := Machine.clocks) (Machine.clocks_kept hmoves) h) t

theorem read_before_succ {k : Nat} {d e : Execution σ}
    (hd : (m.executions moves)[k]? = some d) (he : (m.executions moves)[k + 1]? = some e) :
    t.read e.before = t.read d.after :=
  Machine.read_of_clocks_eq
    (Machine.before_of_getElem?_succ (f := Machine.clocks) (Machine.clocks_kept hmoves) hd he) t

/-- From an execution on, as long as none sets it, the timer loses one with each. -/
theorem pending_of_unset {first l : Nat} {d e : Execution σ}
    (hd : (m.executions moves)[first]? = some d)
    (hunset : t.Unset (m.executions moves) first (first + l + 1))
    (he : (m.executions moves)[first + l]? = some e) :
    t.pending e = (t.read d.before).toNat - l := by
  -- along the trace: every tick takes one, and between two executions nothing touches the timer
  induction l generalizing e with
  | zero =>
    obtain rfl : d = e := Option.some.inj (hd.symm.trans he)
    have hnone := hunset first d (Nat.le_refl _) (by omega) hd
    rw [pending, hnone]
    rfl
  | succ l ih =>
    obtain ⟨hlt, -⟩ := List.getElem?_eq_some_iff.mp he
    have hc := List.getElem?_eq_getElem (show first + l < (m.executions moves).length by omega)
    have hih := ih (fun i c hi hl => hunset i c hi (by omega)) hc
    have hafter := t.toNat_read_after (List.mem_of_getElem? hc)
    have hbefore := t.read_before_succ hmoves hc he
    have hnone := hunset (first + (l + 1)) e (by omega) (by omega) he
    rw [pending, hnone, Option.getD_none, hbefore, hafter, hih]
    omega

theorem pending_of_start {q : Nat} {e : Execution σ}
    (hunset : t.Unset (m.executions moves) 0 (q + 1)) (he : (m.executions moves)[q]? = some e) :
    t.pending e = (t.read m).toNat - q := by
  obtain ⟨hlt, -⟩ := List.getElem?_eq_some_iff.mp he
  have hd := List.getElem?_eq_getElem (show 0 < (m.executions moves).length by omega)
  rw [← t.read_before_zero hmoves hd]
  exact t.pending_of_unset hmoves (l := q) hd (by rwa [Nat.zero_add]) (by rwa [Nat.zero_add])

/-- What execution `j` gave the timer, less the executions since. -/
theorem pending_of_setting {j l : Nat} {d e : Execution σ} {k : UInt8}
    (hd : (m.executions moves)[j]? = some d) (hk : t.setting? d = some k)
    (hunset : t.Unset (m.executions moves) (j + 1) (j + l + 1))
    (he : (m.executions moves)[j + l]? = some e) : t.pending e = k.toNat - l := by
  have hgiven : t.pending d = k.toNat := by
    rw [pending, hk]
    rfl
  cases l with
  | zero =>
    obtain rfl : d = e := Option.some.inj (hd.symm.trans he)
    exact hgiven
  | succ l =>
    obtain ⟨hlt, -⟩ := List.getElem?_eq_some_iff.mp he
    have hc := List.getElem?_eq_getElem (show j + 1 < (m.executions moves).length by omega)
    have hafter := t.toNat_read_after (List.mem_of_getElem? hd)
    have hbefore := t.read_before_succ hmoves hd hc
    rw [show j + (l + 1) = j + 1 + l by omega] at he hunset
    rw [t.pending_of_unset hmoves hc hunset he, hbefore, hafter, hgiven]
    omega

end Timer

end Run

/-! ## Causes of a beep -/

namespace Timer

variable {σ : Type} {t : Timer} {m : Machine σ} {es : List (Execution σ)}

theorem Unset.not_setting {first stop j : Nat} {d : Execution σ} {k : UInt8}
    (h : t.Unset es first stop) (hj : es[j]? = some d) (hk : t.setting? d = some k)
    (hfirst : first ≤ j) : stop ≤ j := by
  apply Nat.le_of_not_lt
  intro hstop
  rw [h j d hfirst hstop hj] at hk
  cases hk

/-- Before each execution the timer was never set, or it was set for the last time. -/
theorem unset_or_last_setting (t : Timer) (es : List (Execution σ)) (stop : Nat) :
    t.Unset es 0 stop ∨
    ∃ j d k, j < stop ∧ es[j]? = some d ∧ t.setting? d = some k ∧ t.Unset es (j + 1) stop := by
  induction stop with
  | zero => exact Or.inl fun i e _ hi => absurd hi (Nat.not_lt_zero i)
  | succ stop ih =>
    by_cases hset : ∃ d k, es[stop]? = some d ∧ t.setting? d = some k
    · obtain ⟨d, k, hd, hk⟩ := hset
      exact Or.inr ⟨stop, d, k, Nat.lt_succ_self stop, hd, hk, fun i e hi hl => by omega⟩
    · have hextend (first : Nat) (h : t.Unset es first stop) : t.Unset es first (stop + 1) := by
        intro i e hi hl he
        obtain hlt | rfl := Nat.lt_succ_iff_lt_or_eq.mp hl
        · exact h i e hi hlt he
        · exact Option.eq_none_iff_forall_ne_some.mpr fun k hk => hset ⟨e, k, he, hk⟩
      obtain h | ⟨j, d, k, hj, hd, hk, h⟩ := ih
      · exact Or.inl (hextend 0 h)
      · exact Or.inr ⟨j, d, k, Nat.lt_succ_of_lt hj, hd, hk, hextend (j + 1) h⟩

/-- Where the timer runs out, and what it runs out from, determine each other. -/
theorem RunsOut.eq_iff {q q' : Nat} {cause cause' : Option Nat} (h : t.RunsOut m es q cause)
    (h' : t.RunsOut m es q' cause') : q = q' ↔ cause = cause' := by
  cases h with
  | start hq hunset =>
    cases h' with
    | start hq' hunset' =>
      simp only [iff_true]
      omega
    | set hj hk hpos hq' hunset' =>
      have hle := hunset.not_setting hj hk (Nat.zero_le _)
      simp only [reduceCtorEq, iff_false]
      omega
  | set hj hk hpos hq hunset =>
    cases h' with
    | start hq' hunset' =>
      have hle := hunset'.not_setting hj hk (Nat.zero_le _)
      simp only [reduceCtorEq, iff_false]
      omega
    | @set j' d' k' hj' hk' hpos' hq' hunset' =>
      rename_i j d k
      rw [Option.some.injEq]
      constructor
      · rintro rfl
        -- of two different settings the later one would lie between the earlier and its end
        obtain hlt | heq | hgt := Nat.lt_trichotomy j j'
        · have hle := hunset.not_setting hj' hk' hlt
          omega
        · exact heq
        · have hle := hunset'.not_setting hj hk hgt
          omega
      · rintro rfl
        obtain rfl : d = d' := Option.some.inj (hj.symm.trans hj')
        obtain rfl : k = k' := Option.some.inj (hk.symm.trans hk')
        omega

end Timer

section Run

variable {σ : Type} [Surface σ] {m : Machine σ} {moves : List Command}
  (hmoves : ∀ command ∈ moves, command.IsSingle ∧ command.LeavesClocks)

include hmoves

/-- The machine beeps exactly where the sound timer runs out. -/
theorem Execution.rings_iff_runsOut {q : Nat} {e : Execution σ}
    (he : (m.executions moves)[q]? = some e) :
    e.rings = true ↔ ∃ cause, Timer.sound.RunsOut m (m.executions moves) q cause := by
  rw [e.rings_iff (List.mem_of_getElem? he)]
  constructor
  · intro hone
    obtain hunset | ⟨j, d, k, hj, hd, hk, hunset⟩ :=
      Timer.sound.unset_or_last_setting (m.executions moves) (q + 1)
    · have hpending := Timer.sound.pending_of_start hmoves hunset he
      exact ⟨none, .start (by omega) hunset⟩
    · obtain ⟨l, rfl⟩ := Nat.exists_eq_add_of_le (Nat.le_of_lt_succ hj)
      have hpending := Timer.sound.pending_of_setting hmoves hd hk hunset he
      exact ⟨some j, .set hd hk (by omega) (by omega) hunset⟩
  · rintro ⟨cause, hcause⟩
    cases hcause with
    | start hq hunset =>
      rw [Timer.sound.pending_of_start hmoves hunset he]
      omega
    | @set j d k hd hk hpos hq hunset =>
      obtain ⟨l, rfl⟩ := Nat.exists_eq_add_of_le (show j ≤ q by omega)
      rw [Timer.sound.pending_of_setting hmoves hd hk hunset he]
      omega

/-- Nothing but executions beeps. -/
theorem Machine.beeps_after : (m.after moves).beeps =
    m.beeps + (m.executions moves).countP Execution.rings := by
  induction moves generalizing m with
  | nil => rfl
  | cons command rest ih =>
    have hrest := ih (m := (m.perform command).machine)
      fun c hc => hmoves c (List.mem_cons_of_mem command hc)
    rw [after_cons, hrest]
    cases hx : m.executed? command with
    | some i =>
      have he := executions_of_some hx rest
      have hbeeps := Execution.beeps_eq (he ▸ List.mem_cons_self)
      simp only at hbeeps
      rw [he, List.countP_cons, hbeeps]
      omega
    | none =>
      have hkept := Machine.clocks_kept hmoves m command List.mem_cons_self hx
      simp only [clocks, Prod.mk.injEq] at hkept
      rw [executions_of_none hx, hkept.2.2]

theorem Execution.read_after_of_setDelay {j l : Nat} {d e : Execution σ} {k : UInt8} {x : UInt64}
    (hd : (m.executions moves)[j]? = some d) (hk : Timer.delay.setting? d = some k)
    (hunset : Timer.delay.Unset (m.executions moves) (j + 1) (j + l))
    (he : (m.executions moves)[j + l]? = some e) (hi : e.instruction = .getDelay x) :
    (e.after.v.read x.toNat).toNat = k.toNat - l := by
  have hnone : Timer.delay.setting? e = none := by
    rw [Timer.setting?, hi]
    rfl
  have hunset' : Timer.delay.Unset (m.executions moves) (j + 1) (j + l + 1) := by
    intro i c hfirst hstop hc
    obtain hlt | rfl := Nat.lt_succ_iff_lt_or_eq.mp hstop
    · exact hunset i c hfirst hlt hc
    · exact Option.some.inj (he.symm.trans hc) ▸ hnone
  have hpending := Timer.delay.pending_of_setting hmoves hd hk hunset' he
  rw [Timer.pending, hnone] at hpending
  rw [e.read_after_of_getDelay (List.mem_of_getElem? he) hi]
  exact hpending

end Run

namespace Machine

variable {σ : Type} [Surface σ]

/-- How the timers of a machine go through a history. -/
structure KeepsTime (m : Machine σ) (history : List Command) : Prop where
  /-- Nothing but an executed instruction beeps. -/
  beeps_after : (m.after history).beeps = m.beeps + (m.trace history).countP Execution.rings
  /-- An instruction beeps once or not at all. -/
  beeps_eq : ∀ e ∈ m.trace history, e.after.beeps = e.before.beeps + if e.rings then 1 else 0
  /-- It beeps exactly if the sound timer runs out in it. -/
  rings_iff : ∀ {q e}, (m.trace history)[q]? = some e →
    (e.rings = true ↔ ∃ cause, Timer.sound.RunsOut m (m.trace history) q cause)
  /-- A value runs out once at most, and no two values run out in one instruction. -/
  runsOut : ∀ {q q' cause cause'}, Timer.sound.RunsOut m (m.trace history) q cause →
    Timer.sound.RunsOut m (m.trace history) q' cause' → (q = q' ↔ cause = cause')
  /-- Reading the delay timer loads what it was last given, less the instructions since. -/
  getDelay : ∀ {j l d e k x}, (m.trace history)[j]? = some d → Timer.delay.setting? d = some k →
    Timer.delay.Unset (m.trace history) (j + 1) (j + l) → (m.trace history)[j + l]? = some e →
    e.instruction = .getDelay x → (e.after.v.read x.toNat).toNat = k.toNat - l

/-- **A timer counts executed instructions.** In a history without a reset and without beeps of
the host, each value of the sound timer causes one beep in the instruction in which it runs out,
if that one is executed and the timer is not set before, and nothing else beeps. What the delay
timer holds is known in the same way. Steps that wait or are refused do not count. -/
theorem keepsTime (m : Machine σ) {history : List Command}
    (hclocks : ∀ command ∈ history, command.LeavesClocks) :
    m.KeepsTime history ∧
    ∀ (n : Machine σ) (noise : UInt8),
      n.isRunning = false ∨ (∃ fault, (n.step noise).result = .error fault) →
      (n.step noise).machine.delay = n.delay ∧ (n.step noise).machine.sound = n.sound ∧
      (n.step noise).machine.beeps = n.beeps := by
  have hmoves : ∀ command ∈ m.unroll history, command.IsSingle ∧ command.LeavesClocks := by
    intro command hc
    obtain ⟨hs, ⟨byte, rfl⟩ | hh⟩ := mem_unroll hc
    · exact ⟨hs, trivial⟩
    · exact ⟨hs, hclocks command hh⟩
  constructor
  · constructor
    case beeps_after =>
      rw [← after_unroll, beeps_after hmoves]
      rfl
    case beeps_eq => exact fun e he => e.beeps_eq he
    case rings_iff => exact fun he => Execution.rings_iff_runsOut hmoves he
    case runsOut => exact fun h h' => h.eq_iff h'
    case getDelay =>
      exact fun hd hk hunset he hi => Execution.read_after_of_setDelay hmoves hd hk hunset he hi
  · intro n noise h
    have hx : n.executed? (.step noise) = none := by
      obtain hr | ⟨fault, hf⟩ := h
      · simp only [executed?, hr]
      · cases hr : n.isRunning <;> simp only [executed?, hr, hf]
    have hkept : (n.perform (.step noise)).machine.clocks = n.clocks :=
      clocks_perform_of_executed?_eq_none trivial trivial hx
    rw [perform, Outcome.machine_plain] at hkept
    simpa only [clocks, Prod.mk.injEq] using hkept

/-- A sound timer is set to two, and the beep comes with the next instruction that goes through,
behind a word that is refused. -/
theorem keepsTime_of_fault_and_press :
    let memory := Memory.initial.store 0x200 [0xf0, 0x18, 0x00, 0x00, 0x61, 0x05]
    let m : Machine Screen := { initial Screen.blank with memory := memory }
    let n : Machine Screen := { m with status := .waiting 5, sound := 1 }
    let history : List Command := [.setRegister 0 2, .step 0, .step 0, .press 3, .step 0]
    (∀ command ∈ history, command.LeavesClocks) ∧
    (m.trace history).map Execution.rings = [false, true] ∧ m.KeepsTime history ∧
    n.isRunning = false ∧ (n.step 0).machine.delay = n.delay ∧
    (n.step 0).machine.sound = n.sound ∧ (n.step 0).machine.beeps = n.beeps := by
  intro memory m n history
  have hclocks : ∀ command ∈ history, command.LeavesClocks := by
    intro command hc
    simp only [history, List.mem_cons, List.not_mem_nil, or_false] at hc
    obtain rfl | rfl | rfl | rfl | rfl := hc <;> trivial
  have hrings : (m.trace history).map Execution.rings = [false, true] := by decide +kernel
  obtain ⟨htime, hstep⟩ := keepsTime m hclocks
  exact ⟨hclocks, hrings, htime, rfl, hstep n 0 (Or.inl rfl)⟩

end Machine

end Chip8
