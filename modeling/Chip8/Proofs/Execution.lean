import Chip8.Machine.Command

/-!
# What an instruction, a step and a history can do

`Effect` lists what an instruction can do to a machine. It forgets which registers
an instruction writes and keeps what the properties of whole runs hang on: only a
call and a return touch the stack, only they can be refused, only clearing and
drawing touch the surface, and only waiting for a key changes the status.

Everything below follows the layers of the machine. A step that executes is its
instruction and a tick, a run of several steps is a chain of steps, and a history is
a chain of commands, of which those that run nothing keep the addresses, the stack and
the timers. What each link of a chain preserves, the whole chain preserves.
-/

namespace Chip8

namespace Outcome

variable {σ α β : Type}

@[simp]
theorem machine_done (m : Machine σ) (a : α) : (done m a).machine = m := rfl

@[simp]
theorem result_done (m : Machine σ) (a : α) : (done m a).result = .ok a := rfl

@[simp]
theorem machine_refused (m : Machine σ) (fault : Fault) :
    (refused m fault : Outcome σ α).machine = m := rfl

@[simp]
theorem result_refused (m : Machine σ) (fault : Fault) :
    (refused m fault : Outcome σ α).result = .error fault := rfl

/-- An operation either went through or was refused. -/
theorem done_or_refused (o : Outcome σ α) :
    (∃ m a, o = done m a) ∨ ∃ m fault, o = refused m fault := by
  obtain ⟨m, result⟩ := o
  cases result with
  | ok a => exact Or.inl ⟨m, a, rfl⟩
  | error fault => exact Or.inr ⟨m, fault, rfl⟩

@[simp]
theorem machine_plain (o : Outcome σ Unit) : o.plain.machine = o.machine := by
  obtain ⟨m, a, rfl⟩ | ⟨m, fault, rfl⟩ := o.done_or_refused <;> rfl

@[simp]
theorem machine_telling (o : Outcome σ Bool) : o.telling.machine = o.machine := by
  obtain ⟨m, a, rfl⟩ | ⟨m, fault, rfl⟩ := o.done_or_refused <;> rfl

end Outcome

/-- The command neither runs instructions nor starts the machine over. -/
def Command.IsRequest : Command → Prop
  | .step _ => False
  | .multistep _ _ => False
  | .reset => False
  | _ => True

/-- The instruction is there to say which one comes next. -/
def Instruction.IsControl : Instruction → Prop
  | .ret | .jump _ | .call _ | .jumpOffset _ => True
  | .skipIfByte _ _ | .skipUnlessByte _ _ | .skipIfSame _ _ _ | .skipUnlessSame _ _ _ => True
  | .skipIfHeld _ | .skipIfLoose _ => True
  | _ => False

namespace Sprite

section Induction

variable {σ : Type} [Surface σ] {P : σ → Prop}
  (hlight : ∀ surface x y, P surface → P (Surface.light surface x y))
  (hdarken : ∀ surface x y, P surface → P (Surface.darken surface x y))

include hlight hdarken

theorem drawPixel_induction (x y : Nat) (row : UInt8) {state : σ × Bool} (h : P state.1)
    (column : Nat) : P (drawPixel x y row state column).1 := by
  simp only [drawPixel]
  split
  · exact hlight _ _ _ h
  · exact hdarken _ _ _ h

theorem drawRow_induction (x y : Nat) {state : σ × Bool} (h : P state.1) (row : UInt8) :
    P (drawRow x y state row).1 :=
  List.foldlRecOn (motive := fun state : σ × Bool => P state.1) _ _ h
    fun _ h column _ => drawPixel_induction hlight hdarken x y row h column

/-- What lighting and darkening preserve, drawing a sprite preserves. -/
theorem draw_induction (x y : Nat) (rows : List UInt8) {state : σ × Bool} (h : P state.1) :
    P (draw x y rows state).1 := by
  induction rows generalizing y state with
  | nil => exact h
  | cons row rest ih => exact ih (y + 1) (drawRow_induction hlight hdarken x y h row)

end Induction

end Sprite

namespace Machine

variable {σ : Type}

/-- The machine once the next word has been fetched. -/
def advance (m : Machine σ) : Machine σ :=
  { m with pc := m.pc + 2 }

variable [Surface σ]

/-- What an instruction can do to a machine whose program counter is behind it. -/
inductive Effect (m : Machine σ) : Instruction → Outcome σ Unit → Prop
  /-- Registers, timers and the two addresses change, and nothing else. -/
  | plain (i : Instruction) (pc index : UInt16) (v : Registers) (delay sound : UInt8) :
      Effect m i
        (.done { m with pc := pc, index := index, v := v, delay := delay, sound := sound } ())
  | store (i : Instruction) (bytes : List UInt8) : Effect m i (.done (m.storeAtIndex bytes) ())
  | clear : Effect m .clear (.done m.clearSurface ())
  | draw (x y : UInt64) (n : UInt8) :
      Effect m (.draw x y n) (.done (m.drawSprite x.toNat y.toNat n.toNat) ())
  | await (x : UInt64) : Effect m (.awaitKey x) (.done { m with status := .waiting x } ())
  | call (a : UInt16) {stack : CallStack} (h : m.stack.push m.pc = (stack, .ok ())) :
      Effect m (.call a) (.done { m with pc := a, stack := stack } ())
  | overflow (a : UInt16) (h : CallStack.capacity ≤ m.stack.depth) :
      Effect m (.call a) (.refused m .stackOverflow)
  | ret {address : UInt16} {stack : CallStack} (h : m.stack.pop = (stack, .ok address)) :
      Effect m .ret (.done { m with pc := address, stack := stack } ())
  | underflow (h : m.stack.depth = 0) : Effect m .ret (.refused m .stackUnderflow)

/-- An instruction leaves both counters alone: counting is for the step around it. -/
theorem Effect.counters {m : Machine σ} {i : Instruction} {o : Outcome σ Unit}
    (he : Effect m i o) : o.machine.cycle = m.cycle ∧ o.machine.beeps = m.beeps := by
  cases he <;> exact ⟨rfl, rfl⟩

/-- Only the host holds keys and lets them go. -/
theorem Effect.keys {m : Machine σ} {i : Instruction} {o : Outcome σ Unit} (he : Effect m i o) :
    o.machine.keys = m.keys := by
  cases he <;> rfl

theorem effect_skipIf (m : Machine σ) (i : Instruction) (condition : Bool) :
    Effect m i (.done (m.skipIf condition) ()) := by
  cases condition
  · exact .plain i m.pc m.index m.v m.delay m.sound
  · exact .plain i (m.pc + 2) m.index m.v m.delay m.sound

theorem effect_call (m : Machine σ) (noise : UInt8) (a : UInt16) :
    Effect m (.call a) (m.execute noise (.call a)) := by
  obtain ⟨stack, h⟩ | ⟨hfull, h⟩ := m.stack.push_cases m.pc
  · simp only [execute, h]
    exact .call a h
  · simp only [execute, h]
    exact .overflow a hfull

theorem effect_ret (m : Machine σ) (noise : UInt8) : Effect m .ret (m.execute noise .ret) := by
  obtain ⟨stack, address, h⟩ | ⟨hempty, h⟩ := m.stack.pop_cases
  · simp only [execute, h]
    exact .ret h
  · simp only [execute, h]
    exact .underflow hempty

/-- Executing an instruction has one of the listed effects. -/
theorem effect_execute (m : Machine σ) (noise : UInt8) (i : Instruction) :
    Effect m i (m.execute noise i) := by
  cases i with
  | clear => exact .clear
  | ret => exact effect_ret m noise
  | jump a => exact .plain _ a m.index m.v m.delay m.sound
  | call a => exact effect_call m noise a
  | skipIfByte x b => exact effect_skipIf m _ _
  | skipUnlessByte x b => exact effect_skipIf m _ _
  | skipIfSame x y n => exact effect_skipIf m _ _
  | setByte x b => exact .plain _ m.pc m.index _ m.delay m.sound
  | addByte x b => exact .plain _ m.pc m.index _ m.delay m.sound
  | alu operation x y => exact .plain _ m.pc m.index _ m.delay m.sound
  | skipUnlessSame x y n => exact effect_skipIf m _ _
  | setIndex a => exact .plain _ m.pc a m.v m.delay m.sound
  | jumpOffset a => exact .plain _ _ m.index m.v m.delay m.sound
  | random x b => exact .plain _ m.pc m.index _ m.delay m.sound
  | draw x y n => exact .draw x y n
  | skipIfHeld x => exact effect_skipIf m _ _
  | skipIfLoose x => exact effect_skipIf m _ _
  | getDelay x => exact .plain _ m.pc m.index _ m.delay m.sound
  | awaitKey x => exact .await x
  | setDelay x => exact .plain _ m.pc m.index m.v _ m.sound
  | setSound x => exact .plain _ m.pc m.index m.v m.delay _
  | addIndex x => exact .plain _ m.pc _ m.v m.delay m.sound
  | pointGlyph x => exact .plain _ m.pc _ m.v m.delay m.sound
  | storeDigits x => exact .store _ _
  | storeRegisters x => exact .store _ _
  | loadRegisters x => exact .plain _ m.pc m.index _ m.delay m.sound

/-- Jumps, calls, returns and skips move the program counter, change the stack, and do nothing
else. -/
theorem execute_of_isControl (m : Machine σ) (noise : UInt8) {i : Instruction}
    (hi : i.IsControl) :
    ∃ pc stack, (m.execute noise i).machine = { m with pc := pc, stack := stack } := by
  have hskip (condition : Bool) :
      ∃ pc stack, m.skipIf condition = { m with pc := pc, stack := stack } := by
    cases condition
    · exact ⟨m.pc, m.stack, rfl⟩
    · exact ⟨m.pc + 2, m.stack, rfl⟩
  cases i with
  | ret =>
    simp only [execute]
    split
    · exact ⟨_, _, rfl⟩
    · exact ⟨m.pc, _, rfl⟩
  | call a =>
    simp only [execute]
    split
    · exact ⟨_, _, rfl⟩
    · exact ⟨m.pc, _, rfl⟩
  | jump a => exact ⟨a, m.stack, rfl⟩
  | jumpOffset a => exact ⟨_, m.stack, rfl⟩
  | skipIfByte | skipUnlessByte | skipIfSame | skipUnlessSame | skipIfHeld | skipIfLoose =>
    exact hskip _
  | _ => exact hi.elim

/-! ## Steps -/

theorem step_of_not_running {m : Machine σ} (h : m.isRunning = false) (noise : UInt8) :
    m.step noise = .done m () := by
  simp [step, h]

theorem step_of_decode_eq_none {m : Machine σ} (hr : m.isRunning = true)
    (hd : Instruction.decode m.nextWord = none) (noise : UInt8) :
    m.step noise = .refused m.advance (.unknownOpcode m.nextWord) := by
  simp [step, hr, hd, advance]

theorem step_of_decode_eq_some {m : Machine σ} {i : Instruction} (hr : m.isRunning = true)
    (hd : Instruction.decode m.nextWord = some i) (noise : UInt8) :
    m.step noise = (m.advance.execute noise i).andThen fun m _ => .done m.finish () := by
  simp [step, hr, hd, advance]

/-- A machine that waits stays as it is, a word of no family is refused, and any other
word is executed and counted. -/
theorem step_cases (m : Machine σ) (noise : UInt8) :
    (m.isRunning = false ∧ m.step noise = .done m ()) ∨
    (m.isRunning = true ∧ Instruction.decode m.nextWord = none ∧
      m.step noise = .refused m.advance (.unknownOpcode m.nextWord)) ∨
    ∃ i o, m.isRunning = true ∧ Instruction.decode m.nextWord = some i ∧ Effect m.advance i o ∧
      m.step noise = o.andThen fun m _ => .done m.finish () := by
  cases hr : m.isRunning with
  | false => exact Or.inl ⟨rfl, step_of_not_running hr noise⟩
  | true =>
    cases hd : Instruction.decode m.nextWord with
    | none => exact Or.inr (Or.inl ⟨rfl, rfl, step_of_decode_eq_none hr hd noise⟩)
    | some i =>
      exact Or.inr (Or.inr ⟨i, _, rfl, rfl, effect_execute m.advance noise i,
        step_of_decode_eq_some hr hd noise⟩)

/-- A step counts at most one instruction and beeps at most once. -/
theorem counters_step (m : Machine σ) (noise : UInt8) :
    (m.cycle ≤ (m.step noise).machine.cycle ∧ (m.step noise).machine.cycle ≤ m.cycle + 1) ∧
    (m.beeps ≤ (m.step noise).machine.beeps ∧ (m.step noise).machine.beeps ≤ m.beeps + 1) := by
  obtain ⟨_, hs⟩ | ⟨_, _, hs⟩ | ⟨i, o, _, _, he, hs⟩ := m.step_cases noise
  · simp [hs]
  · simp [hs, advance]
  · obtain ⟨hcycle, hbeeps⟩ := he.counters
    rw [hs]
    obtain ⟨n, a, rfl⟩ | ⟨n, fault, rfl⟩ := o.done_or_refused
    · simp only [Outcome.machine_done, advance] at hcycle hbeeps
      simp only [Outcome.andThen_done, Outcome.machine_done, finish, tick, hcycle, hbeeps]
      split <;> omega
    · simp only [Outcome.machine_refused, advance] at hcycle hbeeps
      simp [hcycle, hbeeps]

/-- A program cannot press keys. -/
theorem keys_step (m : Machine σ) (noise : UInt8) : (m.step noise).machine.keys = m.keys := by
  obtain ⟨_, hs⟩ | ⟨_, _, hs⟩ | ⟨i, o, _, _, he, hs⟩ := m.step_cases noise
  · rw [hs]
    rfl
  · rw [hs]
    rfl
  · have hkeys := he.keys
    rw [hs]
    obtain ⟨n, a, rfl⟩ | ⟨n, fault, rfl⟩ := o.done_or_refused
    · exact hkeys
    · exact hkeys

theorem stepsFrom_of_not_running {m : Machine σ} (h : m.isRunning = false) (noise : Nat → UInt8)
    (first count : Nat) : stepsFrom noise first count m = .done m () := by
  cases count with
  | zero => rfl
  | succ count => simp [stepsFrom, step_of_not_running h, Outcome.done, h]

/-- Ending early when the machine waits makes no difference: a run is its first step, and
the rest of the run unless that step was refused. -/
theorem stepsFrom_succ (m : Machine σ) (noise : Nat → UInt8) (first count : Nat) :
    stepsFrom noise first (count + 1) m =
      (m.step (noise first)).andThen fun m _ => stepsFrom noise (first + 1) count m := by
  simp only [stepsFrom]
  obtain ⟨n, a, h⟩ | ⟨n, fault, h⟩ := (m.step (noise first)).done_or_refused
  · simp only [h, Outcome.done, Outcome.andThen]
    cases hr : n.isRunning with
    | true => rfl
    | false => exact (stepsFrom_of_not_running hr noise _ _).symm
  · simp only [h, Outcome.refused, Outcome.andThen]

/-- What every step preserves, a run of several steps preserves. -/
theorem stepsFrom_induction {P : Machine σ → Prop}
    (hstep : ∀ (m : Machine σ) (noise : UInt8), P m → P (m.step noise).machine)
    {m : Machine σ} (h : P m) (noise : Nat → UInt8) (first count : Nat) :
    P (stepsFrom noise first count m).machine := by
  induction count generalizing first m with
  | zero => exact h
  | succ count ih =>
    have hn := hstep m (noise first) h
    rw [stepsFrom_succ]
    obtain ⟨n, a, he⟩ | ⟨n, fault, he⟩ := (m.step (noise first)).done_or_refused
    · rw [he] at hn ⊢
      exact ih hn (first + 1)
    · rw [he] at hn ⊢
      exact hn

theorem multistep_induction {P : Machine σ → Prop}
    (hstep : ∀ (m : Machine σ) (noise : UInt8), P m → P (m.step noise).machine)
    {m : Machine σ} (h : P m) (noise : Nat → UInt8) (count : Nat) :
    P (m.multistep noise count).machine :=
  stepsFrom_induction hstep h noise 0 count

theorem keys_multistep (m : Machine σ) (noise : Nat → UInt8) (count : Nat) :
    (m.multistep noise count).machine.keys = m.keys :=
  multistep_induction (P := fun n => n.keys = m.keys) (fun n noise h => (n.keys_step noise).trans h)
    rfl noise count

/-! ## Requests -/

/-- What a request that runs nothing and does not start over leaves as it was: what belongs to
the program alone, and whatever else is not what the request is for. -/
structure KeptBy (command : Command) (m n : Machine σ) : Prop where
  stack : n.stack = m.stack
  pc : n.pc = m.pc
  index : n.index = m.index
  delay : n.delay = m.delay
  sound : n.sound = m.sound
  cycle : n.cycle = m.cycle
  surface : (∀ edit, command ≠ .paint edit) → n.surface = m.surface
  redraw : command ≠ .clearRedraw → n.redraw = m.redraw
  beeps : command ≠ .beep → command ≠ .forgetBeeps → n.beeps = m.beeps
  status : (∀ key < 16, command ≠ .press key) → n.status = m.status

omit [Surface σ] in
theorem keptBy_with (command : Command) (m : Machine σ) (memory : Memory) (v : Registers)
    (keys : Keys) : KeptBy command m { m with memory := memory, v := v, keys := keys } :=
  ⟨rfl, rfl, rfl, rfl, rfl, rfl, fun _ => rfl, fun _ => rfl, fun _ _ => rfl, fun _ => rfl⟩

theorem keptBy_press (m : Machine σ) (key : Nat) :
    KeptBy (.press key) m (m.perform (.press key)).machine := by
  rw [perform, Outcome.machine_telling, press]
  split
  · exact keptBy_with _ m m.memory m.v m.keys
  · rename_i held hk
    split
    · exact keptBy_with _ m m.memory m.v _
    · have hkey := Keys.lt_of_held?_eq_some hk
      exact ⟨rfl, rfl, rfl, rfl, rfl, rfl, fun _ => rfl, fun _ => rfl, fun _ _ => rfl,
        fun h => absurd rfl (h key hkey)⟩

theorem keptBy_of_isRequest (m : Machine σ) {command : Command} (h : command.IsRequest) :
    KeptBy command m (m.perform command).machine := by
  cases command with
  | step noise => exact h.elim
  | multistep noise count => exact h.elim
  | reset => exact h.elim
  | press key => exact m.keptBy_press key
  | release key =>
    rw [perform, Outcome.machine_telling, release]
    split <;> exact keptBy_with _ m _ _ _
  | setRegister register byte =>
    rw [perform, Outcome.machine_plain, setRegister]
    split <;> exact keptBy_with _ m _ _ _
  | load program =>
    rw [perform, Outcome.machine_plain, load]
    split <;> exact keptBy_with _ m _ _ _
  | edit edit =>
    rw [perform]
    split <;> exact keptBy_with _ m _ _ _
  | clearRedraw =>
    exact { keptBy_with _ m m.memory m.v m.keys with redraw := fun h => absurd rfl h }
  | paint edit =>
    exact { keptBy_with _ m m.memory m.v m.keys with surface := fun h => absurd rfl (h edit) }
  | beep => exact { keptBy_with _ m m.memory m.v m.keys with beeps := fun h => absurd rfl h }
  | forgetBeeps =>
    exact { keptBy_with _ m m.memory m.v m.keys with beeps := fun _ h => absurd rfl h }

/-! ## Histories -/

@[simp]
theorem after_nil (m : Machine σ) : m.after [] = m := rfl

@[simp]
theorem after_cons (m : Machine σ) (command : Command) (rest : List Command) :
    m.after (command :: rest) = (m.perform command).machine.after rest := rfl

@[simp]
theorem after_append (m : Machine σ) (first second : List Command) :
    m.after (first ++ second) = (m.after first).after second :=
  List.foldl_append

/-- The machine behind one more command of a history. -/
theorem after_take_succ (m : Machine σ) {history : List Command} {k : Nat} {command : Command}
    (h : history[k]? = some command) :
    m.after (history.take (k + 1)) = ((m.after (history.take k)).perform command).machine := by
  rw [List.take_add_one, h]
  simp

/-- What every command preserves, a history preserves. -/
theorem after_induction {P : Machine σ → Prop}
    (hperform : ∀ (m : Machine σ) (command : Command), P m → P (m.perform command).machine)
    {m : Machine σ} (h : P m) (history : List Command) : P (m.after history) := by
  induction history generalizing m with
  | nil => exact h
  | cons command rest ih => exact ih (hperform m command h)

end Machine

end Chip8
