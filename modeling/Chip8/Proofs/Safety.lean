import Chip8.Proofs.Checked
import Chip8.Proofs.WellFormed

/-!
# No reachable machine reaches past its parts

A command is carried out once more, now with every access checked and every sum and
product that is not meant to wrap bounded by its word: `perform?` gives up where the
machine's own `perform` would have to fall back on a default. On a well-formed machine
it never gives up and does what `perform` does, as long as the two counters fit a
machine word. Every machine that histories lead to is well formed, so no history and no
program, not even one that rewrites itself, brings the machine to such a place.
-/

namespace Chip8

/-- The addresses that the host names are machine words, and not the last one. -/
def Command.Fits : Command → Prop
  | .edit request => request.Fits
  | _ => True

namespace Machine

/-- Both counters are machine words. -/
def CountersFit {σ : Type} (m : Machine σ) : Prop :=
  m.cycle < UInt64.size ∧ m.beeps < UInt64.size

def storeAtIndex? (m : Machine Screen) (bytes : List UInt8) : Option (Machine Screen) := do
  let memory ← m.memory.store? m.index.toNat bytes
  return { m with memory := memory }

def setV? (m : Machine Screen) (x : UInt64) (byte : UInt8) : Option (Outcome Screen Unit) := do
  let v ← m.v.write? x.toNat byte
  return .done { m with v := v } ()

def drawSprite? (m : Machine Screen) (x y n : Nat) : Option (Machine Screen) := do
  let vx ← m.v.read? x
  let vy ← m.v.read? y
  let rows ← m.memory.fetch? m.index.toNat n
  let (surface, hit) ← Sprite.draw? vx.toNat vy.toNat rows (m.surface, false)
  let v ← m.v.write? Registers.flag (flagByte hit)
  return { m with surface := surface, v := v, redraw := true }

/-- Executes an instruction. -/
def execute? (m : Machine Screen) (noise : UInt8) : Instruction → Option (Outcome Screen Unit)
  | .clear => return .done m.clearSurface ()
  | .ret => do
    match ← m.stack.pop? with
    | (stack, .ok address) => return .done { m with pc := address, stack := stack } ()
    | (stack, .error fault) => return .refused { m with stack := stack } fault
  | .jump a => return .done { m with pc := a } ()
  | .call a => do
    match ← m.stack.push? m.pc with
    | (stack, .ok ()) => return .done { m with pc := a, stack := stack } ()
    | (stack, .error fault) => return .refused { m with stack := stack } fault
  | .skipIfByte x b => do
    let vx ← m.v.read? x.toNat
    return .done (m.skipIf (vx == b)) ()
  | .skipUnlessByte x b => do
    let vx ← m.v.read? x.toNat
    return .done (m.skipIf (vx != b)) ()
  | .skipIfSame x y _ => do
    let vx ← m.v.read? x.toNat
    let vy ← m.v.read? y.toNat
    return .done (m.skipIf (vx == vy)) ()
  | .setByte x b => m.setV? x b
  | .addByte x b => do
    let vx ← m.v.read? x.toNat
    m.setV? x (vx + b)
  | .alu operation x y => do
    let v ← m.v.combine? operation x.toNat y.toNat
    return .done { m with v := v } ()
  | .skipUnlessSame x y _ => do
    let vx ← m.v.read? x.toNat
    let vy ← m.v.read? y.toNat
    return .done (m.skipIf (vx != vy)) ()
  | .setIndex a => return .done { m with index := a } ()
  | .jumpOffset a => do
    let v0 ← m.v.read? 0
    return .done { m with pc := a + v0.toUInt16 } ()
  | .random x b => m.setV? x (noise &&& b)
  | .draw x y n => do
    let m ← m.drawSprite? x.toNat y.toNat n.toNat
    return .done m ()
  | .skipIfHeld x => do
    let vx ← m.v.read? x.toNat
    return .done (m.skipIf (m.keys.held? vx.toNat = some true)) ()
  | .skipIfLoose x => do
    let vx ← m.v.read? x.toNat
    return .done (m.skipIf (m.keys.held? vx.toNat = some false)) ()
  | .getDelay x => m.setV? x m.delay
  | .awaitKey x => return .done { m with status := .waiting x } ()
  | .setDelay x => do
    let vx ← m.v.read? x.toNat
    return .done { m with delay := vx } ()
  | .setSound x => do
    let vx ← m.v.read? x.toNat
    return .done { m with sound := vx } ()
  | .addIndex x => do
    let vx ← m.v.read? x.toNat
    return .done { m with index := m.index + vx.toUInt16 } ()
  | .pointGlyph x => do
    let vx ← m.v.read? x.toNat
    let glyph ← below? UInt16.size (vx.toNat * Memory.glyphSize)
    return .done { m with index := UInt16.ofNat glyph } ()
  | .storeDigits x => do
    let vx ← m.v.read? x.toNat
    let m ← m.storeAtIndex? (decimalDigits vx)
    return .done m ()
  | .storeRegisters x => do
    let bytes ← (List.range (x.toNat + 1)).mapM m.v.read?
    let m ← m.storeAtIndex? bytes
    return .done m ()
  | .loadRegisters x => do
    let bytes ← m.memory.fetch? m.index.toNat (x.toNat + 1)
    let v ← m.v.writeFrom? 0 bytes
    return .done { m with v := v } ()

/-- Counts an instruction that went through. -/
def finish? (m : Machine Screen) : Option (Machine Screen) := do
  let cycle ← below? UInt64.size (m.cycle + 1)
  let beeps ← below? UInt64.size (if m.sound = 1 then m.beeps + 1 else m.beeps)
  return { m.finish with cycle := cycle, beeps := beeps }

def step? (m : Machine Screen) (noise : UInt8) : Option (Outcome Screen Unit) :=
  if m.isRunning then do
    let word ← m.memory.readWord? m.pc.toNat
    match Instruction.decode word with
    | none => return .refused m.advance (.unknownOpcode word)
    | some i =>
      match ← m.advance.execute? noise i with
      | ⟨m, .ok ()⟩ => do
        let m ← m.finish?
        return .done m ()
      | ⟨m, .error fault⟩ => return .refused m fault
  else return .done m ()

def stepsFrom? (noise : Nat → UInt8) (first : Nat) :
    Nat → Machine Screen → Option (Outcome Screen Unit)
  | 0, m => return .done m ()
  | count + 1, m => do
    match ← m.step? (noise first) with
    | ⟨m, .ok ()⟩ => stepsFrom? noise (first + 1) count m
    | ⟨m, .error fault⟩ => return .refused m fault

def press? (m : Machine Screen) (key : Nat) : Option (Outcome Screen Bool) :=
  match m.keys.held? key with
  | none => return .refused m (.invalidKey key)
  | some held =>
    let keys := m.keys.set key true
    match m.status with
    | .running => return .done { m with keys := keys } !held
    | .waiting register => do
      let v ← m.v.write? register.toNat (UInt8.ofNat key)
      return .done { m with keys := keys, v := v, status := .running } !held

/-- Carries out a command. -/
def perform? (m : Machine Screen) : Command → Option (Outcome Screen Reply)
  | .step noise => do
    let o ← m.step? noise
    return o.plain
  | .multistep noise count => do
    let o ← stepsFrom? noise 0 count m
    return o.plain
  | .press key => do
    let o ← m.press? key
    return o.telling
  | .load program => do
    match ← m.memory.load? .program program with
    | (memory, .ok ()) => return .done { m with memory := memory } .done
    | (memory, .error fault) => return .refused { m with memory := memory } fault
  | .edit edit => do
    match ← m.memory.edit? edit with
    | (memory, .ok ()) => return .done { m with memory := memory } .done
    | (memory, .error fault) => return .refused { m with memory := memory } fault
  | .paint edit => do
    let surface ← m.surface.paint? edit
    return .done { m with surface := surface } .done
  | .beep => do
    let beeps ← below? UInt64.size (m.beeps + 1)
    return .done { m with beeps := beeps } .done
  -- these look up nothing, or look up a key or a register by a number that may be missing
  | .release key => return (m.release key).telling
  | .setRegister register byte => return (m.setRegister register byte).plain
  | .reset => return .done m.reset .done
  | .clearRedraw => return .done { m with redraw := false } .done
  | .forgetBeeps => return .done { m with beeps := 0 } .done

namespace WellFormed

variable {m : Machine Screen}

theorem storeAtIndex?_eq (h : m.WellFormed) {bytes : List UInt8} (hb : bytes.length ≤ 16) :
    m.storeAtIndex? bytes = some (m.storeAtIndex bytes) := by
  have hfits := add_le_word (UInt16.toNat_lt m.index) hb
  rw [storeAtIndex?, h.memory.store?_eq hfits]
  rfl

theorem setV?_eq (m : Machine Screen) {x : UInt64} (hx : x.toNat < 16) (byte : UInt8) :
    m.setV? x byte = some (.done (m.setV x.toNat byte) ()) := by
  rw [setV?, m.v.write?_eq hx]
  rfl

theorem drawSprite?_eq (h : m.WellFormed) {x y n : Nat} (hx : x < 16) (hy : y < 16)
    (hn : n < 16) : m.drawSprite? x y n = some (m.drawSprite x y n) := by
  have hbyte (byte : UInt8) : byte.toNat < UInt16.size :=
    Nat.lt_trans (UInt8.toNat_lt byte) (by decide)
  have hrows := add_le_word (UInt16.toNat_lt m.index) (Nat.le_of_lt hn)
  have hleft := add_le_word (hbyte (m.v.read x)) (show 8 ≤ 16 by decide)
  have htop : (m.v.read y).toNat + (m.memory.fetch m.index.toNat n).length ≤ UInt64.size := by
    rw [Memory.length_fetch]
    exact add_le_word (hbyte (m.v.read y)) (Nat.le_of_lt hn)
  simp only [drawSprite?, m.v.read?_eq hx, m.v.read?_eq hy, h.memory.fetch?_eq hrows,
    Option.bind_eq_bind, Option.bind_some]
  rw [Sprite.draw?_eq h.surface hleft htop, Option.bind_some,
    Registers.write?_eq _ (show Registers.flag < 16 by decide)]
  rfl

/-- The glyph of any byte lies at an address, so taking it does not wrap. -/
theorem pointGlyph?_eq (m : Machine Screen) (noise : UInt8) {x : UInt64} (hx : x.toNat < 16) :
    m.execute? noise (.pointGlyph x) = some (m.execute noise (.pointGlyph x)) := by
  have hvx := UInt8.toNat_lt (m.v.read x.toNat)
  have hglyph : (m.v.read x.toNat).toNat * Memory.glyphSize < UInt16.size := by
    simp only [Memory.glyphSize, UInt16.size]
    omega
  simp only [execute?, m.v.read?_eq hx, below?_of_lt hglyph, Option.bind_eq_bind,
    Option.bind_some]
  rw [UInt16.ofNat_mul, UInt16.ofNat_uInt8ToNat]
  rfl

theorem storeRegisters?_eq (h : m.WellFormed) (noise : UInt8) {x : UInt64} (hx : x.toNat < 16) :
    m.execute? noise (.storeRegisters x) = some (m.execute noise (.storeRegisters x)) := by
  have hlength : ((List.range (x.toNat + 1)).map m.v.read).length ≤ 16 := by
    rw [List.length_map, List.length_range]
    exact hx
  simp only [execute?, m.v.mapM_read?_eq hx, h.storeAtIndex?_eq hlength, Option.bind_eq_bind,
    Option.bind_some]
  rfl

theorem loadRegisters?_eq (h : m.WellFormed) (noise : UInt8) {x : UInt64} (hx : x.toNat < 16) :
    m.execute? noise (.loadRegisters x) = some (m.execute noise (.loadRegisters x)) := by
  have hrows := add_le_word (UInt16.toNat_lt m.index) hx
  have hlength : 0 + (m.memory.fetch m.index.toNat (x.toNat + 1)).length ≤ 16 := by
    rw [Memory.length_fetch, Nat.zero_add]
    exact hx
  simp only [execute?, h.memory.fetch?_eq hrows, m.v.writeFrom?_eq hlength, Option.bind_eq_bind,
    Option.bind_some]
  rfl

/-- No instruction that a word can hold reaches past the parts of a well-formed machine. -/
theorem execute?_eq (h : m.WellFormed) (noise : UInt8) {i : Instruction} (hi : i.InRange) :
    m.execute? noise i = some (m.execute noise i) := by
  cases i with
  | clear => rfl
  | ret =>
    simp only [execute?, Machine.execute, h.stack.pop?_eq, Option.bind_eq_bind, Option.bind_some]
    rcases m.stack.pop with ⟨stack, fault | address⟩ <;> rfl
  | jump a => rfl
  | call a =>
    simp only [execute?, Machine.execute, CallStack.push?_eq, Option.bind_eq_bind,
      Option.bind_some]
    rcases m.stack.push m.pc with ⟨stack, fault | _⟩ <;> rfl
  | setIndex a => rfl
  | jumpOffset a =>
    rw [execute?, m.v.read?_eq (by decide)]
    rfl
  | skipIfSame x y n | skipUnlessSame x y n =>
    obtain ⟨hx, hy, -⟩ : x.toNat < 16 ∧ y.toNat < 16 ∧ n.toNat < 16 := hi
    simp only [execute?, m.v.read?_eq hx, m.v.read?_eq hy]
    rfl
  | draw x y n =>
    obtain ⟨hx, hy, hn⟩ : x.toNat < 16 ∧ y.toNat < 16 ∧ n.toNat < 16 := hi
    rw [execute?, h.drawSprite?_eq hx hy hn]
    rfl
  | alu operation x y =>
    obtain ⟨hx, hy⟩ : x.toNat < 16 ∧ y.toNat < 16 := hi
    rw [execute?, m.v.combine?_eq operation hx hy]
    rfl
  | setByte x b | random x b | getDelay x =>
    have hx : x.toNat < 16 := hi
    exact setV?_eq m hx _
  | addByte x b =>
    have hx : x.toNat < 16 := hi
    rw [execute?, m.v.read?_eq hx]
    exact setV?_eq m hx _
  | awaitKey x => rfl
  | pointGlyph x => exact pointGlyph?_eq m noise hi
  | storeDigits x =>
    have hx : x.toNat < 16 := hi
    have hlength : (decimalDigits (m.v.read x.toNat)).length ≤ 16 := by simp [decimalDigits]
    simp only [execute?, m.v.read?_eq hx, h.storeAtIndex?_eq hlength, Option.bind_eq_bind,
      Option.bind_some]
    rfl
  | storeRegisters x => exact h.storeRegisters?_eq noise hi
  | loadRegisters x => exact h.loadRegisters?_eq noise hi
  | skipIfByte x | skipUnlessByte x | skipIfHeld x | skipIfLoose x | setDelay x | setSound x
  | addIndex x =>
    have hx : x.toNat < 16 := hi
    rw [execute?, m.v.read?_eq hx]
    rfl

theorem finish?_eq {m : Machine Screen} (hc : m.finish.CountersFit) :
    m.finish? = some m.finish := by
  have hcycle : m.cycle + 1 < UInt64.size := hc.1
  have hbeeps : (if m.sound = 1 then m.beeps + 1 else m.beeps) < UInt64.size := hc.2
  rw [finish?, below?_of_lt hcycle, below?_of_lt hbeeps]
  rfl

theorem step?_eq (h : m.WellFormed) (noise : UInt8) (hc : (m.step noise).machine.CountersFit) :
    m.step? noise = some (m.step noise) := by
  cases hr : m.isRunning with
  | false =>
    rw [step_of_not_running hr, step?, hr]
    rfl
  | true =>
    have hnext : m.pc.toNat + 1 < UInt64.size :=
      add_le_word (UInt16.toNat_lt m.pc) (show 2 ≤ 16 by decide)
    have hword : m.memory.readWord? m.pc.toNat = some m.nextWord := h.memory.readWord?_eq hnext
    rw [step?, hr, if_pos rfl, hword]
    simp only [Option.bind_eq_bind, Option.bind_some]
    cases hd : Instruction.decode m.nextWord with
    | none =>
      rw [step_of_decode_eq_none hr hd]
      rfl
    | some i =>
      have hadvance : m.advance.WellFormed := { h with }
      rw [step_of_decode_eq_some hr hd] at hc ⊢
      simp only [hadvance.execute?_eq noise (Instruction.inRange_of_decode hd), Option.bind_some]
      obtain ⟨n, a, ho⟩ | ⟨n, fault, ho⟩ := (m.advance.execute noise i).done_or_refused
      · rw [ho] at hc ⊢
        have hn : n.finish.CountersFit := hc
        simp only [Outcome.done, finish?_eq hn]
        rfl
      · rw [ho]
        rfl

/-- Counters that fit behind a run fitted at every step of it. -/
theorem countersFit_of_stepsFrom {m : Machine Screen} {noise : Nat → UInt8} {first count : Nat}
    (hc : (stepsFrom noise first count m).machine.CountersFit) : m.CountersFit := by
  have hle : m.cycle ≤ (stepsFrom noise first count m).machine.cycle ∧
      m.beeps ≤ (stepsFrom noise first count m).machine.beeps := by
    refine stepsFrom_induction (P := fun n => m.cycle ≤ n.cycle ∧ m.beeps ≤ n.beeps)
      (fun n noise h => ?_) ⟨Nat.le_refl _, Nat.le_refl _⟩ noise first count
    obtain ⟨⟨hcycle, _⟩, ⟨hbeeps, _⟩⟩ := n.counters_step noise
    exact ⟨Nat.le_trans h.1 hcycle, Nat.le_trans h.2 hbeeps⟩
  exact ⟨Nat.lt_of_le_of_lt hle.1 hc.1, Nat.lt_of_le_of_lt hle.2 hc.2⟩

theorem stepsFrom?_eq (h : m.WellFormed) {noise : Nat → UInt8} {first count : Nat}
    (hc : (stepsFrom noise first count m).machine.CountersFit) :
    stepsFrom? noise first count m = some (stepsFrom noise first count m) := by
  induction count generalizing first m with
  | zero => rfl
  | succ count ih =>
    have hn := h.step (noise first)
    have hs := h.step?_eq (noise first)
    rw [stepsFrom_succ] at hc ⊢
    rw [stepsFrom?]
    obtain ⟨n, a, he⟩ | ⟨n, fault, he⟩ := (m.step (noise first)).done_or_refused
    · rw [he] at hn hs hc ⊢
      rw [hs (countersFit_of_stepsFrom hc)]
      exact ih hn hc
    · rw [he] at hs hc ⊢
      rw [hs hc]
      rfl

theorem press?_eq (h : m.WellFormed) (key : Nat) : m.press? key = some (m.press key) := by
  cases hk : m.keys.held? key with
  | none =>
    simp only [press?, Machine.press, hk]
    rfl
  | some held =>
    cases hs : m.status with
    | running =>
      simp only [press?, Machine.press, hk, hs]
      rfl
    | waiting register =>
      have hregister : register.toNat < 16 := h.waiting register hs
      simp only [press?, Machine.press, hk, hs, m.v.write?_eq hregister]
      rfl

/-- On a well-formed machine the checked command is the command. -/
theorem perform?_eq (h : m.WellFormed) {command : Command} (hf : command.Fits)
    (hc : (m.perform command).machine.CountersFit) :
    m.perform? command = some (m.perform command) := by
  cases command with
  | step noise =>
    rw [Machine.perform, Outcome.machine_plain] at hc
    rw [perform?, h.step?_eq noise hc]
    rfl
  | multistep noise count =>
    rw [Machine.perform, Outcome.machine_plain] at hc
    rw [perform?, h.stepsFrom?_eq hc]
    rfl
  | press key =>
    rw [perform?, h.press?_eq]
    rfl
  | load program =>
    simp only [perform?, Machine.perform, load, h.memory.load?_eq, Option.bind_eq_bind,
      Option.bind_some]
    rcases m.memory.load .program program with ⟨memory, fault | _⟩ <;> rfl
  | edit edit =>
    simp only [perform?, Machine.perform, h.memory.edit?_eq hf, Option.bind_eq_bind,
      Option.bind_some]
    rcases m.memory.apply edit with ⟨memory, fault | _⟩ <;> rfl
  | paint edit =>
    rw [perform?, h.surface.paint?_eq]
    rfl
  | beep =>
    have hbeeps : m.beeps + 1 < UInt64.size := hc.2
    rw [perform?, below?_of_lt hbeeps]
    rfl
  | _ => rfl

end WellFormed

/-- **No reachable machine reaches past its parts.** Behind any history, whatever was refused
on the way, memory and screen have all their bytes, the stack fits its slots and the register
that is waited for exists. Hence no command makes the checked machine give up: no index is out
of range, and nothing but what is meant to wrap leaves its word. -/
theorem perform?_after {screen : Screen} (hscreen : screen.Complete) (history : List Command) :
    let m := (initial screen).after history
    m.WellFormed ∧
    ∀ command, command.Fits → (m.perform command).machine.CountersFit →
      m.perform? command = some (m.perform command) := by
  intro m
  have h : m.WellFormed := (wellFormed_initial hscreen).after history
  exact ⟨h, fun command hf hc => h.perform?_eq hf hc⟩

/-- A sprite whose corner lies as far past the edge as a register can tell. -/
theorem perform?_after_of_far_sprite :
    let history : List Command := [.setRegister 0 255, .edit (.writeWord 0x200 0xd00f)]
    let m := (initial Screen.blank).after history
    Screen.blank.Complete ∧ (Command.step 0).Fits ∧
    (m.perform (.step 0)).machine.CountersFit ∧
    m.WellFormed ∧ m.perform? (.step 0) = some (m.perform (.step 0)) := by
  intro history m
  have hc : (m.perform (.step 0)).machine.CountersFit := by
    rw [perform, Outcome.machine_plain]
    obtain ⟨⟨_, hcycle⟩, ⟨_, hbeeps⟩⟩ := m.counters_step 0
    exact ⟨Nat.lt_of_le_of_lt hcycle (by decide), Nat.lt_of_le_of_lt hbeeps (by decide)⟩
  obtain ⟨h, hsafe⟩ := perform?_after Screen.complete_blank history
  exact ⟨Screen.complete_blank, trivial, hc, h, hsafe _ trivial hc⟩

end Machine

end Chip8
