import Chip8.Proofs.Execution
import Mathlib.Data.List.Forall2

/-!
# Machines that stay in step

Two machines are kin if they agree on everything but their addresses and surfaces,
and related addresses and surfaces stand in the same places: the program counter,
the index and the live slots of the stack. Dead slots are compared with nothing.

A relation on addresses is steady if related addresses name the same byte of memory
and stay related when the same number is added to both. That is all a machine ever
does with an address, so kin machines answer every request alike and stay kin. The
relation on surfaces enters where a surface is cleared, drawn on or painted, and
there it is for the caller to say that it lasts.
-/

namespace Chip8

/-- Related addresses name the same byte, and they move together. -/
structure Steady (A : UInt16 → UInt16 → Prop) : Prop where
  refl : ∀ a, A a a
  add : ∀ {a b}, A a b → ∀ c, A (a + c) (b + c)
  cell : ∀ {a b}, A a b → a.toNat % Memory.size = b.toNat % Memory.size

theorem steady_eq : Steady Eq where
  refl _ := rfl
  add h c := congrArg (· + c) h
  cell h := congrArg (·.toNat % Memory.size) h

theorem forall₂_getD {A : UInt16 → UInt16 → Prop} (hA : Steady A) {first second : List UInt16}
    (h : List.Forall₂ A first second) (k : Nat) : A (first[k]?.getD 0) (second[k]?.getD 0) := by
  induction h generalizing k with
  | nil => exact hA.refl 0
  | cons hab _ ih =>
    cases k with
    | zero => exact hab
    | succ k => simpa using ih k

/-- Stacks of one depth with related live addresses. -/
structure CallStack.Kin (A : UInt16 → UInt16 → Prop) (s t : CallStack) : Prop where
  depth : s.depth = t.depth
  live : List.Forall₂ A s.live t.live

namespace CallStack.Kin

variable {A : UInt16 → UInt16 → Prop} {s t : CallStack}

theorem clear (s t : CallStack) : Kin A s.clear t.clear :=
  ⟨rfl, .nil⟩

/-- Related addresses are pushed on both stacks or on neither. -/
theorem push (h : Kin A s t) {a b : UInt16} (hab : A a b) :
    (∃ s' t', s.push a = (s', .ok ()) ∧ t.push b = (t', .ok ()) ∧ Kin A s' t') ∨
    ∃ fault, s.push a = (s, .error fault) ∧ t.push b = (t, .error fault) := by
  obtain hroom | hfull := Nat.lt_or_ge s.depth capacity
  · have hs := push_of_lt hroom a
    have ht := push_of_lt (h.depth ▸ hroom) b
    refine Or.inl ⟨_, _, hs, ht, congrArg (· + 1) h.depth, ?_⟩
    rw [live_push hs, live_push ht]
    exact List.rel_append h.live (.cons hab .nil)
  · exact Or.inr ⟨_, push_of_le hfull a, push_of_le (h.depth ▸ hfull) b⟩

/-- Related addresses are popped off both stacks or off neither. -/
theorem pop (hA : Steady A) (h : Kin A s t) :
    (∃ a b s' t', s.pop = (s', .ok a) ∧ t.pop = (t', .ok b) ∧ A a b ∧ Kin A s' t') ∨
    ∃ fault, s.pop = (s, .error fault) ∧ t.pop = (t, .error fault) := by
  cases hd : s.depth with
  | zero => exact Or.inr ⟨_, pop_of_depth_eq_zero hd, pop_of_depth_eq_zero (h.depth ▸ hd)⟩
  | succ depth =>
    have hd' : t.depth = depth + 1 := h.depth ▸ hd
    refine Or.inl ⟨_, _, _, _, pop_of_depth_eq_succ hd, pop_of_depth_eq_succ hd',
      forall₂_getD hA h.live depth, rfl, ?_⟩
    rw [live_of_le s (by omega), live_of_le t (by omega)]
    exact List.forall₂_take depth h.live

end CallStack.Kin

/-- Outcomes with the same answer that leave related machines behind. -/
structure Outcome.Agree {σ τ α : Type} (R : Machine σ → Machine τ → Prop) (o : Outcome σ α)
    (p : Outcome τ α) : Prop where
  machine : R o.machine p.machine
  result : o.result = p.result

namespace Outcome.Agree

variable {σ τ α β : Type} {R : Machine σ → Machine τ → Prop}

theorem done {m : Machine σ} {n : Machine τ} (h : R m n) (a : α) :
    Agree R (Outcome.done m a) (Outcome.done n a) :=
  ⟨h, rfl⟩

theorem refused {m : Machine σ} {n : Machine τ} (h : R m n) (fault : Fault) :
    Agree R (Outcome.refused m fault : Outcome σ α) (Outcome.refused n fault) :=
  ⟨h, rfl⟩

/-- Agreeing outcomes went through alike or were refused alike. -/
theorem done_or_refused {o : Outcome σ α} {p : Outcome τ α} (h : Agree R o p) :
    (∃ m n a, o = .done m a ∧ p = .done n a ∧ R m n) ∨
    ∃ m n fault, o = .refused m fault ∧ p = .refused n fault ∧ R m n := by
  obtain ⟨m, result⟩ := o
  obtain ⟨n, other⟩ := p
  obtain ⟨hmn, hr⟩ := h
  obtain rfl : result = other := hr
  cases result with
  | ok a => exact Or.inl ⟨m, n, a, rfl, rfl, hmn⟩
  | error fault => exact Or.inr ⟨m, n, fault, rfl, rfl, hmn⟩

/-- What follows agreeing outcomes agrees, if it does so on related machines. -/
theorem andThen {o : Outcome σ α} {p : Outcome τ α} (h : Agree R o p)
    {next : Machine σ → α → Outcome σ β} {other : Machine τ → α → Outcome τ β}
    (hnext : ∀ {m n} a, R m n → Agree R (next m a) (other n a)) :
    Agree R (o.andThen next) (p.andThen other) := by
  obtain ⟨m, n, a, rfl, rfl, hmn⟩ | ⟨m, n, fault, rfl, rfl, hmn⟩ := h.done_or_refused
  · exact hnext a hmn
  · exact .refused hmn fault

theorem plain {o : Outcome σ Unit} {p : Outcome τ Unit} (h : Agree R o p) :
    Agree R o.plain p.plain :=
  h.andThen fun _ hmn => .done hmn _

theorem telling {o : Outcome σ Bool} {p : Outcome τ Bool} (h : Agree R o p) :
    Agree R o.telling p.telling :=
  h.andThen fun _ hmn => .done hmn _

end Outcome.Agree

/-- Machines that agree up to `A` on addresses and up to `S` on surfaces. -/
structure Machine.Kin {σ τ : Type} (A : UInt16 → UInt16 → Prop) (S : σ → τ → Prop)
    (m : Machine σ) (n : Machine τ) : Prop where
  memory : m.memory = n.memory
  stack : m.stack.Kin A n.stack
  pc : A m.pc n.pc
  index : A m.index n.index
  v : m.v = n.v
  delay : m.delay = n.delay
  sound : m.sound = n.sound
  keys : m.keys = n.keys
  surface : S m.surface n.surface
  beeps : m.beeps = n.beeps
  status : m.status = n.status
  redraw : m.redraw = n.redraw
  cycle : m.cycle = n.cycle

namespace Machine.Kin

variable {σ τ : Type} {A : UInt16 → UInt16 → Prop} {S : σ → τ → Prop}
  {m : Machine σ} {n : Machine τ}

theorem isRunning (h : Kin A S m n) : m.isRunning = n.isRunning := by
  rw [Machine.isRunning, Machine.isRunning, h.status]

/-- Related program counters fetch the same word, also at the end of memory. -/
theorem nextWord (hA : Steady A) (h : Kin A S m n) : m.nextWord = n.nextWord := by
  rw [Machine.nextWord, Machine.nextWord, h.memory]
  exact n.memory.readWord_congr (hA.cell h.pc)

theorem fetch (hA : Steady A) (h : Kin A S m n) (count : Nat) :
    m.memory.fetch m.index.toNat count = n.memory.fetch n.index.toNat count := by
  rw [h.memory]
  exact n.memory.fetch_congr (hA.cell h.index) count

theorem storeAtIndex (hA : Steady A) (h : Kin A S m n) (bytes : List UInt8) :
    Kin A S (m.storeAtIndex bytes) (n.storeAtIndex bytes) := by
  have hm : m.memory.store m.index.toNat bytes = n.memory.store n.index.toNat bytes := by
    rw [h.memory]
    exact n.memory.store_congr (hA.cell h.index) bytes
  exact { h with memory := hm }

theorem setV (h : Kin A S m n) (x : Nat) (byte : UInt8) :
    Kin A S (m.setV x byte) (n.setV x byte) :=
  { h with v := congrArg (Registers.write · x byte) h.v }

theorem skipIf (hA : Steady A) (h : Kin A S m n) (condition : Bool) :
    Kin A S (m.skipIf condition) (n.skipIf condition) := by
  cases condition
  · exact h
  · exact { h with pc := hA.add h.pc 2 }

theorem advance (hA : Steady A) (h : Kin A S m n) :
    Kin A S m.advance n.advance :=
  { h with pc := hA.add h.pc 2 }

theorem finish (h : Kin A S m n) : Kin A S m.finish n.finish := by
  have hd : m.finish.delay = n.finish.delay := by simp only [Machine.finish, tick, h.delay]
  have hs : m.finish.sound = n.finish.sound := by simp only [Machine.finish, tick, h.sound]
  have hb : m.finish.beeps = n.finish.beeps := by
    simp only [Machine.finish, tick, h.sound, h.beeps]
  exact { h with delay := hd, sound := hs, beeps := hb, cycle := congrArg (· + 1) h.cycle }

theorem press (h : Kin A S m n) (key : Nat) :
    (m.press key).Agree (Kin A S) (n.press key) := by
  simp only [Machine.press, h.keys, h.status]
  split
  · exact .refused h _
  · split
    · exact .done { h with keys := rfl, status := rfl } _
    · exact .done { h with keys := rfl, v := congrArg (Registers.write · _ _) h.v, status := rfl } _

theorem release (h : Kin A S m n) (key : Nat) :
    (m.release key).Agree (Kin A S) (n.release key) := by
  simp only [Machine.release, h.keys]
  split
  · exact .refused h _
  · exact .done { h with keys := rfl } _

theorem setRegister (h : Kin A S m n) (register : Nat) (byte : UInt8) :
    (m.setRegister register byte).Agree (Kin A S) (n.setRegister register byte) := by
  simp only [Machine.setRegister]
  split
  · exact .done { h with v := congrArg (Registers.write · register byte) h.v } ()
  · exact .refused h _

theorem load (h : Kin A S m n) (program : List UInt8) :
    (m.load program).Agree (Kin A S) (n.load program) := by
  simp only [Machine.load, h.memory]
  split
  · exact .done { h with memory := rfl } ()
  · exact .refused { h with memory := rfl } _

theorem reset [Surface σ] [Surface τ] (hA : Steady A) (h : Kin A S m n)
    (hclear : S (Surface.clear m.surface) (Surface.clear n.surface)) :
    Kin A S m.reset n.reset where
  memory := h.memory
  stack := .clear _ _
  pc := hA.refl _
  index := hA.refl _
  v := rfl
  delay := rfl
  sound := rfl
  keys := rfl
  surface := hclear
  beeps := h.beeps
  status := rfl
  redraw := rfl
  cycle := rfl

/-- On one and the same surface the same sprite is drawn. -/
theorem drawSprite {σ : Type} [Surface σ] {m n : Machine σ} (hA : Steady A) (h : Kin A Eq m n)
    (x y k : Nat) : Kin A Eq (m.drawSprite x y k) (n.drawSprite x y k) := by
  simp only [Machine.drawSprite, h.v, h.surface, h.fetch hA]
  exact { h with v := rfl, surface := rfl, redraw := rfl }

variable [Surface σ] [Surface τ]

/-- Kin machines execute an instruction alike. What clearing and drawing do to related
surfaces is for the caller to say. -/
theorem execute (hA : Steady A) (h : Kin A S m n)
    (hclear : S (Surface.clear m.surface) (Surface.clear n.surface)) (noise : UInt8)
    {i : Instruction}
    (hdraw : ∀ x y k, i = .draw x y k →
      Kin A S (m.drawSprite x.toNat y.toNat k.toNat) (n.drawSprite x.toNat y.toNat k.toNat)) :
    (m.execute noise i).Agree (Kin A S) (n.execute noise i) := by
  cases i with
  | clear => exact .done { h with surface := hclear, redraw := rfl } ()
  | ret =>
    simp only [Machine.execute]
    obtain ⟨a, b, s, t, hs, ht, hab, hst⟩ | ⟨fault, hs, ht⟩ := h.stack.pop hA
    · rw [hs, ht]
      exact .done { h with pc := hab, stack := hst } ()
    · rw [hs, ht]
      exact .refused h fault
  | jump a => exact .done { h with pc := hA.refl a } ()
  | call a =>
    simp only [Machine.execute]
    obtain ⟨s, t, hs, ht, hst⟩ | ⟨fault, hs, ht⟩ := h.stack.push h.pc
    · rw [hs, ht]
      exact .done { h with pc := hA.refl a, stack := hst } ()
    · rw [hs, ht]
      exact .refused h fault
  | skipIfByte x b =>
    simp only [Machine.execute, h.v]
    exact .done (h.skipIf hA _) ()
  | skipUnlessByte x b =>
    simp only [Machine.execute, h.v]
    exact .done (h.skipIf hA _) ()
  | skipIfSame x y k =>
    simp only [Machine.execute, h.v]
    exact .done (h.skipIf hA _) ()
  | setByte x b => exact .done (h.setV _ b) ()
  | addByte x b =>
    simp only [Machine.execute, h.v]
    exact .done (h.setV _ _) ()
  | alu operation x y =>
    exact .done { h with v := congrArg (Registers.combine · operation x.toNat y.toNat) h.v } ()
  | skipUnlessSame x y k =>
    simp only [Machine.execute, h.v]
    exact .done (h.skipIf hA _) ()
  | setIndex a => exact .done { h with index := hA.refl a } ()
  | jumpOffset a =>
    simp only [Machine.execute, h.v]
    exact .done { h with v := rfl, pc := hA.refl _ } ()
  | random x b => exact .done (h.setV _ _) ()
  | draw x y k => exact .done (hdraw x y k rfl) ()
  | skipIfHeld x =>
    simp only [Machine.execute, h.v, h.keys]
    exact .done (h.skipIf hA _) ()
  | skipIfLoose x =>
    simp only [Machine.execute, h.v, h.keys]
    exact .done (h.skipIf hA _) ()
  | getDelay x =>
    simp only [Machine.execute, h.delay]
    exact .done (h.setV _ _) ()
  | awaitKey x => exact .done { h with status := rfl } ()
  | setDelay x => exact .done { h with delay := congrArg (Registers.read · x.toNat) h.v } ()
  | setSound x => exact .done { h with sound := congrArg (Registers.read · x.toNat) h.v } ()
  | addIndex x =>
    simp only [Machine.execute, h.v]
    exact .done { h with v := rfl, index := hA.add h.index _ } ()
  | pointGlyph x =>
    simp only [Machine.execute, h.v]
    exact .done { h with v := rfl, index := hA.refl _ } ()
  | storeDigits x =>
    simp only [Machine.execute, h.v]
    exact .done (h.storeAtIndex hA _) ()
  | storeRegisters x =>
    simp only [Machine.execute, h.v]
    exact .done (h.storeAtIndex hA _) ()
  | loadRegisters x =>
    simp only [Machine.execute, h.v, h.fetch hA]
    exact .done { h with v := rfl } ()

/-- Kin machines take a step alike. -/
theorem step (hA : Steady A) (h : Kin A S m n)
    (hclear : S (Surface.clear m.surface) (Surface.clear n.surface)) (noise : UInt8)
    (hdraw : ∀ x y k, Instruction.decode m.nextWord = some (.draw x y k) →
      Kin A S (m.advance.drawSprite x.toNat y.toNat k.toNat)
        (n.advance.drawSprite x.toNat y.toNat k.toNat)) :
    (m.step noise).Agree (Kin A S) (n.step noise) := by
  have hw := h.nextWord hA
  cases hr : m.isRunning with
  | false =>
    rw [step_of_not_running hr, step_of_not_running (h.isRunning ▸ hr)]
    exact .done h ()
  | true =>
    have hr' : n.isRunning = true := h.isRunning ▸ hr
    cases hd : Instruction.decode m.nextWord with
    | none =>
      rw [step_of_decode_eq_none hr hd, step_of_decode_eq_none hr' (hw ▸ hd), hw]
      exact .refused (h.advance hA) _
    | some i =>
      rw [step_of_decode_eq_some hr hd, step_of_decode_eq_some hr' (hw ▸ hd)]
      have he := (h.advance hA).execute hA hclear noise (i := i)
        fun x y k hi => hdraw x y k (hi ▸ hd)
      exact he.andThen fun _ hmn => .done hmn.finish ()

/-- Kin machines carry out a command alike. What is asked of steps and of painting depends
on the relation on surfaces. -/
theorem perform (hA : Steady A) (h : Kin A S m n)
    (hclear : S (Surface.clear m.surface) (Surface.clear n.surface)) {command : Command}
    (hstep : ∀ noise, command = .step noise → (m.step noise).Agree (Kin A S) (n.step noise))
    (hmultistep : ∀ noise count, command = .multistep noise count →
      (m.multistep noise count).Agree (Kin A S) (n.multistep noise count))
    (hpaint : ∀ edit, command = .paint edit →
      S (Surface.apply m.surface edit) (Surface.apply n.surface edit)) :
    (m.perform command).Agree (Kin A S) (n.perform command) := by
  cases command with
  | step noise => exact (hstep noise rfl).plain
  | multistep noise count => exact (hmultistep noise count rfl).plain
  | press key => exact (h.press key).telling
  | release key => exact (h.release key).telling
  | setRegister register byte => exact (h.setRegister register byte).plain
  | reset => exact .done (h.reset hA hclear) _
  | clearRedraw => exact .done { h with redraw := rfl } _
  | load program => exact (h.load program).plain
  | edit edit =>
    simp only [Machine.perform, h.memory]
    split
    · exact .done { h with memory := rfl } _
    · exact .refused { h with memory := rfl } _
  | paint edit => exact .done { h with surface := hpaint edit rfl } _
  | beep => exact .done { h with beeps := congrArg (· + 1) h.beeps } _
  | forgetBeeps => exact .done { h with beeps := rfl } _

end Machine.Kin

/-! ## Machines on one surface

With equal surfaces nothing is left to ask, so the machines stay in step for good. -/

namespace Machine.Kin

variable {σ : Type} [Surface σ] {A : UInt16 → UInt16 → Prop} {m n : Machine σ}

theorem step_of_eq (hA : Steady A) (h : Kin A Eq m n) (noise : UInt8) :
    (m.step noise).Agree (Kin A Eq) (n.step noise) :=
  h.step hA (congrArg Surface.clear h.surface) noise
    fun _ _ _ _ => (h.advance hA).drawSprite hA _ _ _

theorem multistep_of_eq (hA : Steady A) (h : Kin A Eq m n) (noise : Nat → UInt8) (count : Nat) :
    (m.multistep noise count).Agree (Kin A Eq) (n.multistep noise count) := by
  suffices hs : ∀ count first (m n : Machine σ), Kin A Eq m n →
      (stepsFrom noise first count m).Agree (Kin A Eq) (stepsFrom noise first count n) from
    hs count 0 m n h
  intro count
  induction count with
  | zero => exact fun _ _ _ h => .done h ()
  | succ count ih =>
    intro first m n h
    rw [stepsFrom_succ, stepsFrom_succ]
    exact (h.step_of_eq hA (noise first)).andThen fun _ hmn => ih (first + 1) _ _ hmn

theorem perform_of_eq (hA : Steady A) (h : Kin A Eq m n) (command : Command) :
    (m.perform command).Agree (Kin A Eq) (n.perform command) :=
  h.perform hA (congrArg Surface.clear h.surface) (fun noise _ => h.step_of_eq hA noise)
    (fun noise count _ => h.multistep_of_eq hA noise count)
    fun edit _ => congrArg (Surface.apply · edit) h.surface

/-- Kin machines answer a whole history alike and stay kin. -/
theorem history_of_eq (hA : Steady A) (h : Kin A Eq m n) (history : List Command) :
    m.answers history = n.answers history ∧ Kin A Eq (m.after history) (n.after history) := by
  induction history generalizing m n with
  | nil => exact ⟨rfl, h⟩
  | cons command rest ih =>
    have hc := h.perform_of_eq hA command
    obtain ⟨ha, hk⟩ := ih hc.machine
    refine ⟨?_, hk⟩
    rw [answers, answers, hc.result, ha]

end Machine.Kin

end Chip8
