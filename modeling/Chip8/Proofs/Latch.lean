import Chip8.Proofs.Frames

/-!
# What a program sees of the keyboard

Three hands are on the machine's keys: what is typed, the tick of the keypad, and the host that
presses its held keys anew. Between frames the machine and the keypad agree on every key but
the held ones, for which the keypad may count while somebody let go of them. Typing and the
tick change both alike. The held keys are pressed last, so when the steps begin they are down
whatever was typed, and a program cannot change that.
-/

namespace Chip8

namespace Machine

variable {σ : Type} [Surface σ] (m : Machine σ)

theorem held?_perform_press {key : Nat} (hk : key < 16) (other : Nat) :
    (m.perform (.press key)).machine.keys.held? other =
      if key = other then some true else m.keys.held? other := by
  rw [keys_perform_press, Keys.held?_set _ hk]

theorem held?_perform_release {key : Nat} (hk : key < 16) (other : Nat) :
    (m.perform (.release key)).machine.keys.held? other =
      if key = other then some false else m.keys.held? other := by
  rw [machine_perform_release, Keys.held?_set _ hk]

theorem held?_after_releases {keys : List Nat} (hkeys : ∀ key ∈ keys, key < 16) (other : Nat) :
    (m.after (keys.map .release)).keys.held? other =
      if other ∈ keys then some false else m.keys.held? other := by
  induction keys generalizing m with
  | nil => simp
  | cons key rest ih =>
    obtain ⟨hk, hrest⟩ := List.forall_mem_cons.mp hkeys
    rw [List.map_cons, after_cons, ih _ hrest, m.held?_perform_release hk]
    by_cases hother : other ∈ rest
    · simp [hother]
    · simp [hother, eq_comm]

theorem held?_after_presses {keys : List Nat} (hkeys : ∀ key ∈ keys, key < 16) (other : Nat) :
    (m.after (keys.flatMap fun key => [.release key, .press key])).keys.held? other =
      if other ∈ keys then some true else m.keys.held? other := by
  induction keys generalizing m with
  | nil => simp
  | cons key rest ih =>
    obtain ⟨hk, hrest⟩ := List.forall_mem_cons.mp hkeys
    rw [List.flatMap_cons, after_append, ih _ hrest, after_cons, after_cons, after_nil,
      held?_perform_press _ hk, m.held?_perform_release hk]
    by_cases hother : other ∈ rest
    · simp [hother]
    · by_cases hsame : key = other
      · simp [hsame]
      · simp [hother, hsame, Ne.symm hsame]

end Machine

theorem Machine.keys_load {σ : Type} {m n : Machine σ} {program : List UInt8}
    (h : m.load program = .done n ()) : n.keys = m.keys := by
  rw [load] at h
  split at h
  · cases h
    rfl
  · cases h

namespace Host

namespace Keypad

theorem timeout_type (pad : Keypad) {t : Typing} (ht : t.key < 16) (key : Nat) :
    (pad.type t).timeout key =
      if t.key = key then (if t.down then pad.sticky else 0) else pad.timeout key := by
  rw [type, pad.timeout_setTimeout ht]

theorem mem_expiring {pad : Keypad} {key : Nat} : key ∈ pad.expiring ↔ pad.timeout key = 1 := by
  simp only [expiring, List.mem_filter, List.mem_range, decide_eq_true_eq, and_iff_right_iff_imp]
  intro h
  apply Nat.lt_of_not_le
  intro hle
  simp [timeout, Vector.getElem?_eq_none hle] at h

/-- The keypad and the machine agree on all keys but those of a list. -/
structure Mirrors (except : List Nat) (pad : Keypad) (keys : Keys) : Prop where
  sticky_pos : 0 < pad.sticky
  held_iff : ∀ key ∉ except, keys.held? key = some true ↔ 0 < pad.timeout key

namespace Mirrors

variable {except : List Nat} {pad : Keypad}

theorem fresh (except : List Nat) (sticky : Nat) :
    Mirrors except (.fresh sticky) .loose := by
  refine ⟨Nat.lt_of_lt_of_le Nat.zero_lt_one (Nat.le_max_right sticky 1), fun key _ => ?_⟩
  rw [timeout_fresh, Keys.held?, Keys.loose, Vector.getElem?_replicate]
  split <;> simp

variable {σ : Type} [Surface σ] {m : Machine σ}

theorem type (h : Mirrors except pad m.keys) {t : Typing} (ht : t.key < 16) :
    Mirrors except (pad.type t) (m.perform t.command).machine.keys := by
  refine ⟨h.sticky_pos, fun key hkey => ?_⟩
  have hold := h.held_iff key hkey
  rw [pad.timeout_type ht, Typing.command]
  cases hdown : t.down with
  | true =>
    rw [if_pos rfl, m.held?_perform_press ht]
    by_cases hsame : t.key = key
    · simp [hsame, h.sticky_pos]
    · simpa [hsame] using hold
  | false =>
    rw [if_neg Bool.false_ne_true, m.held?_perform_release ht]
    by_cases hsame : t.key = key
    · simp [hsame]
    · simpa [hsame] using hold

theorem typeAll (h : Mirrors except pad m.keys) {ts : List Typing} (hts : ∀ t ∈ ts, t.key < 16) :
    Mirrors except (pad.typeAll ts) (m.after (ts.map Typing.command)).keys := by
  induction ts generalizing pad m with
  | nil => exact h
  | cons t rest ih =>
    obtain ⟨ht, hrest⟩ := List.forall_mem_cons.mp hts
    exact ih (h.type ht) hrest

/-- The tick lets go of exactly the keys whose count reaches zero. -/
theorem tick (h : Mirrors except pad m.keys) :
    Mirrors except pad.countDown (m.after (pad.expiring.map .release)).keys := by
  have hlt : ∀ key ∈ pad.expiring, key < 16 := fun key hk =>
    List.mem_range.mp (List.mem_filter.mp hk).1
  refine ⟨h.sticky_pos, fun key hkey => ?_⟩
  have hold := h.held_iff key hkey
  rw [m.held?_after_releases hlt, timeout_countDown]
  by_cases hlast : key ∈ pad.expiring
  · simp [hlast, mem_expiring.mp hlast]
  · have hmore : pad.timeout key ≠ 1 := fun he => hlast (mem_expiring.mpr he)
    rw [if_neg hlast, hold]
    omega

/-- Keys that the keypad does not answer for may be pressed. -/
theorem press_except (h : Mirrors except pad m.keys) (hexcept : ∀ key ∈ except, key < 16) :
    Mirrors except pad
      (m.after (except.flatMap fun key => [.release key, .press key])).keys := by
  refine ⟨h.sticky_pos, fun key hkey => ?_⟩
  rw [m.held?_after_presses hexcept, if_neg hkey]
  exact h.held_iff key hkey

end Mirrors

end Keypad

namespace Session

/-- Between frames: all keys but the held ones are as the keypad says. -/
def Mirrors (s : Session) : Prop :=
  s.display.keypad.Mirrors s.display.held s.machine.keys

theorem mirrors_start {settings : Settings} {file : Except FileFault (List UInt8)} {s : Session}
    (h : start settings file = .ok s) : s.Mirrors := by
  obtain ⟨-, machine, hload, rfl⟩ := start_eq_ok h
  obtain ⟨program, -, hload⟩ := Machine.loadFile_eq_done hload
  show Keypad.Mirrors settings.keys (.fresh settings.sticky) machine.keys
  rw [Machine.keys_load hload]
  exact Keypad.Mirrors.fresh settings.keys settings.sticky

/-- When the steps begin, the keypad still answers for its keys. -/
theorem Mirrors.poised {s : Session} (h : s.Mirrors) (hheld : ∀ key ∈ s.display.held, key < 16) :
    s.poised.Mirrors := by
  have hlt : ∀ t ∈ typings s.pending, t.key < 16 := fun t => key_lt_of_mem_typings
  have hpressed := (Keypad.Mirrors.typeAll h hlt).tick.press_except hheld
  rw [← Machine.after_append, ← Machine.after_append] at hpressed
  exact hpressed

/-- When the steps begin, every held key is down, whoever let go of it before. -/
theorem held?_poised {s : Session} (hheld : ∀ key ∈ s.display.held, key < 16) {key : Nat}
    (hkey : key ∈ s.display.held) : s.poised.machine.keys.held? key = some true := by
  have hlast := (s.machine.after ((typings s.pending).map Typing.command ++
    s.typedDisplay.keypad.expiring.map .release)).held?_after_presses hheld key
  rw [if_pos hkey, ← Machine.after_append, List.append_assoc] at hlast
  exact hlast

theorem Mirrors.quitAt {s : Session} (h : s.Mirrors) (before rest : List Event) :
    (s.quitAt before rest).Mirrors := by
  have hlt : ∀ t ∈ typings before, t.key < 16 := fun t => key_lt_of_mem_typings
  exact Keypad.Mirrors.typeAll h hlt

theorem Mirrors.stepAndDraw {s : Session} (h : s.Mirrors) (noise : Nat → UInt8) :
    (s.stepAndDraw noise).1.Mirrors := by
  obtain ⟨redraw, drawn, orders, hs⟩ := s.stepAndDraw_eq noise
  rw [hs]
  show s.display.keypad.Mirrors s.display.held (s.machine.multistep noise s.steps).machine.keys
  rw [Machine.keys_multistep]
  exact h

theorem Mirrors.next {s : Session} (h : s.Mirrors) (hheld : ∀ key ∈ s.display.held, key < 16)
    (noise : Nat → UInt8) : (s.next noise).1.Mirrors := by
  obtain ⟨-, -, hnext⟩ | ⟨-, -, before, event, rest, -, -, -, hnext⟩ | ⟨-, -, -, hnext⟩ :=
    next_cases hheld noise
  · rw [hnext]
    exact h
  · rw [hnext]
    exact h.quitAt before rest
  · rw [hnext]
    exact (h.poised hheld).stepAndDraw noise

theorem Mirrors.enqueue {s : Session} (h : s.Mirrors) (events : List Event) :
    (s.enqueue events).Mirrors :=
  h

theorem mirrors_run {settings : Settings} {file : Except FileFault (List UInt8)} {first : Session}
    (hstart : start settings file = .ok first) (frames : List Frame) :
    (first.run frames).Mirrors := by
  refine (List.foldlRecOn (motive := fun s => WellFormed settings s ∧ s.Mirrors) frames _
    ⟨wellFormed_start hstart, mirrors_start hstart⟩ ?_).2
  intro s hs f _
  have hqueued := hs.1.enqueue f.events
  exact ⟨hqueued.next f.noise, (hs.2.enqueue f.events).next hqueued.held_lt f.noise⟩

/-- When the steps of a frame begin, the keypad answers for all keys but the held ones, and those
are down. -/
theorem seen_at_steps {settings : Settings} {file : Except FileFault (List UInt8)}
    {first : Session} (hstart : start settings file = .ok first) (frames : List Frame)
    (events : List Event) {t : Session}
    (ht : ((first.run frames).enqueue events).atSteps? = some t) :
    t.display.keypad.Mirrors settings.keys t.machine.keys ∧
    ∀ key ∈ settings.keys, t.machine.keys.held? key = some true := by
  have hqueued := (((Reachable.start hstart).run frames).enqueue events).wellFormed
  have hmirrors := (mirrors_run hstart frames).enqueue events
  obtain rfl := eq_poised_of_atSteps? hqueued.held_lt ht
  rw [← hqueued.held_eq]
  exact ⟨hmirrors.poised hqueued.held_lt, fun key => held?_poised hqueued.held_lt⟩

/-- **What a program sees of the keyboard.** A frame that gives an answer comes to its steps, and
before and behind each of them the keys that are down are the held ones and those that the keypad
still counts for. So a held key is down at every step, whatever was typed. -/
theorem keys_at_steps {settings : Settings} {file : Except FileFault (List UInt8)}
    {first : Session} (hstart : start settings file = .ok first) (frames : List Frame)
    (events : List Event) (noise : Nat → UInt8) :
    let s := (first.run frames).enqueue events
    (s.atSteps? = none ∧ (s.next noise).2 = none) ∨
    ∃ t, s.atSteps? = some t ∧ s.next noise = t.stepAndDraw noise ∧ ∀ count,
      let keys := (t.machine.multistep noise count).machine.keys
      (∀ key, keys.held? key = some true ↔
        key ∈ settings.keys ∨ 0 < t.display.keypad.timeout key) ∧
      ∀ key ∈ settings.keys, keys.held? key = some true := by
  intro s
  cases hsteps : s.atSteps? with
  | none =>
    have hqueued := (((Reachable.start hstart).run frames).enqueue events).wellFormed
    exact Or.inl ⟨rfl, next_of_atSteps?_eq_none hqueued.held_lt hsteps noise⟩
  | some t =>
    refine Or.inr ⟨t, rfl, next_of_atSteps? hsteps noise, fun count => ?_⟩
    intro keys
    have hkeys : keys = t.machine.keys := Machine.keys_multistep t.machine noise count
    obtain ⟨hmirrors, hheld⟩ := seen_at_steps hstart frames events hsteps
    rw [hkeys]
    refine ⟨fun key => ?_, hheld⟩
    -- of a held key the keypad may say anything
    by_cases hkey : key ∈ settings.keys
    · exact ⟨fun _ => Or.inl hkey, fun _ => hheld key hkey⟩
    · rw [hmirrors.held_iff key hkey, or_iff_right hkey]

/-- Key 5 is held twice over and typed and let go again, key 4 was typed too long ago, and all
frames before were refused. -/
theorem keys_at_steps_of_released_held_key :
    let settings := { Settings.initial with keys := [5, 5], sticky := 2 }
    let event (c : Char) (action : KeyAction) : Event := .key ⟨.char c, action, {}, {}⟩
    let frames : List Frame :=
      [⟨[event 'w' .press, event 'q' .press], fun _ => 0⟩, ⟨[event 'w' .release], fun _ => 0⟩]
    let events := [event 'a' .press, event 'W' .repeated, event 'w' .release]
    ∃ first t, start settings (.ok []) = .ok first ∧
      ((first.run frames).enqueue events).atSteps? = some t ∧ t.machine.keys.held = [5, 7] ∧
      ∀ count key, (t.machine.multistep (fun _ => 0) count).machine.keys.held? key = some true ↔
        key ∈ [5, 5] ∨ 0 < t.display.keypad.timeout key := by
  intro settings event frames events
  have hany : (start settings (.ok [])).toOption.any (fun first =>
      ((first.run frames).enqueue events).atSteps?.any fun t =>
        t.machine.keys.held = [5, 7]) = true := by decide +kernel
  obtain ⟨first, hstart, hany⟩ := start_of_any hany
  obtain ⟨t, ht, hkeys⟩ := (Option.any_eq_true _ _).mp hany
  obtain ⟨hnone, -⟩ | ⟨u, hu, -, hseen⟩ := keys_at_steps hstart frames events fun _ => 0
  · cases hnone.symm.trans ht
  · obtain rfl : u = t := Option.some.inj (hu.symm.trans ht)
    exact ⟨first, u, hstart, ht, of_decide_eq_true hkeys, fun count => (hseen count).1⟩

end Session

end Host

end Chip8
