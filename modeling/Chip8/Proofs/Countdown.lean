import Chip8.Proofs.Latch

/-!
# A typed key is down exactly while the keypad counts for it

Where only the keypad is on the machine's keys, the count of a key and the key itself go up and
down together. An event about the key starts the count or ends it, a tick takes one off it, and
nothing else touches it. So what is left for a key depends on its last press alone: on whether it
was let go since, and on how often the keypad has ticked.
-/

namespace Chip8.Host

namespace KeyEvent

/-- The key is one that asks to quit. -/
def Quits (event : KeyEvent) : Prop :=
  event.code = .escape ∨ event.code = .char 'c' ∧ event.modifiers.control = true

/-- The event is about that key of the machine; with the control key a small `c` never is. -/
def IsAbout (key : Nat) (event : KeyEvent) : Prop :=
  event.code.key? = some key ∧ ¬(event.code = .char 'c' ∧ event.modifiers.control = true)

theorem isQuit_iff (event : KeyEvent) : event.isQuit = true ↔ event.Quits := by
  rw [isQuit, Quits]
  split
  · rename_i hcode
    simp [hcode]
  · rename_i hcode
    simp [hcode]
  · rename_i hescape hc
    refine iff_of_false Bool.false_ne_true ?_
    rintro (h | ⟨h, -⟩)
    · exact hescape h
    · exact hc h

theorem key?_eq_some_iff {event : KeyEvent} {key : Nat} :
    event.key? = some key ↔ event.IsAbout key := by
  have hescape (h : event.code = .escape) : event.code.key? ≠ some key := by
    rw [h]
    exact nofun
  rw [key?, IsAbout]
  split
  · rename_i hquit
    obtain h | h := event.isQuit_iff.mp hquit
    · simp [hescape h]
    · simp [h]
  · rename_i hquit
    have hnot : ¬(event.code = .char 'c' ∧ event.modifiers.control = true) :=
      fun h => hquit (event.isQuit_iff.mpr (Or.inr h))
    simp [hnot]

theorem key?_eq_none {event : KeyEvent} (h : event.Quits ∨ event.code.key? = none) :
    event.key? = none := by
  rw [key?]
  split
  · rfl
  · rename_i hquit
    exact h.resolve_left fun hq => hquit (event.isQuit_iff.mpr hq)

end KeyEvent

/-- What a keypad and its machine go through. -/
inductive Keypad.Turn (σ : Type)
  | event (event : KeyEvent)
  | tick
  /-- The machine becomes another one in everything but its keys. -/
  | other (machine : Machine σ)

namespace Keypad.Turn

variable {σ : Type}

def isTick : Turn σ → Bool
  | tick => true
  | _ => false

/-- Among the events of these turns, those about the key let it go. -/
def NoPress (key : Nat) (turns : List (Turn σ)) : Prop :=
  ∀ e, event e ∈ turns → e.IsAbout key → e.action = .release

theorem noPress_cons {key : Nat} {turn : Turn σ} {rest : List (Turn σ)}
    (h : NoPress key (turn :: rest)) : NoPress key rest :=
  fun e he => h e (List.mem_cons_of_mem turn he)

end Keypad.Turn

namespace Keypad

variable {σ : Type} [Surface σ]

/-- The keypad and the machine behind a turn. -/
def turn (pad : Keypad) (m : Machine σ) : Turn σ → Keypad × Machine σ
  | .event e => ((pad.take m e).1, (pad.take m e).2.machine)
  | .tick => ((pad.tick m).1, (pad.tick m).2.machine)
  | .other n => (pad, { n with keys := m.keys })

/-- The keypad and the machine behind turns, one after another. -/
def play (pad : Keypad) (m : Machine σ) (turns : List (Turn σ)) : Keypad × Machine σ :=
  turns.foldl (fun s t => s.1.turn s.2 t) (pad, m)

variable (pad : Keypad) (m : Machine σ)

theorem play_cons (t : Turn σ) (rest : List (Turn σ)) :
    pad.play m (t :: rest) = (pad.turn m t).1.play (pad.turn m t).2 rest := rfl

theorem play_append (front back : List (Turn σ)) :
    pad.play m (front ++ back) = (pad.play m front).1.play (pad.play m front).2 back :=
  List.foldl_append

theorem tick_eq : pad.tick m =
    (pad.countDown, .done (m.after (pad.expiring.map .release)) ()) := by
  have hkeys : ∀ command ∈ pad.expiring.map Command.release, command.IsKeyCommand := by
    intro command hc
    obtain ⟨key, hkey, rfl⟩ := List.mem_map.mp hc
    exact List.mem_range.mp (List.mem_filter.mp hkey).1
  rw [tick, m.script_of_isKeyCommand hkeys]

/-! ## The count of a key -/

theorem sticky_turn (t : Turn σ) : (pad.turn m t).1.sticky = pad.sticky := by
  cases t with
  | event e =>
    cases hkey : e.key? with
    | some key =>
      rw [turn, pad.take_of_key? m hkey]
      rfl
    | none => rw [turn, pad.take_of_key?_eq_none m hkey]
  | tick => rfl
  | other n => rfl

theorem sticky_play (turns : List (Turn σ)) : (pad.play m turns).1.sticky = pad.sticky := by
  induction turns generalizing pad m with
  | nil => rfl
  | cons t rest ih => rw [play_cons, ih, sticky_turn]

/-- An event about a key starts its count or ends it. -/
theorem timeout_turn_of_isAbout {e : KeyEvent} {key : Nat} (h : e.IsAbout key) :
    (pad.turn m (.event e)).1.timeout key = if e.action.isDown then pad.sticky else 0 := by
  have hkey := KeyEvent.key?_eq_some_iff.mpr h
  rw [turn, pad.take_of_key? m hkey, timeout_type _ (KeyCode.key?_lt h.1), if_pos rfl]

/-- Any other turn takes one off the count if it is a tick, and nothing if it is not. -/
theorem timeout_turn_of_not_isAbout {t : Turn σ} {key : Nat}
    (h : ∀ e, t = .event e → ¬e.IsAbout key) :
    (pad.turn m t).1.timeout key = pad.timeout key - if t.isTick then 1 else 0 := by
  cases t with
  | event e =>
    cases hkey : e.key? with
    | some other =>
      have hne : other ≠ key := by
        rintro rfl
        exact h e rfl (KeyEvent.key?_eq_some_iff.mp hkey)
      have hlt := KeyCode.key?_lt (KeyEvent.key?_eq_some_iff.mp hkey).1
      rw [turn, pad.take_of_key? m hkey, timeout_type _ hlt, if_neg hne]
      rfl
    | none =>
      rw [turn, pad.take_of_key?_eq_none m hkey]
      rfl
  | tick => exact pad.timeout_countDown key
  | other n => rfl

/-- As long as no event is about the key, its count goes down with the ticks. -/
theorem timeout_play_of_not_isAbout {turns : List (Turn σ)} {key : Nat}
    (h : ∀ e, .event e ∈ turns → ¬e.IsAbout key) :
    (pad.play m turns).1.timeout key = pad.timeout key - turns.countP Turn.isTick := by
  induction turns generalizing pad m with
  | nil => rfl
  | cons t rest ih =>
    have hfirst := pad.timeout_turn_of_not_isAbout m
      fun e (he : t = .event e) => h e (he ▸ List.mem_cons_self)
    rw [play_cons, ih _ _ fun e he => h e (List.mem_cons_of_mem t he), hfirst, List.countP_cons,
      Nat.sub_sub, Nat.add_comm]

/-- A count that has ended starts again only with a press. -/
theorem timeout_play_eq_zero {turns : List (Turn σ)} {key : Nat} (hzero : pad.timeout key = 0)
    (h : Turn.NoPress key turns) : (pad.play m turns).1.timeout key = 0 := by
  induction turns generalizing pad m with
  | nil => exact hzero
  | cons t rest ih =>
    rw [play_cons]
    refine ih _ _ ?_ (Turn.noPress_cons h)
    by_cases habout : ∃ e, t = .event e ∧ e.IsAbout key
    · obtain ⟨e, rfl, he⟩ := habout
      rw [pad.timeout_turn_of_isAbout m he, h e List.mem_cons_self he]
      rfl
    · have hnot : ∀ e, t = .event e → ¬e.IsAbout key := fun e ht he => habout ⟨e, ht, he⟩
      rw [pad.timeout_turn_of_not_isAbout m hnot, hzero, Nat.zero_sub]

/-- Behind a press, the count of its key is over when the key is let go, or with the last of its
ticks. -/
theorem timeout_play_pos_iff {e : KeyEvent} {key : Nat} (he : e.IsAbout key)
    (hdown : e.action ≠ .release) {behind : List (Turn σ)} (h : Turn.NoPress key behind) :
    0 < (pad.play m (.event e :: behind)).1.timeout key ↔
      (∀ e', .event e' ∈ behind → ¬e'.IsAbout key) ∧
        behind.countP Turn.isTick < pad.sticky := by
  have hpressed : (pad.turn m (.event e)).1.timeout key = pad.sticky := by
    rw [pad.timeout_turn_of_isAbout m he]
    cases ha : e.action <;> simp [ha, KeyAction.isDown] at hdown ⊢
  rw [play_cons]
  by_cases hlet : ∃ e', .event e' ∈ behind ∧ e'.IsAbout key
  · obtain ⟨e', hmem, he'⟩ := hlet
    obtain ⟨front, back, rfl⟩ := List.append_of_mem hmem
    have hback : Turn.NoPress key back := fun d hd =>
      h d (List.mem_append_right front (List.mem_cons_of_mem _ hd))
    have hover (p : Keypad) (n : Machine σ) : (p.turn n (.event e')).1.timeout key = 0 := by
      rw [p.timeout_turn_of_isAbout n he', h e' hmem he']
      rfl
    rw [play_append, play_cons, timeout_play_eq_zero _ _ (hover _ _) hback]
    exact ⟨fun hpos => absurd hpos (Nat.lt_irrefl 0), fun hnone => absurd he' (hnone.1 e' hmem)⟩
  · have hnone : ∀ e', .event e' ∈ behind → ¬e'.IsAbout key := fun e' hm he' => hlet ⟨e', hm, he'⟩
    rw [timeout_play_of_not_isAbout _ _ hnone, hpressed, and_iff_right hnone]
    exact Nat.sub_pos_iff_lt

theorem timeout_play_le {turns : List (Turn σ)} {key : Nat} (h : pad.timeout key ≤ pad.sticky) :
    (pad.play m turns).1.timeout key ≤ pad.sticky := by
  induction turns generalizing pad m with
  | nil => exact h
  | cons t rest ih =>
    have hfirst : (pad.turn m t).1.timeout key ≤ (pad.turn m t).1.sticky := by
      rw [sticky_turn]
      by_cases habout : ∃ e, t = .event e ∧ e.IsAbout key
      · obtain ⟨e, rfl, he⟩ := habout
        rw [pad.timeout_turn_of_isAbout m he]
        split
        · exact Nat.le_refl _
        · exact Nat.zero_le _
      · rw [pad.timeout_turn_of_not_isAbout m fun e ht he => habout ⟨e, ht, he⟩]
        exact Nat.le_trans (Nat.sub_le _ _) h
    rw [play_cons, ← pad.sticky_turn m t]
    exact ih _ _ hfirst

/-! ## The key itself -/

/-- The keypad and the machine agree about every key, whatever they go through together. -/
theorem Mirrors.turn {pad : Keypad} {m : Machine σ} (h : pad.Mirrors [] m.keys) (t : Turn σ) :
    (pad.turn m t).1.Mirrors [] (pad.turn m t).2.keys := by
  cases t with
  | event e =>
    rw [Keypad.turn]
    cases hkey : e.key? with
    | some key =>
      rw [pad.take_of_key? m hkey]
      exact h.type (KeyCode.key?_lt (KeyEvent.key?_eq_some_iff.mp hkey).1)
    | none =>
      rw [pad.take_of_key?_eq_none m hkey]
      exact h
  | tick =>
    rw [Keypad.turn, pad.tick_eq m]
    exact h.tick
  | other n => exact h

theorem Mirrors.play {pad : Keypad} {m : Machine σ} (h : pad.Mirrors [] m.keys)
    (turns : List (Turn σ)) : (pad.play m turns).1.Mirrors [] (pad.play m turns).2.keys :=
  List.foldlRecOn (motive := fun s : Keypad × Machine σ => s.1.Mirrors [] s.2.keys) turns _ h
    fun _ h t _ => h.turn t

/-- How a keypad and a machine stand that have gone through these turns together. -/
structure InStep (sticky : Nat) (turns : List (Turn σ)) (pad : Keypad) (m : Machine σ) :
    Prop where
  held_iff : ∀ key, m.keys.held? key = some true ↔ pad.isPressed key = true
  isPressed_iff : ∀ key, pad.isPressed key = true ↔ 0 < pad.timeout key
  timeout_le : ∀ key, pad.timeout key ≤ max sticky 1
  /-- A key that was never pressed is not down. -/
  not_held : ∀ key, Turn.NoPress key turns → ¬m.keys.held? key = some true
  /-- Behind its last press a key is down until it is let go, or until the last of its ticks. -/
  held_iff_of_press : ∀ key before e behind, turns = before ++ .event e :: behind →
    e.IsAbout key → e.action ≠ .release → Turn.NoPress key behind →
    (m.keys.held? key = some true ↔
      (∀ e', .event e' ∈ behind → ¬e'.IsAbout key) ∧ behind.countP Turn.isTick < max sticky 1)
  /-- The answer to an event is to go on, unless a key that asks to quit goes down. -/
  answer : ∀ e, ∃ goOn, (pad.take m e).2.result = .ok goOn ∧
    (goOn = false ↔ e.Quits ∧ e.action ≠ .release)
  /-- A key that asks to quit, or that is none of the machine's, changes nothing. -/
  passed : ∀ e, e.Quits ∨ e.code.key? = none →
    (pad.take m e).1 = pad ∧ (pad.take m e).2.machine = m
  tick : (pad.tick m).2.result = .ok ()

theorem answer_take (e : KeyEvent) : ∃ goOn, (pad.take m e).2.result = .ok goOn ∧
    (goOn = false ↔ e.Quits ∧ e.action ≠ .release) := by
  have hdown : e.action.isDown = true ↔ e.action ≠ .release := by
    cases e.action <;> simp [KeyAction.isDown]
  cases hkey : e.key? with
  | some key =>
    refine ⟨true, by rw [pad.take_of_key? m hkey]; rfl, ?_⟩
    have hnot : ¬e.Quits := fun hq => by simp [KeyEvent.key?_eq_none (Or.inl hq)] at hkey
    simp [hnot]
  | none =>
    refine ⟨_, by rw [pad.take_of_key?_eq_none m hkey]; rfl, ?_⟩
    rw [← hdown, ← e.isQuit_iff]
    simp

/-- **A typed key is down exactly while the keypad counts for it.** A keypad and a machine whose
keys are loose, and which only the keypad holds and lets go, agree about every key after any
events and ticks. A key is down from a press or a repeat until it is let go or has had its ticks,
at least one, since the last of them. What asks to quit, and what is none of the machine's keys,
changes nothing. Nothing is ever refused. -/
theorem latch_follows_countdown (sticky : Nat) {m : Machine σ} (hkeys : m.keys = .loose)
    (turns : List (Turn σ)) :
    let s := (Keypad.fresh sticky).play m turns
    InStep sticky turns s.1 s.2 := by
  intro s
  have hfresh : (Keypad.fresh sticky).Mirrors [] m.keys := hkeys ▸ Mirrors.fresh [] sticky
  have hheld (key : Nat) : s.2.keys.held? key = some true ↔ 0 < s.1.timeout key :=
    (hfresh.play turns).held_iff key List.not_mem_nil
  have hpressed (key : Nat) : s.1.isPressed key = true ↔ 0 < s.1.timeout key := by
    simp [isPressed]
  constructor
  case held_iff => exact fun key => (hheld key).trans (hpressed key).symm
  case isPressed_iff => exact hpressed
  case timeout_le =>
    intro key
    have hzero := timeout_fresh sticky key
    exact timeout_play_le _ m (hzero ▸ Nat.zero_le _)
  case not_held =>
    intro key hnone
    have hzero := timeout_play_eq_zero _ m (timeout_fresh sticky key) hnone
    rw [hheld, hzero]
    exact Nat.lt_irrefl 0
  case held_iff_of_press =>
    intro key before e behind hsplit he hdown hbehind
    have hstate : s = ((Keypad.fresh sticky).play m before).1.play
        ((Keypad.fresh sticky).play m before).2 (.event e :: behind) := by
      rw [← play_append, ← hsplit]
    rw [hheld, hstate, timeout_play_pos_iff _ _ he hdown hbehind, sticky_play]
    rfl
  case answer => exact answer_take s.1 s.2
  case passed =>
    intro e h
    rw [s.1.take_of_key?_eq_none s.2 (KeyEvent.key?_eq_none h)]
    exact ⟨rfl, rfl⟩
  case tick => rw [s.1.tick_eq s.2]; rfl

/-- Key 5 is given two ticks and repeated behind the first of them, as a capital letter. It is down
behind one tick more, and let go by the next one. -/
theorem latch_follows_countdown_of_repeat :
    let m : Machine Screen := .initial Screen.blank
    let event (c : Char) (action : KeyAction) (control : Bool) : Turn Screen :=
      .event ⟨.char c, action, { control := control }, {}⟩
    let turns (ticks : Nat) : List (Turn Screen) := [event 'w' .press false, .tick] ++
      event 'W' .repeated false :: event 'c' .release true :: List.replicate ticks .tick
    m.keys = .loose ∧
    ((Keypad.fresh 2).play m (turns 1)).2.keys.held? 5 = some true ∧
    ¬((Keypad.fresh 2).play m (turns 2)).2.keys.held? 5 = some true := by
  intro m event turns
  have hkeys : m.keys = .loose := rfl
  have hbehind (ticks : Nat) : ∀ e : KeyEvent,
      Turn.event e ∈ event 'c' .release true :: List.replicate ticks .tick → ¬e.IsAbout 5 := by
    intro e he
    obtain he | he := List.mem_cons.mp he
    · cases he
      exact fun h => h.2 ⟨rfl, rfl⟩
    · cases List.eq_of_mem_replicate he
  have hheld (ticks : Nat) := (latch_follows_countdown 2 hkeys (turns ticks)).held_iff_of_press 5
    _ _ _ rfl ⟨rfl, by decide⟩ (by decide) fun e he habout => absurd habout (hbehind ticks e he)
  have hlate : ¬((Keypad.fresh 2).play m (turns 2)).2.keys.held? 5 = some true :=
    fun h => absurd ((hheld 2).mp h).2 (by decide)
  exact ⟨hkeys, (hheld 1).mpr ⟨hbehind 1, by decide⟩, hlate⟩

end Keypad

end Chip8.Host
