import Chip8.Proofs.Latch
import Mathlib.Data.List.Induction

/-!
# For how long a typed key stays down

The keypad ticks in the same frame in which a key was typed, before the steps. So of the frames
that a key is given when it is typed, the first is gone before the program sees it. What the
keypad has left for a key depends on the last thing typed of it alone: on how many frames ago
that was, and on whether it went down.
-/

namespace Chip8.Host

/-- What is typed of one key in frame after frame, each with the number of its frame. -/
def typingsOf (key : Nat) (scripts : List (List Event)) : List (Nat × Typing) :=
  scripts.zipIdx.flatMap fun (events, frame) =>
    ((typings events).filter (·.key = key)).map (frame, ·)

/-- The last thing typed of the key is that it went down, in one of the last `n` frames. -/
def TypedWithin (n key : Nat) (scripts : List (List Event)) : Prop :=
  ∃ frame typing, (typingsOf key scripts).getLast? = some (frame, typing) ∧
    typing.down = true ∧ scripts.length - 1 - frame < n

theorem typingsOf_append_singleton (key : Nat) (scripts : List (List Event))
    (events : List Event) :
    typingsOf key (scripts ++ [events]) =
      typingsOf key scripts ++
        ((typings events).filter (·.key = key)).map (scripts.length, ·) := by
  rw [typingsOf, List.zipIdx_append, List.flatMap_append, typingsOf]
  simp

theorem lt_of_mem_typingsOf {key frame : Nat} {scripts : List (List Event)} {t : Typing}
    (h : (frame, t) ∈ typingsOf key scripts) : frame < scripts.length := by
  obtain ⟨⟨events, n⟩, hevents, hmem⟩ := List.mem_flatMap.mp h
  obtain ⟨u, -, hu⟩ := List.mem_map.mp hmem
  cases hu
  exact List.snd_lt_of_mem_zipIdx hevents

namespace Keypad

/-- Typing a list of keys counts anew for the last of it about each. -/
theorem timeout_typeAll (pad : Keypad) {ts : List Typing} (hts : ∀ t ∈ ts, t.key < 16)
    (key : Nat) :
    (pad.typeAll ts).timeout key =
      match (ts.filter (·.key = key)).getLast? with
      | some t => if t.down then pad.sticky else 0
      | none => pad.timeout key := by
  induction ts using List.reverseRecOn with
  | nil => rfl
  | append_singleton ts t ih =>
    have hrest := ih fun u hu => hts u (List.mem_append_left [t] hu)
    have ht : t.key < 16 := hts t (List.mem_append_right ts List.mem_cons_self)
    rw [typeAll_append_singleton, timeout_type _ ht, sticky_typeAll, List.filter_append]
    by_cases hsame : t.key = key
    · simp [hsame]
    · simpa [hsame] using hrest

/-- The frames left for a key when a number of frames have ticked, by what was typed of it last. -/
def left (sticky frames : Nat) : Option (Nat × Typing) → Nat
  | none => 0
  | some (frame, t) => if t.down then sticky - (frames - frame) else 0

/-- The keypad has ticked once behind each script, and has what is left for the key. -/
def Counts (pad : Keypad) (key : Nat) (scripts : List (List Event)) : Prop :=
  pad.timeout key = left pad.sticky scripts.length (typingsOf key scripts).getLast?

theorem Counts.next {pad : Keypad} {key : Nat} {scripts : List (List Event)}
    (h : pad.Counts key scripts) (events : List Event) :
    (pad.typeAll (typings events)).countDown.Counts key (scripts ++ [events]) := by
  have hlt : ∀ t ∈ typings events, t.key < 16 := fun t => key_lt_of_mem_typings
  show (pad.typeAll (typings events)).countDown.timeout key =
    left (pad.typeAll (typings events)).sticky _ _
  rw [timeout_countDown, pad.timeout_typeAll hlt, sticky_typeAll, typingsOf_append_singleton,
    List.length_append, List.length_singleton, List.getLast?_append, List.getLast?_map]
  -- what was typed last of the key is of this frame if it is typed in it, and else what it was
  cases hnew : ((typings events).filter (·.key = key)).getLast? with
  | some t =>
    simp only [Option.map_some, Option.some_or, left]
    split <;> omega
  | none =>
    simp only [Option.map_none, Option.none_or]
    rw [h]
    cases hold : (typingsOf key scripts).getLast? with
    | none => rfl
    | some last =>
      obtain ⟨frame, t⟩ := last
      have hframe := lt_of_mem_typingsOf (List.mem_of_getLast? hold)
      simp only [left]
      split <;> omega

theorem Counts.timeout_pos_iff {pad : Keypad} {key : Nat} {scripts : List (List Event)}
    (h : pad.Counts key scripts) :
    0 < pad.timeout key ↔ TypedWithin (pad.sticky - 1) key scripts := by
  rw [h, TypedWithin]
  cases hlast : (typingsOf key scripts).getLast? with
  | none => simp [left]
  | some last =>
    obtain ⟨frame, t⟩ := last
    have hframe := lt_of_mem_typingsOf (List.mem_of_getLast? hlast)
    constructor
    · intro hpos
      rw [left] at hpos
      split at hpos
      · rename_i hdown
        exact ⟨frame, t, rfl, hdown, by omega⟩
      · exact absurd hpos (Nat.lt_irrefl 0)
    · rintro ⟨frame', t', heq, hdown, hage⟩
      cases heq
      rw [left, if_pos hdown]
      omega

end Keypad

namespace Session

/-- As long as frames are left, the keypad has been given all events, and counts. -/
structure Counting (settings : Settings) (key : Nat) (scripts : List (List Event))
    (s : Session) : Prop where
  pending : s.pending = []
  sticky : s.display.keypad.sticky = max settings.sticky 1
  counts : s.display.keypad.Counts key scripts

variable {settings : Settings} {key : Nat} {scripts : List (List Event)} {s : Session}

/-- When the steps of a frame begin, its tick has been counted. -/
theorem Counting.poised (h : s.Counting settings key scripts) (events : List Event) :
    (s.enqueue events).poised.Counting settings key (scripts ++ [events]) := by
  have hpending : (s.enqueue events).pending = events := by
    rw [enqueue, h.pending, List.nil_append]
  have hkeypad : (s.enqueue events).poised.display.keypad =
      (s.display.keypad.typeAll (typings events)).countDown := by
    show (s.display.keypad.typeAll (typings (s.enqueue events).pending)).countDown = _
    rw [hpending]
  refine ⟨rfl, ?_, ?_⟩
  · rw [hkeypad]
    exact (s.display.keypad.sticky_typeAll _).trans h.sticky
  · rw [hkeypad]
    exact h.counts.next events

theorem Counting.stepAndDraw (h : s.Counting settings key scripts) (noise : Nat → UInt8) :
    (s.stepAndDraw noise).1.Counting settings key scripts := by
  obtain ⟨redraw, drawn, orders, hs⟩ := s.stepAndDraw_eq noise
  rw [hs]
  exact { h with }

theorem counting_run {file : Except FileFault (List UInt8)} {first : Session}
    (hstart : start settings file = .ok first) (key : Nat) (frames : List Frame) :
    (first.run frames).isOver = true ∨
      (first.run frames).Counting settings key (frames.map Frame.events) := by
  induction frames using List.reverseRecOn with
  | nil =>
    obtain ⟨-, machine, -, rfl⟩ := start_eq_ok hstart
    exact Or.inr ⟨rfl, rfl, Keypad.timeout_fresh settings.sticky key⟩
  | append_singleton frames f ih =>
    have hqueued := (((Reachable.start hstart).run frames).enqueue f.events).wellFormed
    rw [run_append_singleton, frame, List.map_append, List.map_singleton]
    obtain ⟨hover, -, hnext⟩ | ⟨-, -, before, event, rest, -, -, -, hnext⟩ | ⟨hover, -, -, hnext⟩ :=
      next_cases hqueued.held_lt f.noise
    · rw [hnext]
      exact Or.inl hover
    · -- whoever quits leaves no frames
      rw [hnext]
      exact Or.inl rfl
    · -- the frame was left, so the keypad has counted so far
      rw [hnext]
      have hcounting := ih.resolve_left fun h => Bool.false_ne_true (hover.symm.trans h)
      exact Or.inr ((hcounting.poised f.events).stepAndDraw f.noise)

/-- **A typed key stays down for one frame less than it is given.** When a frame comes to its
steps, and before and behind each of them, a key that is not held is down if the last thing typed
of it is that it went down, and that was in this frame or not long before it. -/
theorem typed_key_at_steps {file : Except FileFault (List UInt8)} {first : Session}
    (hstart : start settings file = .ok first) (frames : List Frame) (events : List Event)
    {t : Session} (ht : ((first.run frames).enqueue events).atSteps? = some t)
    (hkey : key ∉ settings.keys) (noise : Nat → UInt8) (count : Nat) :
    (t.machine.multistep noise count).machine.keys.held? key = some true ↔
      TypedWithin (max settings.sticky 1 - 1) key (frames.map Frame.events ++ [events]) := by
  have hqueued := (((Reachable.start hstart).run frames).enqueue events).wellFormed
  have hover := not_isOver_of_atSteps? ht
  have hcounting := (counting_run hstart key frames).resolve_left
    fun h => Bool.false_ne_true (hover.symm.trans h)
  have hpoised := hcounting.poised events
  rw [← eq_poised_of_atSteps? hqueued.held_lt ht] at hpoised
  have hmirrors := (seen_at_steps hstart frames events ht).1
  rw [Machine.keys_multistep, hmirrors.held_iff key hkey, hpoised.counts.timeout_pos_iff,
    hpoised.sticky]

/-- Key 5 is typed in the first frame and again in the second, and given three frames. It is down
in the third frame. -/
theorem typed_key_at_steps_of_retyped :
    let settings := { Settings.initial with steps := 1, sticky := 3 }
    let down : Event := .key ⟨.char 'w', .press, {}, {}⟩
    let frames : List Frame := [⟨[down, down], fun _ => 0⟩, ⟨[down], fun _ => 0⟩]
    ∃ first t, start settings (.ok [0x12, 0x00]) = .ok first ∧
      ((first.run frames).enqueue []).atSteps? = some t ∧ 5 ∉ settings.keys ∧
      ∀ count, (t.machine.multistep (fun _ => 0) count).machine.keys.held? 5 = some true := by
  intro settings down frames
  have hany : (start settings (.ok [0x12, 0x00])).toOption.any (fun first =>
      ((first.run frames).enqueue []).atSteps?.isSome) = true := by decide +kernel
  obtain ⟨first, hstart, hsome⟩ := start_of_any hany
  obtain ⟨t, ht⟩ := Option.isSome_iff_exists.mp hsome
  have hkey : 5 ∉ settings.keys := List.not_mem_nil
  refine ⟨first, t, hstart, ht, hkey, fun count => ?_⟩
  refine (typed_key_at_steps hstart frames [] ht hkey (fun _ => 0) count).mpr ?_
  exact ⟨1, ⟨5, true⟩, by decide, rfl, by decide⟩

/-- A key that is given one frame is let go before the program can see it. -/
theorem typed_key_unseen_of_sticky_one :
    let settings := { Settings.initial with steps := 1, sticky := 1 }
    let events : List Event := [.key ⟨.char 'w', .press, {}, {}⟩]
    ∃ first t, start settings (.ok [0x12, 0x00]) = .ok first ∧
      (first.enqueue events).atSteps? = some t ∧ 5 ∉ settings.keys ∧
      ¬(t.machine.keys.held? 5 = some true ↔ TypedWithin (max settings.sticky 1) 5 [events]) := by
  intro settings events
  have hany : (start settings (.ok [0x12, 0x00])).toOption.any (fun first =>
      (first.enqueue events).atSteps?.any fun t =>
        t.machine.keys.held? 5 = some false) = true := by decide +kernel
  obtain ⟨first, hstart, hany⟩ := start_of_any hany
  obtain ⟨t, ht, hloose⟩ := (Option.any_eq_true _ _).mp hany
  have htyped : TypedWithin (max settings.sticky 1) 5 [events] :=
    ⟨0, ⟨5, true⟩, by decide, rfl, by decide⟩
  refine ⟨first, t, hstart, ht, List.not_mem_nil, fun h => ?_⟩
  have hdown := h.mpr htyped
  rw [of_decide_eq_true hloose] at hdown
  cases hdown

end Session

end Chip8.Host
