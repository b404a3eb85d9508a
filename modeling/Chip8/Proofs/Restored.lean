import Chip8.Proofs.Archiving

/-!
# Values read from a text need not be safe

The parts of a machine rely on what only their own methods see to: no more than sixteen
slots are live, memory has 4096 bytes and a screen has 256. A text that is read can say
otherwise, since reading looks at each number and at nothing else. Here every method that
reaches for a slot or a byte is run with its accesses checked, on a part in any state, and
what runs in range is said exactly. So a part is safe if and only if it keeps to its bounds,
and there are texts for parts that do not.
-/

namespace Chip8

/-! ## Call stacks -/

namespace CallStack

/-- What is asked of a call stack. -/
inductive Request
  | push (address : UInt16)
  | pop
  | clear
  | depth
  | isEmpty
  | live
  deriving DecidableEq, Repr

/-- The stack behind a request that runs in range, refused or not. -/
def serve? (s : CallStack) : Request → Option CallStack
  | .push address => (s.push? address).map Prod.fst
  | .pop => (s.pop?).map Prod.fst
  | .clear => some s.clear
  | .depth | .isEmpty => some s
  | .live => (s.live?).map fun _ => s

/-- Every sequence of requests runs in range and leaves no more than sixteen live slots. -/
def Safe (s : CallStack) : Prop :=
  ∀ requests : List Request, ∃ t, requests.foldlM serve? s = some t ∧ t.depth ≤ capacity

theorem Sound.exists_serve? {s : CallStack} (hs : s.Sound) (request : Request) :
    ∃ t, s.serve? request = some t ∧ t.Sound := by
  cases request with
  | push address =>
    refine ⟨_, by rw [serve?, push?_eq]; rfl, ?_⟩
    obtain ⟨t, h⟩ | ⟨-, h⟩ := s.push_cases address
    · rw [h]
      exact Sound.push h
    · rw [h]
      exact hs
  | pop =>
    refine ⟨_, by rw [serve?, hs.pop?_eq]; rfl, ?_⟩
    obtain ⟨t, address, h⟩ | ⟨-, h⟩ := s.pop_cases
    · rw [h]
      exact hs.pop h
    · rw [h]
      exact hs
  | clear => exact ⟨_, rfl, Nat.zero_le _⟩
  | depth => exact ⟨s, rfl, hs⟩
  | isEmpty => exact ⟨s, rfl, hs⟩
  | live => exact ⟨s, by rw [serve?, hs.live?_eq]; rfl, hs⟩

theorem Sound.exists_foldlM {s : CallStack} (hs : s.Sound) (requests : List Request) :
    ∃ t, requests.foldlM CallStack.serve? s = some t ∧ t.Sound := by
  induction requests generalizing s with
  | nil => exact ⟨s, rfl, hs⟩
  | cons request rest ih =>
    obtain ⟨t, ht, hsound⟩ := hs.exists_serve? request
    simpa [ht] using ih hsound

/-- With more live slots than there are, a pop and the list of live slots reach past the last
slot, a push is refused, and only `clear` changes anything. -/
theorem serve?_of_not_sound {s : CallStack} (hs : ¬s.Sound) {request : Request}
    (hclear : request ≠ .clear) :
    s.serve? request = if request = .pop ∨ request = .live then none else some s := by
  have hdepth : 16 < s.depth := Nat.lt_of_not_le hs
  cases request with
  | push address =>
    have hfull : ¬s.depth < capacity := Nat.not_lt_of_lt hdepth
    simp [serve?, push?, hfull]
  | pop =>
    obtain ⟨depth, hsucc⟩ : ∃ depth, s.depth = depth + 1 := ⟨s.depth - 1, by omega⟩
    have hpast : ¬depth < 16 := by omega
    simp [serve?, pop?, hsucc, hpast]
  | clear => exact absurd rfl hclear
  | depth => rfl
  | isEmpty => rfl
  | live => simp [serve?, live?, hdepth]

/-- Requests on a call stack run in range unless it has more live slots than there are and
something looks at them before they are cleared. -/
theorem isSome_run_iff (s : CallStack) (requests : List Request) :
    (requests.foldlM serve? s).isSome ↔
      s.Sound ∨ ∀ request ∈ requests.takeWhile (· ≠ .clear), request ≠ .pop ∧ request ≠ .live := by
  by_cases hs : s.Sound
  · obtain ⟨t, ht, -⟩ := hs.exists_foldlM requests
    simp [hs, ht]
  · simp only [hs, false_or]
    induction requests with
    | nil => simp
    | cons request rest ih =>
      by_cases hclear : request = .clear
      · obtain ⟨t, ht, -⟩ := Sound.exists_foldlM (s := s.clear) (Nat.zero_le _) rest
        simp [hclear, serve?, ht]
      · rw [List.foldlM_cons, serve?_of_not_sound hs hclear,
          List.takeWhile_cons_of_pos (by simpa using hclear), List.forall_mem_cons]
        by_cases hreads : request = .pop ∨ request = .live
        · have hnot : ¬(request ≠ .pop ∧ request ≠ .live) := fun h => hreads.elim h.1 h.2
          simp only [if_pos hreads, hnot, false_and]
          simp
        · simpa [hreads, not_or.mp hreads] using ih

theorem safe_iff (s : CallStack) : s.Safe ↔ s.depth ≤ 16 := by
  constructor
  · intro h
    obtain ⟨t, ht, hdepth⟩ := h []
    cases ht
    exact hdepth
  · exact fun h => Sound.exists_foldlM h

end CallStack

/-! ## Memory -/

namespace Memory

/-- What is asked of memory. -/
inductive Request
  | read (address : Nat)
  | readWord (address : Nat)
  | region (r : Region)
  | write (address : Nat) (byte : UInt8)
  | writeWord (address : Nat) (word : UInt16)
  | load (r : Region) (data : List UInt8)
  | clear (r : Region)
  deriving DecidableEq, Repr

namespace Request

/-- The number of bytes that have to be there. -/
def reach : Request → Nat
  | read address | write address _ => address % size + 1
  | readWord address | writeWord address _ => max (address % size) ((address + 1) % size) + 1
  | region r | load r _ | clear r => r.stop

/-- The address of the second byte is a machine word, if there is a second byte. -/
def Fits : Request → Prop
  | readWord address | writeWord address _ => address + 1 < UInt64.size
  | _ => True

theorem reach_le_size (request : Request) : request.reach ≤ size := by
  have hmod (a : Nat) : a % size < size := Nat.mod_lt a (by decide)
  cases request with
  | read address => exact hmod address
  | write address byte => exact hmod address
  | readWord address => exact Nat.max_lt.mpr ⟨hmod address, hmod (address + 1)⟩
  | writeWord address word => exact Nat.max_lt.mpr ⟨hmod address, hmod (address + 1)⟩
  | region r => exact r.stop_le_size
  | load r data => exact r.stop_le_size
  | clear r => exact r.stop_le_size

end Request

/-- Memory behind a request, refused or not. -/
def serve (m : Memory) : Request → Memory
  | .read _ | .readWord _ | .region _ => m
  | .write address byte => m.write address byte
  | .writeWord address word => m.writeWord address word
  | .load r data => (m.load r data).1
  | .clear r => m.clear r

/-- Memory behind a request that runs in range, refused or not. -/
def serve? (m : Memory) : Request → Option Memory
  | .read address => (m.read? address).map fun _ => m
  | .readWord address => (m.readWord? address).map fun _ => m
  | .region r => (m.region? r).map fun _ => m
  | .write address byte => m.write? address byte
  | .writeWord address word => m.writeWord? address word
  | .load r data => (m.load? r data).map Prod.fst
  | .clear r => m.clear? r

/-- Every sequence of requests whose addresses are machine words runs in range. -/
def Safe (m : Memory) : Prop :=
  ∀ requests : List Request, (∀ request ∈ requests, request.Fits) →
    (requests.foldlM serve? m).isSome

section Reach

variable (m : Memory)

/-- A request runs in range, and does what it always does, exactly if its address fits and
memory reaches as far as it does. -/
theorem serve?_eq_some_iff (request : Request) (m' : Memory) :
    m.serve? request = some m' ↔
      (request.Fits ∧ request.reach ≤ m.bytes.size) ∧ m.serve request = m' := by
  cases request with
  | read address =>
    simp only [serve?, serve, read?_eq_if, Request.Fits, Request.reach, Nat.add_one_le_iff]
    split <;> simp [*]
  | readWord address =>
    simp [serve?, serve, readWord?_eq_if, Request.Fits, Request.reach]
  | region r => simp [serve?, serve, region?_eq_if, Request.Fits, Request.reach]
  | write address byte =>
    simp only [serve?, serve, write?_eq_if, Request.Fits, Request.reach, Nat.add_one_le_iff]
    split <;> simp [*]
  | writeWord address word =>
    simp [serve?, serve, writeWord?_eq_if, Request.Fits, Request.reach]
  | load r data => simp [serve?, serve, load?_eq_if, Request.Fits, Request.reach]
  | clear r => simp [serve?, serve, clear?_eq_if, Request.Fits, Request.reach]

theorem size_serve (request : Request) : (m.serve request).bytes.size = m.bytes.size := by
  cases request with
  | read address => rfl
  | readWord address => rfl
  | region r => rfl
  | write address byte => exact m.size_write address byte
  | writeWord address word => exact (size_write _ _ _).trans (m.size_write address _)
  | load r data =>
    simp only [serve, load]
    split
    · exact m.size_store _ _
    · rfl
  | clear r => exact m.size_store _ _

/-- Requests on memory run in range exactly if each of them does so at the start. -/
theorem isSome_run_iff (requests : List Request) :
    (requests.foldlM serve? m).isSome ↔
      ∀ request ∈ requests, request.Fits ∧ request.reach ≤ m.bytes.size := by
  refine isSome_foldlM_iff (I := fun t => t.bytes.size = m.bytes.size)
    (fun t ht request => ?_) (fun t ht request t' hserved => ?_) requests rfl
  · simp [Option.isSome_iff_exists, serve?_eq_some_iff, ht]
  · obtain ⟨-, rfl⟩ := (t.serve?_eq_some_iff request t').mp hserved
    exact (t.size_serve request).trans ht

theorem safe_iff : m.Safe ↔ size ≤ m.bytes.size := by
  constructor
  · intro h
    have hlast := h [.read (size - 1)] (by simp [Request.Fits])
    exact ((m.isSome_run_iff _).mp hlast _ List.mem_cons_self).2
  · intro h requests hfits
    exact (m.isSome_run_iff requests).mpr fun request hr =>
      ⟨hfits request hr, Nat.le_trans request.reach_le_size h⟩

end Reach

end Memory

/-! ## Screens -/

namespace Screen

/-- What is asked of a screen. -/
inductive Request
  | pixel (x y : Nat)
  | paint (edit : Surface.Edit)
  deriving DecidableEq, Repr

/-- The byte that the request reaches for is there, if it reaches for one. -/
def Request.HeldBy (s : Screen) : Request → Prop
  | pixel x y | paint (.light x y) | paint (.darken x y) => s.Holds x y
  | paint .clear => True

/-- The screen behind a request. -/
def serve (s : Screen) : Request → Screen
  | .pixel _ _ => s
  | .paint edit => Surface.apply s edit

/-- The screen behind a request that runs in range. -/
def serve? (s : Screen) : Request → Option Screen
  | .pixel x y => (s.pixel? x y).map fun _ => s
  | .paint edit => s.paint? edit

/-- Every sequence of requests runs in range. -/
def Safe (s : Screen) : Prop :=
  ∀ requests : List Request, (requests.foldlM serve? s).isSome

section Reach

variable (s : Screen)

/-- A request runs in range, and does what it always does, exactly if its byte is there. -/
theorem serve?_eq_some_iff (request : Request) (t : Screen) :
    s.serve? request = some t ↔ request.HeldBy s ∧ s.serve request = t := by
  cases request with
  | pixel x y => simp [serve?, serve, pixel?_eq_some_iff, Request.HeldBy]
  | paint edit =>
    cases edit with
    | light x y => exact s.change?_eq_some_iff Octet.light x y t
    | darken x y => exact s.change?_eq_some_iff Octet.darken x y t
    | clear => exact Option.some_inj.trans (and_iff_right trivial).symm

theorem size_serve (request : Request) : (s.serve request).bytes.size = s.bytes.size := by
  cases request with
  | pixel x y => rfl
  | paint edit =>
    cases edit with
    | light x y => exact s.size_light x y
    | darken x y => exact s.size_darken x y
    | clear => exact s.size_clear

theorem Request.heldBy_congr {s t : Screen} (h : t.bytes.size = s.bytes.size)
    (request : Request) : request.HeldBy t ↔ request.HeldBy s := by
  have hholds (x y : Nat) : t.Holds x y ↔ s.Holds x y :=
    ⟨fun ht => ht.congr h.symm, fun hs => hs.congr h⟩
  cases request with
  | pixel x y => exact hholds x y
  | paint edit =>
    cases edit with
    | light x y => exact hholds x y
    | darken x y => exact hholds x y
    | clear => exact Iff.rfl

/-- Requests on a screen run in range exactly if each of them does so at the start. -/
theorem isSome_run_iff (requests : List Request) :
    (requests.foldlM serve? s).isSome ↔ ∀ request ∈ requests, request.HeldBy s := by
  refine isSome_foldlM_iff (I := fun t => t.bytes.size = s.bytes.size)
    (fun t ht request => ?_) (fun t ht request t' hserved => ?_) requests rfl
  · simp [Option.isSome_iff_exists, serve?_eq_some_iff, Request.heldBy_congr ht]
  · obtain ⟨-, rfl⟩ := (t.serve?_eq_some_iff request t').mp hserved
    exact (t.size_serve request).trans ht

theorem safe_iff : s.Safe ↔ byteCount ≤ s.bytes.size := by
  constructor
  · intro h
    have hlast := (s.isSome_run_iff _).mp (h [.pixel 63 31]) _ List.mem_cons_self
    exact hlast 255 rfl
  · intro h requests
    refine (s.isSome_run_iff requests).mpr fun request hr => ?_
    have hholds := holds_of_byteCount_le h
    cases request with
    | pixel x y => exact hholds x y
    | paint edit =>
      cases edit with
      | light x y => exact hholds x y
      | darken x y => exact hholds x y
      | clear => trivial

end Reach

end Screen

/-! ## What texts give -/

/-- The depth that is read is a machine word. -/
theorem CallStack.depth_lt_of_ofJson? {json : Json} {s : CallStack} (h : ofJson? json = some s) :
    s.depth < UInt64.size := by
  simp only [ofJson?, Option.bind_eq_bind, Option.bind_eq_some_iff] at h
  obtain ⟨fields, -, h⟩ := h
  split at h
  · simp only [Option.bind_eq_some_iff] at h
    obtain ⟨numbers, -, slots, -, depth, hdepth, h⟩ := h
    cases h
    exact (Json.eq_of_natural? hdepth).1
  · cases h

namespace Archive

/-- **A value that was read is safe only if it keeps to its bounds.** Whatever the text, the
call stack read from it is safe if at most sixteen slots are live, the memory if it has 4096
bytes or more and the screen if it has 256 or more, and otherwise some request goes past the
end: on a stack that is too deep, every pop and every look at the live slots before the first
`clear`. Reading itself sees to none of this: all it asks of a depth is to be a machine word. -/
theorem restored_safe_iff (text : String) :
    (∀ s : CallStack, read text = some s →
      s.depth < UInt64.size ∧ (s.Safe ↔ s.depth ≤ 16) ∧
      ∀ requests : List CallStack.Request, (requests.foldlM CallStack.serve? s).isSome ↔
        s.depth ≤ 16 ∨
          ∀ request ∈ requests.takeWhile (· ≠ .clear), request ≠ .pop ∧ request ≠ .live) ∧
    (∀ m : Memory, read text = some m → (m.Safe ↔ 4096 ≤ m.bytes.size)) ∧
    ∀ s : Screen, read text = some s → (s.Safe ↔ 256 ≤ s.bytes.size) := by
  refine ⟨fun s h => ⟨?_, s.safe_iff, s.isSome_run_iff⟩, fun m _ => m.safe_iff,
    fun s _ => s.safe_iff⟩
  obtain ⟨tree, -, htree⟩ := Option.bind_eq_some_iff.mp h
  exact CallStack.depth_lt_of_ofJson? htree

/-- With a depth of sixteen a text gives a safe stack, with seventeen one that is not. -/
theorem restored_safe_iff_at_capacity :
    (∃ s : CallStack,
      read "\x7b\"entries\":[0,0,0,0,0,0,0,0,0,0,0,0,0,0,0,0],\"sp\":16\x7d" = some s ∧ s.Safe) ∧
    ∃ s : CallStack,
      read "\x7b\"entries\":[0,0,0,0,0,0,0,0,0,0,0,0,0,0,0,0],\"sp\":17\x7d" = some s ∧ ¬s.Safe := by
  have hfull : read "\x7b\"entries\":[0,0,0,0,0,0,0,0,0,0,0,0,0,0,0,0],\"sp\":16\x7d" =
      some (CallStack.mk (Vector.replicate 16 0) 16) := by rfl
  have hdeep : read "\x7b\"entries\":[0,0,0,0,0,0,0,0,0,0,0,0,0,0,0,0],\"sp\":17\x7d" =
      some (CallStack.mk (Vector.replicate 16 0) 17) := by rfl
  obtain ⟨-, hsafe, -⟩ := (restored_safe_iff _).1 _ hfull
  obtain ⟨-, hunsafe, -⟩ := (restored_safe_iff _).1 _ hdeep
  exact ⟨⟨_, hfull, hsafe.mpr (Nat.le_refl 16)⟩, _, hdeep, mt hunsafe.mp (by decide)⟩

/-- Texts that are read as a stack with one live slot too many, as memory without a byte and as
a screen without a byte, and the first access to each that goes past its end. -/
theorem restored_out_of_range :
    (∃ s : CallStack,
      read "\x7b\"entries\":[0,0,0,0,0,0,0,0,0,0,0,0,0,0,0,0],\"sp\":17\x7d" = some s ∧
        s.depth = 17 ∧ s.pop? = none ∧ s.live? = none) ∧
    (∃ m : Memory, read "\x7b\"memory\":[]\x7d" = some m ∧ m.read? 0 = none) ∧
    ∃ s : Screen, read "\x7b\"bytes\":[]\x7d" = some s ∧ s.pixel? 0 0 = none := by
  refine ⟨⟨⟨Vector.replicate 16 0, 17⟩, by rfl, rfl, rfl, rfl⟩, ⟨⟨#[]⟩, by rfl, rfl⟩,
    ⟨⟨#[]⟩, by rfl, rfl⟩⟩

end Archive

end Chip8
