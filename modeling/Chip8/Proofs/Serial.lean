import Chip8.Proofs.Execution
import Chip8.Screen
import Chip8.Shared

/-!
# The clients of a shared machine are served one after another

Whoever wants something of a shared machine takes it to themselves first, and a run of several
steps is carried out step by step. In the meantime handles come and go, but nobody else gets at
the machine, so what is left of the run always leads where the whole of it would have led. What
the clients are told is therefore what they would be told by a machine that is not shared, in the
order in which they had it to themselves. A client that fails poisons the lock for ever. From then
on the lock hands out an error, but the machine in the error is the one that all the others have
left, so whoever recovers it loses nothing.
-/

namespace Chip8

namespace Machine

variable {σ : Type} [Surface σ]

/-! ## A command, step by step -/

/-- Goes on with a command that has some steps behind it. There is no answer as long as there are
more steps to come. -/
def proceed (m : Machine σ) (progress : Nat) : Command → Machine σ × Option (Except Fault Reply)
  | .multistep noise count =>
    if progress < count then
      match m.step (noise progress) with
      | ⟨m, .ok ()⟩ => (m, none)
      | ⟨m, .error fault⟩ => (m, some (.error fault))
    else (m, some (.ok .done))
  | command =>
    let outcome := m.perform command
    (outcome.machine, some outcome.result)

/-- What comes of a command that has some steps behind it if nobody interferes. -/
def outlook (m : Machine σ) (progress : Nat) : Command → Outcome σ Reply
  | .multistep noise count => (stepsFrom noise progress (count - progress) m).plain
  | command => m.perform command

/-- The most steps that a command can still take. -/
def stepsLeft (progress : Nat) : Command → Nat
  | .multistep _ count => count - progress
  | _ => 0

theorem outlook_zero (m : Machine σ) (command : Command) :
    m.outlook 0 command = m.perform command := by
  cases command <;> rfl

/-- To go on with a command either brings about what was to come of it, or leaves the outlook as
it was. -/
theorem proceed_cases (m : Machine σ) (progress : Nat) (command : Command) :
    m.proceed progress command =
        ((m.outlook progress command).machine, some (m.outlook progress command).result) ∨
    ∃ n : Machine σ, m.proceed progress command = (n, none) ∧
      n.outlook (progress + 1) command = m.outlook progress command ∧
      stepsLeft (progress + 1) command < stepsLeft progress command := by
  cases command with
  | multistep noise count =>
    by_cases hleft : progress < count
    · have hcount : count - progress = count - (progress + 1) + 1 := by omega
      rw [proceed, if_pos hleft, outlook, hcount, stepsFrom_succ]
      obtain ⟨n, a, hstep⟩ | ⟨n, fault, hstep⟩ := (m.step (noise progress)).done_or_refused
      · rw [hstep]
        refine Or.inr ⟨n, rfl, rfl, ?_⟩
        rw [stepsLeft, stepsLeft]
        omega
      · rw [hstep]
        exact Or.inl rfl
    · have hcount : count - progress = 0 := by omega
      rw [proceed, if_neg hleft, outlook, hcount]
      exact Or.inl rfl
  | _ => exact Or.inl rfl

theorem answers_append (m : Machine σ) (front back : List Command) :
    m.answers (front ++ back) = m.answers front ++ (m.after front).answers back := by
  induction front generalizing m with
  | nil => rfl
  | cons command rest ih => exact congrArg _ (ih _)

end Machine

namespace Shared

theorem isLive_iff {σ : Type} {s : Shared σ} {handle : Nat} :
    s.isLive handle = true ↔ handle ∈ s.handles :=
  List.contains_iff_mem

/-! ## Clients -/

/-- What a handle takes the machine for. A client that fails does so before changing anything. -/
inductive Errand
  | perform (command : Command)
  | look
  | fail

/-- A handle that has the machine to itself, with the steps that are behind it and the machine as
it is now. -/
structure Visit (σ : Type) where
  handle : Nat
  errand : Errand
  progress : Nat
  machine : Machine σ

/-- What a client was told, or what has become of a handle. -/
inductive Entry (σ : Type)
  | answered (handle : Nat) (command : Command) (answer : Except Fault Reply)
  | saw (handle : Nat) (machine : Machine σ)
  | failed (handle : Nat)
  | cloned (handle made : Nat)
  | dropped (handle : Nat)
  | unwrapped (handle : Nat) (result : Option (Machine σ))

namespace Entry

variable {σ : Type}

def command? : Entry σ → Option Command
  | answered _ command _ => some command
  | _ => none

def answer? : Entry σ → Option (Except Fault Reply)
  | answered _ _ answer => some answer
  | _ => none

/-- A client has failed. -/
def isFailure : Entry σ → Bool
  | failed _ => true
  | _ => false

/-- A handle is made. -/
def makes : Entry σ → Bool
  | cloned _ _ => true
  | _ => false

/-- A handle is given up. -/
def givesUp : Entry σ → Bool
  | dropped _ => true
  | unwrapped _ result => result.isSome
  | _ => false

end Entry

/-- A client takes the machine, if nobody else has it; the one that has it goes on; or a handle is
made or given up. -/
inductive Move
  | enter (handle : Nat) (errand : Errand)
  | work
  | clone (handle : Nat)
  | drop (handle : Nat)
  | unwrap (handle : Nat)

/-- A shared machine with the handle that has it to itself, and all that has come about. -/
structure Traffic (σ : Type) where
  shared : Shared σ
  visit : Option (Visit σ)
  log : List (Entry σ)

namespace Traffic

variable {σ : Type} [Surface σ]

def ofMachine (m : Machine σ) : Traffic σ :=
  ⟨.ofMachine m, none, []⟩

/-- The handle is there, and does not have the machine to itself. Only then can it be given up. -/
def isIdle (t : Traffic σ) (handle : Nat) : Bool :=
  t.shared.isLive handle && t.visit.all (·.handle != handle)

/-- Leaves the machine to others. -/
def leave (t : Traffic σ) (m : Machine σ) (failed : Bool) (entry : Entry σ) : Traffic σ :=
  { shared := t.shared.release m failed, visit := none, log := t.log ++ [entry] }

def goOn (t : Traffic σ) (v : Visit σ) : Traffic σ :=
  match v.errand with
  | .look => t.leave v.machine false (.saw v.handle v.machine)
  | .fail => t.leave v.machine true (.failed v.handle)
  | .perform command =>
    match v.machine.proceed v.progress command with
    | (m, none) => { t with visit := some { v with progress := v.progress + 1, machine := m } }
    | (m, some answer) => t.leave m false (.answered v.handle command answer)

/-- Makes a move. What cannot be done now is not done. -/
def move (t : Traffic σ) : Move → Traffic σ
  | .enter handle errand =>
    if t.visit.isNone && t.shared.isLive handle then
      { t with visit := some ⟨handle, errand, 0, t.shared.lock⟩ }
    else t
  | .work =>
    match t.visit with
    | some v => t.goOn v
    | none => t
  | .clone handle =>
    match t.shared.clone handle with
    | (shared, some made) => { t with shared := shared, log := t.log ++ [.cloned handle made] }
    | (_, none) => t
  | .drop handle =>
    if t.isIdle handle then
      { t with shared := t.shared.drop handle, log := t.log ++ [.dropped handle] }
    else t
  | .unwrap handle =>
    if t.isIdle handle then
      let (shared, result) := t.shared.unwrap handle
      { t with shared := shared, log := t.log ++ [.unwrapped handle result] }
    else t

def run (t : Traffic σ) (moves : List Move) : Traffic σ :=
  moves.foldl move t

end Traffic

variable {σ : Type}

/-- The commands that were carried out, one after another. -/
def commands (log : List (Entry σ)) : List Command :=
  log.filterMap Entry.command?

def answers (log : List (Entry σ)) : List (Except Fault Reply) :=
  log.filterMap Entry.answer?

/-- One of the clients has failed. -/
def hasFailure (log : List (Entry σ)) : Bool :=
  log.any Entry.isFailure

theorem commands_concat (log : List (Entry σ)) (entry : Entry σ) :
    commands (log ++ [entry]) = commands log ++ entry.command?.toList := by
  rw [commands, List.filterMap_append, ← commands, List.filterMap_cons]
  cases entry.command? <;> rfl

theorem answers_concat (log : List (Entry σ)) (entry : Entry σ) :
    answers (log ++ [entry]) = answers log ++ entry.answer?.toList := by
  rw [answers, List.filterMap_append, ← answers, List.filterMap_cons]
  cases entry.answer? <;> rfl

theorem hasFailure_concat (log : List (Entry σ)) (entry : Entry σ) :
    hasFailure (log ++ [entry]) = (hasFailure log || entry.isFailure) := by
  rw [hasFailure, List.any_append, List.any_cons, List.any_nil, Bool.or_false]
  rfl

variable [Surface σ]

/-! ## One after another -/

/-- What the clients of machine `m` are told if it serves one after another, up to where it is `n`
and these handles lead to it. -/
inductive Served (m : Machine σ) : List (Entry σ) → Machine σ → List Nat → Prop
  | start : Served m [] m [0]
  | answered {log : List (Entry σ)} {n : Machine σ} {handles : List Nat} {handle : Nat}
      (h : Served m log n handles) (hlive : handle ∈ handles) (command : Command) :
      Served m (log ++ [.answered handle command (n.perform command).result])
        (n.perform command).machine handles
  | saw {log : List (Entry σ)} {n : Machine σ} {handles : List Nat} {handle : Nat}
      (h : Served m log n handles) (hlive : handle ∈ handles) :
      Served m (log ++ [.saw handle n]) n handles
  | failed {log : List (Entry σ)} {n : Machine σ} {handles : List Nat} {handle : Nat}
      (h : Served m log n handles) (hlive : handle ∈ handles) :
      Served m (log ++ [.failed handle]) n handles
  | cloned {log : List (Entry σ)} {n : Machine σ} {handles : List Nat} {handle made : Nat}
      (h : Served m log n handles) (hlive : handle ∈ handles) (hmade : made ∉ handles) :
      Served m (log ++ [.cloned handle made]) n (handles ++ [made])
  | dropped {log : List (Entry σ)} {n : Machine σ} {handles : List Nat} {handle : Nat}
      (h : Served m log n handles) (hlive : handle ∈ handles) :
      Served m (log ++ [.dropped handle]) n (handles.filter (· != handle))
  | kept {log : List (Entry σ)} {n : Machine σ} {handles : List Nat} {handle : Nat}
      (h : Served m log n handles) (hlive : handle ∈ handles) (hothers : handles ≠ [handle]) :
      Served m (log ++ [.unwrapped handle none]) n handles
  | unwrapped {log : List (Entry σ)} {n : Machine σ} {handle : Nat}
      (h : Served m log n [handle]) :
      Served m (log ++ [.unwrapped handle (some n)]) n []

namespace Served

variable {m n : Machine σ} {log : List (Entry σ)} {handles : List Nat}

/-- Only the commands have changed the machine, and the answers are those of a machine that is
not shared. -/
theorem as_unshared (h : Served m log n handles) :
    n = m.after (commands log) ∧ answers log = m.answers (commands log) := by
  induction h with
  | start => exact ⟨rfl, rfl⟩
  | answered h hlive command ih =>
    obtain ⟨hmachine, hanswers⟩ := ih
    rw [commands_concat, answers_concat, Machine.after_append, Machine.answers_append, ← hmachine,
      ← hanswers]
    exact ⟨rfl, rfl⟩
  | saw h hlive ih | failed h hlive ih | dropped h hlive ih | unwrapped h ih =>
    simpa [commands_concat, answers_concat, Entry.command?, Entry.answer?] using ih
  | cloned h hlive hother ih | kept h hlive hother ih =>
    simpa [commands_concat, answers_concat, Entry.command?, Entry.answer?] using ih

/-- There are as many handles as have been made, the first one included, and not been given up. -/
theorem length_handles (h : Served m log n handles) :
    handles.Nodup ∧
      handles.length + log.countP Entry.givesUp = log.countP Entry.makes + 1 := by
  induction h with
  | start => exact ⟨List.pairwise_singleton _ _, rfl⟩
  | cloned h hlive hmade ih =>
    obtain ⟨hnodup, hlength⟩ := ih
    refine ⟨List.nodup_append.mpr ⟨hnodup, List.pairwise_singleton _ _, ?_⟩, ?_⟩
    · rintro handle hhandle _ hmem rfl
      exact hmade (List.mem_singleton.mp hmem ▸ hhandle)
    · simp only [List.length_append, List.length_singleton, List.countP_append,
        List.countP_singleton, Entry.givesUp, Entry.makes, Bool.false_eq_true, if_false, if_true]
      omega
  | @dropped log n handles handle h hlive ih =>
    obtain ⟨hnodup, hlength⟩ := ih
    refine ⟨hnodup.filter _, ?_⟩
    have herase := List.length_erase_of_mem hlive
    have hpos := List.length_pos_of_mem hlive
    rw [hnodup.erase_eq_filter] at herase
    simp only [herase, List.countP_append, List.countP_singleton, Entry.givesUp, Entry.makes,
      Bool.false_eq_true, if_false, if_true]
    omega
  | unwrapped h ih =>
    refine ⟨List.nodup_nil, ?_⟩
    simpa [List.countP_append, Entry.givesUp, Entry.makes, Nat.add_comm] using ih.2
  | answered h hlive _ ih | kept h hlive _ ih =>
    simpa [List.countP_append, Entry.givesUp, Entry.makes] using ih
  | saw h hlive ih | failed h hlive ih =>
    simpa [List.countP_append, Entry.givesUp, Entry.makes] using ih

end Served

/-- What is still to come of the visit is what would come of the whole of it, had it begun with the
machine `n`. -/
def Visit.Owes (v : Visit σ) (n : Machine σ) : Prop :=
  match v.errand with
  | .perform command => v.machine.outlook v.progress command = n.perform command
  | .look | .fail => v.machine = n

namespace Traffic

omit [Surface σ] in
/-- An idle handle is live, and whoever has the machine to itself has it through another. -/
theorem isIdle_iff {t : Traffic σ} {handle : Nat} :
    t.isIdle handle = true ↔
      handle ∈ t.shared.handles ∧ ∀ v, t.visit = some v → v.handle ≠ handle := by
  rw [isIdle, Bool.and_eq_true, isLive_iff]
  cases t.visit <;> simp

/-- The clients have been served one after another up to the machine `n`, but for the one that has
it to itself. The lock keeps `n`, and is poisoned if one of them has failed. -/
structure Accounted (m : Machine σ) (t : Traffic σ) (n : Machine σ) : Prop where
  served : Served m t.log n t.shared.handles
  lt_made : ∀ handle ∈ t.shared.handles, handle < t.shared.made
  mutex : t.shared.mutex = ⟨n, hasFailure t.log⟩
  taken : ∀ v, t.visit = some v → v.handle ∈ t.shared.handles ∧ v.Owes n

namespace Accounted

variable {m n : Machine σ} {t : Traffic σ}

theorem ofMachine (m : Machine σ) : Accounted m (.ofMachine m) m where
  served := .start
  lt_made := fun handle hmem => List.mem_singleton.mp hmem ▸ Nat.zero_lt_one
  mutex := rfl
  taken := fun v hv => by cases hv

/-- Whether the lock is poisoned or not, the machine in it is handed out. -/
theorem lock_eq (h : Accounted m t n) : t.shared.lock = n := by
  rw [Shared.lock_eq, h.mutex]

/-- What becomes of a handle has nothing to do with the lock. -/
theorem mutex_concat (h : Accounted m t n) {entry : Entry σ} (hentry : entry.isFailure = false) :
    t.shared.mutex = ⟨n, hasFailure (t.log ++ [entry])⟩ := by
  rw [hasFailure_concat, hentry, Bool.or_false, h.mutex]

/-- Whoever leaves puts back the machine that its errand has come to, and has been served. -/
theorem leave (h : Accounted m t n) {n' : Machine σ} {failed : Bool} {entry : Entry σ}
    (hserved : Served m (t.log ++ [entry]) n' t.shared.handles)
    (hfailed : entry.isFailure = failed) :
    Accounted m (t.leave n' failed entry) n' where
  served := hserved
  lt_made := h.lt_made
  mutex := by
    show t.shared.mutex.release n' failed = ⟨n', hasFailure (t.log ++ [entry])⟩
    rw [hasFailure_concat, hfailed, h.mutex]
    rfl
  taken := fun v hv => by cases hv

theorem enter (h : Accounted m t n) (handle : Nat) (errand : Errand) :
    Accounted m (t.move (.enter handle errand)) n := by
  rw [move]
  split
  · rename_i hcan
    obtain ⟨-, hlive⟩ := Bool.and_eq_true_iff.mp hcan
    refine { h with taken := ?_ }
    rintro v ⟨⟩
    refine ⟨isLive_iff.mp hlive, ?_⟩
    cases errand with
    | perform command => exact h.lock_eq ▸ Machine.outlook_zero _ command
    | look | fail => exact h.lock_eq
  · exact h

theorem goOn (h : Accounted m t n) {v : Visit σ} (hv : t.visit = some v) :
    ∃ n', Accounted m (t.goOn v) n' := by
  obtain ⟨handle, errand, progress, inside⟩ := v
  obtain ⟨hlive, howes⟩ := h.taken _ hv
  cases errand with
  | look =>
    obtain rfl : inside = n := howes
    exact ⟨_, h.leave (h.served.saw hlive) rfl⟩
  | fail =>
    obtain rfl : inside = n := howes
    exact ⟨_, h.leave (h.served.failed hlive) rfl⟩
  | perform command =>
    -- the outlook stays what it was, so what is answered in the end was to be expected all along
    have howes : inside.outlook progress command = n.perform command := howes
    obtain hproceed | ⟨next, hproceed, hsame, -⟩ := inside.proceed_cases progress command
    · rw [howes] at hproceed
      simp only [Traffic.goOn, hproceed]
      exact ⟨_, h.leave (h.served.answered hlive command) rfl⟩
    · simp only [Traffic.goOn, hproceed]
      refine ⟨n, h.served, h.lt_made, h.mutex, ?_⟩
      rintro v ⟨⟩
      exact ⟨hlive, hsame.trans howes⟩

theorem clone (h : Accounted m t n) (handle : Nat) :
    Accounted m (t.move (.clone handle)) n := by
  rw [move, Shared.clone]
  by_cases hlive : t.shared.isLive handle = true
  · have hfresh : t.shared.made ∉ t.shared.handles := fun hmem =>
      Nat.lt_irrefl _ (h.lt_made _ hmem)
    rw [if_pos hlive]
    refine ⟨h.served.cloned (isLive_iff.mp hlive) hfresh, fun other hmem => ?_,
      h.mutex_concat rfl, ?_⟩
    · obtain hmem | hmem := List.mem_append.mp hmem
      · exact Nat.lt_succ_of_lt (h.lt_made other hmem)
      · exact List.mem_singleton.mp hmem ▸ Nat.lt_succ_self _
    · intro v hv
      obtain ⟨hmem, howes⟩ := h.taken v hv
      exact ⟨List.mem_append_left _ hmem, howes⟩
  · rw [if_neg hlive]
    exact h

theorem lt_made_drop (h : Accounted m t n) (handle : Nat) :
    ∀ other ∈ (t.shared.drop handle).handles, other < t.shared.made := fun other hmem =>
  h.lt_made other (List.mem_filter.mp hmem).1

theorem drop (h : Accounted m t n) (handle : Nat) :
    Accounted m (t.move (.drop handle)) n := by
  rw [move]
  split
  · rename_i hidle
    obtain ⟨hlive, hother⟩ := isIdle_iff.mp hidle
    refine ⟨h.served.dropped hlive, h.lt_made_drop handle, h.mutex_concat rfl,
      fun v hv => ?_⟩
    obtain ⟨hmem, howes⟩ := h.taken v hv
    exact ⟨List.mem_filter.mpr ⟨hmem, bne_iff_ne.mpr (hother v hv)⟩, howes⟩
  · exact h

/-- Nobody has the machine to itself if the only handle is idle. -/
theorem visit_eq_none (h : Accounted m t n) {handle : Nat} (hidle : t.isIdle handle = true)
    (honly : t.shared.handles = [handle]) : t.visit = none := by
  cases hvisit : t.visit with
  | none => rfl
  | some v =>
    have hmem := (h.taken v hvisit).1
    rw [honly] at hmem
    exact absurd (List.mem_singleton.mp hmem) ((isIdle_iff.mp hidle).2 v hvisit)

/-- The last handle brings back the machine, and any other changes nothing. -/
theorem unwrap_eq (h : Accounted m t n) (handle : Nat) :
    (t.shared.handles = [handle] ∧
      t.shared.unwrap handle = (t.shared.drop handle, some n)) ∨
    (t.shared.handles ≠ [handle] ∧ t.shared.unwrap handle = (t.shared, none)) := by
  by_cases honly : t.shared.handles = [handle]
  · have hmachine : Poison.recover t.shared.mutex.intoInner = n := h.lock_eq
    exact Or.inl ⟨honly, by rw [Shared.unwrap, if_pos honly, hmachine]⟩
  · exact Or.inr ⟨honly, if_neg honly⟩

theorem unwrap (h : Accounted m t n) (handle : Nat) :
    Accounted m (t.move (.unwrap handle)) n := by
  rw [move]
  split
  · rename_i hidle
    obtain ⟨honly, hunwrap⟩ | ⟨hothers, hunwrap⟩ := h.unwrap_eq handle
    · have hfree := h.visit_eq_none hidle honly
      have hnone : (t.shared.drop handle).handles = [] := by
        simp [Shared.drop, honly]
      simp only [hunwrap]
      refine ⟨?_, h.lt_made_drop handle, h.mutex_concat rfl,
        fun v hv => by cases hfree.symm.trans hv⟩
      rw [hnone]
      exact Served.unwrapped (honly ▸ h.served)
    · simp only [hunwrap]
      exact ⟨h.served.kept (isIdle_iff.mp hidle).1 hothers, h.lt_made, h.mutex_concat rfl, h.taken⟩
  · exact h

theorem move (h : Accounted m t n) (move : Move) : ∃ n', Accounted m (t.move move) n' := by
  cases move with
  | enter handle errand => exact ⟨n, h.enter handle errand⟩
  | work =>
    cases hvisit : t.visit with
    | none =>
      rw [Traffic.move, hvisit]
      exact ⟨n, h⟩
    | some v =>
      rw [Traffic.move, hvisit]
      exact h.goOn hvisit
  | clone handle => exact ⟨n, h.clone handle⟩
  | drop handle => exact ⟨n, h.drop handle⟩
  | unwrap handle => exact ⟨n, h.unwrap handle⟩

theorem run (h : Accounted m t n) (moves : List Move) : ∃ n', Accounted m (t.run moves) n' :=
  List.foldlRecOn (motive := fun t => ∃ n', Accounted m t n') moves _ ⟨n, h⟩
    fun _ h move _ => h.choose_spec.move move

end Accounted

variable {t : Traffic σ}

/-- Whoever has the machine to itself gets to the answer by going on. -/
theorem run_work_of_visit {handle progress : Nat} {command : Command} {inside : Machine σ}
    (hvisit : t.visit = some ⟨handle, .perform command, progress, inside⟩) :
    let outcome := inside.outlook progress command
    ∃ k, t.run (List.replicate k .work) =
      t.leave outcome.machine false (.answered handle command outcome.result) := by
  intro outcome
  induction hleft : Machine.stepsLeft progress command using Nat.strongRecOn
    generalizing t progress inside with
  | _ left ih =>
    have hwork : t.move .work = t.goOn ⟨handle, .perform command, progress, inside⟩ := by
      rw [move, hvisit]
    obtain hproceed | ⟨next, hproceed, hsame, hless⟩ := inside.proceed_cases progress command
    · refine ⟨1, ?_⟩
      rw [List.replicate_one, run, List.foldl_cons, List.foldl_nil, hwork, goOn]
      simp only [hproceed]
      rfl
    · rw [goOn] at hwork
      simp only [hproceed] at hwork
      obtain ⟨k, hk⟩ := ih _ (hleft ▸ hless) (t := t.move .work) (by rw [hwork]) rfl
      refine ⟨k + 1, ?_⟩
      rw [List.replicate_succ, run, List.foldl_cons, ← run, hk, hwork, hsame]
      rfl

theorem move_enter (hfree : t.visit = none) {handle : Nat} (hlive : handle ∈ t.shared.handles)
    (errand : Errand) :
    t.move (.enter handle errand) =
      { t with visit := some ⟨handle, errand, 0, t.shared.lock⟩ } := by
  rw [move, if_pos (by rw [hfree, isLive_iff.mpr hlive]; rfl)]

/-- A live handle gets its answer if nobody has the machine, also if a client has failed. -/
theorem run_perform (hfree : t.visit = none) {handle : Nat} (hlive : handle ∈ t.shared.handles)
    (command : Command) :
    ∃ k, t.run (.enter handle (.perform command) :: List.replicate k .work) =
        { t with
          shared := (t.shared.perform handle command).1
          log := t.log ++
            [.answered handle command (t.shared.lock.perform command).result] } ∧
      (t.shared.perform handle command).2 =
        some (t.shared.lock.perform command).result := by
  have henter := move_enter hfree hlive (.perform command)
  obtain ⟨k, hk⟩ := run_work_of_visit (t := t.move (.enter handle (.perform command)))
    (by rw [henter])
  have hlive := isLive_iff.mpr hlive
  refine ⟨k, ?_, by rw [Shared.perform, if_pos hlive]⟩
  rw [run, List.foldl_cons, ← run, hk, henter, Machine.outlook_zero, Shared.perform, if_pos hlive,
    hfree]
  rfl

theorem run_look (hfree : t.visit = none) {handle : Nat} (hlive : handle ∈ t.shared.handles) :
    t.run [.enter handle .look, .work] =
      { t with log := t.log ++ [.saw handle t.shared.lock] } := by
  rw [run, List.foldl_cons, move_enter hfree hlive, List.foldl_cons, List.foldl_nil, hfree]
  show leave _ t.shared.lock false _ = _
  rw [leave, t.shared.release_lock]

theorem run_fail (hfree : t.visit = none) {handle : Nat} (hlive : handle ∈ t.shared.handles) :
    t.run [.enter handle .fail, .work] =
      { t with shared := t.shared.fail, log := t.log ++ [.failed handle] } := by
  rw [run, List.foldl_cons, move_enter hfree hlive, hfree]
  rfl

/-- As long as a handle has the machine to itself, nobody else can do anything to it. -/
theorem mutex_move_of_visit {v : Visit σ} (hvisit : t.visit = some v) {move : Move}
    (hmove : move ≠ .work) :
    (t.move move).visit = some v ∧ (t.move move).shared.mutex = t.shared.mutex := by
  cases move with
  | work => exact absurd rfl hmove
  | enter handle errand =>
    rw [Traffic.move, hvisit]
    exact ⟨hvisit, rfl⟩
  | clone handle =>
    rw [Traffic.move, Shared.clone]
    cases t.shared.isLive handle <;> exact ⟨hvisit, rfl⟩
  | drop handle =>
    rw [Traffic.move]
    cases t.isIdle handle <;> exact ⟨hvisit, rfl⟩
  | unwrap handle =>
    rw [Traffic.move, Shared.unwrap]
    by_cases honly : t.shared.handles = [handle]
    · rw [if_pos honly]
      cases t.isIdle handle <;> exact ⟨hvisit, rfl⟩
    · rw [if_neg honly]
      cases t.isIdle handle <;> exact ⟨hvisit, rfl⟩

/-- **The clients of a shared machine are served one after another.** Whatever the moves, the
clients are told what they would be told by a machine that is not shared, and it is that machine
which is in the lock whenever nobody has it to itself. From the first failure of a client on the
lock hands it out in an error, for a while as well as for good, and it is recovered from there. A
live handle can have any command carried out or look at the machine, and until that is done nobody
else gets at it. The last handle brings the machine back, any other one changes nothing, and there
are as many of them as have been made and not been given up. -/
theorem serves_in_turn (m : Machine σ) (moves : List Move) :
    let t := (ofMachine m).run moves
    let n := m.after (commands t.log)
    let handedOut : Except (Poison (Machine σ)) (Machine σ) :=
      if hasFailure t.log then .error ⟨n⟩ else .ok n
    Served m t.log n t.shared.handles ∧
    answers t.log = m.answers (commands t.log) ∧
    (t.visit = none → t.shared.lock = n ∧
      t.shared.mutex.lock = handedOut ∧ t.shared.mutex.intoInner = handedOut ∧
      ∀ handle ∈ t.shared.handles,
        (∀ command, ∃ k,
          t.run (.enter handle (.perform command) :: List.replicate k .work) =
            { t with
              shared := (t.shared.perform handle command).1
              log := t.log ++ [.answered handle command (n.perform command).result] } ∧
          (t.shared.perform handle command).2 = some (n.perform command).result) ∧
        t.run [.enter handle .look, .work] = { t with log := t.log ++ [.saw handle n] } ∧
        t.run [.enter handle .fail, .work] =
          { t with shared := t.shared.fail, log := t.log ++ [.failed handle] } ∧
        t.shared.fail.mutex.lock = .error ⟨n⟩) ∧
    (∀ v, t.visit = some v → ∀ move, move ≠ .work →
      (t.move move).visit = some v ∧ (t.move move).shared.mutex = t.shared.mutex) ∧
    (∀ handle, t.isIdle handle = true →
      (t.shared.handles = [handle] ∧
        t.shared.unwrap handle = (t.shared.drop handle, some n)) ∨
      (t.shared.handles ≠ [handle] ∧ t.shared.unwrap handle = (t.shared, none))) ∧
    t.shared.handles.Nodup ∧
    t.shared.handles.length + t.log.countP Entry.givesUp = t.log.countP Entry.makes + 1 := by
  intro t n handedOut
  obtain ⟨n', h⟩ := (Accounted.ofMachine m).run moves
  obtain ⟨hmachine, hanswers⟩ := h.served.as_unshared
  obtain rfl : n' = n := hmachine
  have hout : t.shared.mutex.handOut = handedOut := by rw [h.mutex]; rfl
  have hfail : t.shared.fail.mutex.lock = .error ⟨n⟩ := by
    rw [Shared.fail, h.lock_eq, Shared.release, Mutex.lock, Mutex.handOut, Mutex.release,
      Bool.or_true, if_pos rfl]
  refine ⟨h.served, hanswers, fun hfree => ?_, fun v hvisit move hmove =>
    mutex_move_of_visit hvisit hmove, fun handle _ => h.unwrap_eq handle,
    h.served.length_handles⟩
  refine ⟨h.lock_eq, hout, hout, fun handle hlive => ?_⟩
  rw [← h.lock_eq] at hfail ⊢
  exact ⟨run_perform hfree hlive, run_look hfree hlive, run_fail hfree hlive, hfail⟩

/-- One handle runs two instructions. In between the other one is made, and does not get to its
press. Then a client fails and a bad key is refused, and the first handle is given up. The lock is
poisoned, and the machine is recovered from it. -/
theorem serves_in_turn_of_failed_client :
    let m := ((Machine.initial Screen.blank).perform (.load [0x12, 0x00])).machine
    let moves : List Move :=
      [.enter 0 (.perform (.multistep (fun _ => 0) 2)), .work, .clone 0,
        .enter 1 (.perform (.press 5)), .drop 0, .work, .work, .unwrap 0, .enter 0 .fail, .work,
        .enter 1 (.perform (.press 99)), .work, .drop 0]
    let t := (ofMachine m).run moves
    t.visit.isNone = true ∧ hasFailure t.log = true ∧ (commands t.log).length = 2 ∧
      t.shared.handles = [1] ∧ t.shared.mutex.lock = .error ⟨m.after (commands t.log)⟩ ∧
      t.shared.mutex.intoInner = .error ⟨m.after (commands t.log)⟩ ∧
      t.shared.lock = m.after (commands t.log) ∧
      t.shared.unwrap 1 = (t.shared.drop 1, some (m.after (commands t.log))) := by
  intro m moves
  have hrun : ((ofMachine m).run moves).visit.isNone = true ∧
      hasFailure ((ofMachine m).run moves).log = true ∧
      (commands ((ofMachine m).run moves).log).length = 2 ∧
      ((ofMachine m).run moves).shared.handles = [1] ∧
      ((ofMachine m).run moves).isIdle 1 = true := by decide +kernel
  obtain ⟨-, -, hlocked, -, hunwrap, -⟩ := serves_in_turn m moves
  -- nothing below has to make the moves again
  generalize (ofMachine m).run moves = t at *
  obtain ⟨hfree, hfailed, hlength, hhandles, hidle⟩ := hrun
  obtain ⟨hlock, hout, hinner, -⟩ := hlocked (Option.isNone_iff_eq_none.mp hfree)
  rw [if_pos hfailed] at hout hinner
  obtain ⟨-, htaken⟩ | ⟨hothers, -⟩ := hunwrap 1 hidle
  · exact ⟨hfree, hfailed, hlength, hhandles, hout, hinner, hlock, htaken⟩
  · exact absurd hhandles hothers

end Traffic

end Shared

end Chip8
