import AsyncMutex.FairMutex
import AsyncMutex.FairMutexesSteps

/-!
# Condition variables and the wrong mutex

When `wait` or `notify` is called with the guard of another mutex than the one
that its condition variable is bound to, it panics.  `notify` borrows the guard
of its caller, whose drop releases the mutex while the panic unwinds.  `wait`
has forgotten the guard before it looks, and nobody releases the mutex.
-/

namespace AsyncMutex

namespace FairMutexes

variable {τ M K ω : Type} [DecidableEq M]
  [Inhabited M]

theorem sight_initial (address : M ↪ ℕ+) (mutex : M) :
    sight address (World.initial (ListStore.empty 0) (fun _ => 0) (.mutex default) :
        ListWorld τ (Site M K) (Fin 1) ℕ ω).board (fun _ => { mutex := default }) mutex =
      (World.initial (ListStore.empty 0) (fun _ => 0) .mutex :
        ListWorld τ (FairMutex.Cell K) (Fin 1) ℕ ω).board := by
  simp [sight, Window.sight, Window.lists, World.initial, World.board, ListStore.empty,
    window, Phase.stage, Stage.rename, Busy.activity, Activity.rename, WaiterWaker.isDone, cell]

variable [DecidableEq τ] [DecidableEq K]

theorem inv_initial (address : M ↪ ℕ+) :
    Inv address (World.initial (ListStore.empty 0) (fun _ => 0) (.mutex default) :
      ListWorld τ (Site M K) (Fin 1) ℕ ω).board fun _ => { mutex := default } where
  views mutex := by
    have hidle : (fun _ : τ => Spot.view mutex ({ mutex := default } : Spot τ M K)) =
        fun _ => .idle := funext fun _ => view_of_idle rfl
    rw [sight_initial, hidle]
    exact FairMutex.inv_initial (address mutex)
  apart mutex := by
    constructor <;> simp [World.initial, World.board, ListStore.empty]
  bound _ := Or.inl rfl
  notifies _ _ _ hpoint := by cases hpoint
  waiting _ _ _ hpoint := by cases hpoint
  calls _ hcall := absurd rfl hcall

variable [Fintype τ]

abbrev State (τ M K ω : Type) := HeapSystem τ (Site M K) (Fin 1) ℕ ω Unit (Spot τ M K)

abbrev CallMark (τ M K ω : Type) := Mark τ (Site M K) ℕ ω (Spot τ M K) (Call M K)

variable [DecidableEq ω]

/-- The runs of any number of tasks from `Mutex::new` and `Condvar::new`. -/
def machine (address : M ↪ ℕ+) :
    Machine (State τ M K ω) (τ × Label (Call M K) ω) (CallMark τ M K ω) :=
  System.machine (client address) usage (HeapStore.empty 0) (fun _ => 0) (.mutex default) ()

/-! ## Owners -/

/-- The task has the lock: through a guard, inside `unlock`, or because its
waiter was popped. -/
def Owner (sys : State τ M K ω) (mutex : M) (task : τ) : Prop :=
  FairMutex.Owner sys.world.handle sys.world.awake task ((sys.pc task).view mutex)

/-- A mutex is handed over safely. -/
structure HandsOver (sys : State τ M K ω) (mutex : M) : Prop where
  binary : sys.world.atom (.mutex mutex) = 0 ∨ sys.world.atom (.mutex mutex) = 1
  /-- Exactly one owner while the atom is 1. -/
  owned : sys.world.atom (.mutex mutex) = 1 → ∃! task, Owner sys mutex task
  free : sys.world.atom (.mutex mutex) = 0 → ∀ task, ¬ Owner sys mutex task
  /-- No waiter is stranded. -/
  empty : sys.world.atom (.mutex mutex) = 0 →
    sys.world.lists.store.inbox (.mutex mutex) = [] ∧
      sys.world.lists.store.queues (.mutex mutex) 0 = []
  safe : sys.panicked = false

variable {address : M ↪ ℕ+} {sys : State τ M K ω} {mutex : M} {task : τ}

theorem verified_of_reachable
    (hreach : (machine address : Machine (State τ M K ω) _ _).Reachable sys) :
    sys.lists.Verified (client address) holds fun board _ pc => Inv address board pc :=
  System.Verified.of_reachable (typed address) (invariant address) (inv_initial address)
    (System.lists_of_reachable hreach).1

omit [Inhabited M] [Fintype τ] in
theorem mutex_of_waits {spot : Spot τ M K} (hwaits : (spot.view mutex).waits = true) :
    spot.mutex = mutex := by
  by_contra hmutex
  rw [view_of_ne hmutex, waits_point] at hwaits
  cases hwaits

omit [DecidableEq ω] in
/-- The owners are those that the window of the mutex shows. -/
theorem owns_iff (hsys : sys.lists.Verified (client address) holds
    fun board _ pc => Inv address board pc) :
    FairMutex.Owns (sight address sys.lists.world.board sys.pc mutex) task
        ((sys.pc task).view mutex) ↔ Owner sys mutex task := by
  refine or_congr_right (and_congr_right fun hwaits => ?_)
  have hmine : (window address sys.lists.world.board.atom sys.pc mutex).mine task = true :=
    mine_eq_true.mpr (mutex_of_waits hwaits)
  refine or_congr (exists_congr fun other => ?_) ?_
  · have hapart := (hsys.inv.apart mutex).hand other task
    constructor
    · intro hhandle
      simp only [sight, Window.sight] at hhandle
      split at hhandle
      · exact hhandle
      · cases hhandle
    · intro hhandle
      have hother := (hapart hhandle).symm.trans hmine
      exact (if_pos hother).trans hhandle
  · exact Bool.eq_iff_iff.mp ((congrArg (· && sys.lists.world.board.awake task) hmine).trans
      (Bool.true_and _))

/-- In every run every mutex hands its lock over safely. -/
theorem eachHandsOver_of_reachable
    (hreach : (machine address : Machine (State τ M K ω) _ _).Reachable sys) (mutex : M) :
    HandsOver sys mutex := by
  have hsys := verified_of_reachable hreach
  have hview := hsys.inv.views mutex
  have howns (task : τ) :
      FairMutex.Owns (sight address sys.lists.world.board sys.pc mutex) task
        ((sys.pc task).view mutex) ↔ Owner sys mutex task :=
    owns_iff hsys
  have hunique (task other : τ) (htask : Owner sys mutex task) (hother : Owner sys mutex other) :
      task = other :=
    hview.unique task other ((howns task).mpr htask) ((howns other).mpr hother)
  rcases hview.locked with ⟨hatom, owner, howner⟩ | ⟨hatom, hfree, hinbox, hqueue⟩
  · have hone : sys.world.atom (.mutex mutex) = 1 := hatom
    refine ⟨Or.inr hone, fun _ => ⟨owner, (howns owner).mp howner, fun other hother =>
      hunique other owner hother ((howns owner).mp howner)⟩, ?_, ?_, hsys.safe⟩
    · simp [hone]
    · simp [hone]
  · have hzero : sys.world.atom (.mutex mutex) = 0 := hatom
    refine ⟨Or.inl hzero, ?_, fun _ task howner => hfree task ((howns task).mpr howner),
      fun _ => ⟨hinbox, hqueue⟩, hsys.safe⟩
    simp [hzero]

/-! ## Calls that panic -/

/-- A call of `wait` or `notify`, and what became of it. -/
structure Attempt (M K : Type) where
  mutex : M
  which : K
  /-- The call is `wait`. -/
  waits : Bool
  /-- The condition variable changed in a step of the task. -/
  touched : Bool := false
  /-- How often `unlock` handed the mutex to a waiter or stored 0. -/
  releases : ℕ := 0

/-- `unlock` gives the lock up: to a waiter, or by storing 0. -/
def gives : FairMutex.Point τ K → Resp τ ℕ → Bool
  | .unlock .pop _, .handle (some _) => true
  | .unlock .popEnqueued _, .handle (some _) => true
  | .unlock (.store _) _, .success => true
  | _, _ => false

def frees (mutex : M) : CallMark τ M K ω → Bool
  | .responded _ spot resp => decide (spot.mutex = mutex) && gives spot.point resp
  | _ => false

/-- The atom, the inbox and the queue of the condition variable are the same. -/
def Keeps (board board' : MutexesBoard τ M K) (which : K) : Prop :=
  board'.atom (.condvar which) = board.atom (.condvar which) ∧
    board'.store.inbox (.condvar which) = board.store.inbox (.condvar which) ∧
      board'.store.queues (.condvar which) 0 = board.store.queues (.condvar which) 0

instance (board board' : MutexesBoard τ M K) (which : K) : Decidable (Keeps board board' which) :=
  inferInstanceAs (Decidable (_ ∧ _ ∧ _))

def Attempt.write (attempt : Attempt M K) (board board' : MutexesBoard τ M K)
    (marks : List (CallMark τ M K ω)) : Attempt M K :=
  { attempt with
    touched := attempt.touched || !decide (Keeps board board' attempt.which)
    releases := attempt.releases + (marks.filter (frees attempt.mutex)).length }

/-- The last call of `wait` or `notify` of each task. -/
abbrev Attempts (τ M K : Type) := τ → Option (Attempt M K)

def attempt (mutex : M) : FairMutex.Call K → Option (Attempt M K)
  | .wait which => some ⟨mutex, which, true, false, 0⟩
  | .notify which _ => some ⟨mutex, which, false, false, 0⟩
  | .notifyAll which => some ⟨mutex, which, false, false, 0⟩
  | _ => none

def Attempts.note (board : MutexesBoard τ M K) (label : τ × Label (Call M K) ω)
    (marks : List (CallMark τ M K ω)) (board' : MutexesBoard τ M K)
    (attempts : Attempts τ M K) : Attempts τ M K :=
  let written := (attempts label.1).map fun attempt => attempt.write board board' marks
  Function.update attempts label.1 <|
    match label.2 with
    | .start (mutex, call) => (attempt mutex call).or written
    | _ => written

/-- The runs, with a record of the calls of `wait` and `notify`. -/
def recorded (address : M ↪ ℕ+) :
    Machine (State τ M K ω × Attempts τ M K) (τ × Label (Call M K) ω) (CallMark τ M K ω) :=
  (machine address).record
    (fun sys label marks sys' => Attempts.note sys.lists.world.board label marks
      sys'.lists.world.board)
    fun _ => none

/-! ## The condition variable -/

section Board

variable {board board' : MutexesBoard τ M K} {pc : τ → Spot τ M K}
  {input : Board.Input τ (Site M K) (Fin 1) ℕ}

/-- The condition variable that a call may find bound to another mutex, and
whether the call is `wait`. -/
def calling : FairMutex.Point τ K → Option (K × Bool)
  | .waitWaiter which => some (which, true)
  | .waitLoad which => some (which, true)
  | .waitLoop which _ => some (which, true)
  | .notify (.load _) which => some (which, false)
  | _ => none

omit [Inhabited M] [Fintype τ] [DecidableEq ω] [DecidableEq M] [DecidableEq τ] [DecidableEq K] in
theorem keeps_rfl (board : MutexesBoard τ M K) (which : K) : Keeps board board which :=
  ⟨rfl, rfl, rfl⟩

omit [Fintype τ] in
/-- A step of a call that has not been checked, or of `unlock`, leaves the
condition variables. -/
theorem keeps_of_step {resp : Option (Resp τ ℕ)}
    (hco : (client address).Coherent holds board pc)
    (hasks : (client address).Asks (pc task) input)
    (hstep : board.Step task input resp board')
    (hslot : ∀ queue, (FairMutex.holds (pc task).point).slot ≠ .waiting queue)
    (hnotify : ∀ point which, (pc task).point = .notify point which →
      ∃ count, point = .load count)
    (hwait : ∀ which current, (pc task).point = .waitLoop which current →
      resp ≠ some .success) (which : K) : Keeps board board' which := by
  by_cases huses : ∃ op, input = .call op ∧ op.futex = some (.condvar which)
  · obtain ⟨op, rfl, hfutex⟩ := huses
    obtain ⟨op, hcode, rfl⟩ := code_eq_call (hasks op rfl)
    rw [Op.futex_rename, Option.map_eq_some_iff] at hfutex
    obtain ⟨futex, hfutex, hsite⟩ := hfutex
    cases futex <;> cases hsite
    rcases Inv.point_of_futex hcode hfutex with hpoint | ⟨current, hpoint⟩ | ⟨point, hpoint⟩
    · rw [hpoint] at hcode
      cases hcode
      cases hstep
      exact keeps_rfl board which
    · rw [hpoint] at hcode
      cases hcode
      cases hstep
      case cmpxchgWaitWeak => exact absurd rfl (hwait which _ hpoint)
      case cmpxchgWaitWeakFails => exact keeps_rfl board which
    · obtain ⟨count, rfl⟩ := hnotify point which hpoint
      rw [hpoint] at hcode
      cases hcode
      cases hstep
      exact keeps_rfl board which
  · have hunused : ∀ op, input = .call op → op.futex ≠ some (.condvar which) :=
      fun op hinput hfutex => huses ⟨op, hinput, hfutex⟩
    have hrequeue : board.activity task ≠ .requeueing (.condvar which) := by
      intro hactivity
      cases Inv.mutex_of_requeueing hco hactivity
    have hframe := hstep.frame hunused hrequeue fun hdropping => by
      obtain ⟨queue, hwaiting⟩ := (hco.fits task).slot_of_stage (Or.inr hdropping)
      exact absurd (waiting_of_slot hwaiting) (hslot queue)
    exact ⟨hframe.1, hframe.2.1, congrFun hframe.2.2 0⟩

end Board

/-! ## Calls and their record -/

omit [DecidableEq τ] [DecidableEq K] [Fintype τ] in
theorem calling_of_resume {address : ℕ+} {point point' : FairMutex.Point τ K} {resp : Resp τ ℕ}
    {called : K × Bool} (hresume : FairMutex.resume address point resp = some point')
    (hcalling : calling point' = some called) :
    calling point = some called ∧
      ∀ which current, point = .waitLoop which current → resp ≠ .success := by
  cases point with
  | waitWaiter which =>
      cases resp <;> cases hresume
      exact ⟨hcalling, by simp⟩
  | waitLoad which =>
      cases resp <;> try cases hresume
      simp only [FairMutex.resume, FairMutex.waitAt] at hresume
      split at hresume <;> cases hresume
      exact ⟨hcalling, by simp⟩
  | waitLoop which current =>
      cases resp <;> try cases hresume
      · cases hcalling
      · simp only [FairMutex.resume, FairMutex.waitAt] at hresume
        split at hresume <;> cases hresume
        exact ⟨hcalling, by simp⟩
  | notify before which =>
      simp only [FairMutex.resume] at hresume
      unfold FairMutex.resumeNotify at hresume
      split at hresume
      case h_1 =>
        split at hresume
        · cases hresume
          cases hcalling
        · split at hresume <;> cases hresume
          cases hcalling
      all_goals
        cases hresume
        try cases hcalling
  | unlock before caller =>
      simp only [FairMutex.resume] at hresume
      unfold FairMutex.resumeUnlock at hresume
      split at hresume <;> cases hresume <;> try cases hcalling
      cases caller <;> cases hcalling
  | lockLoop current =>
      cases resp <;> cases hresume
      · split at hcalling <;> cases hcalling
      · cases hcalling
  | _ => cases resp <;> cases hresume <;> cases hcalling

omit [DecidableEq τ] [DecidableEq K] [Fintype τ] in
/-- A drop of a guard gives the lock up once. -/
theorem gives_of_resume {address : ℕ+} {before : FairMutex.Unlock τ}
    {point : FairMutex.Point τ K} {resp : Resp τ ℕ}
    (hresume : FairMutex.resume address (.unlock before .drop) resp = some point) :
    (point = .idle ∨ ∃ unlock, point = .unlock unlock .drop) ∧
      (if point.owns then 0 else 1) = (if before.owns then 0 else 1) +
        if gives (.unlock before .drop : FairMutex.Point τ K) resp then 1 else 0 := by
  simp only [FairMutex.resume] at hresume
  unfold FairMutex.resumeUnlock at hresume
  split at hresume <;> cases hresume
  all_goals first
    | exact ⟨Or.inr ⟨_, rfl⟩, rfl⟩
    | exact ⟨Or.inl rfl, rfl⟩

/-- What holds while a panic unwinds a task, and afterwards. -/
structure Unwinding (address : M ↪ ℕ+) (atom : Site M K → ℕ) (spot : Spot τ M K)
    (attempt : Attempt M K) : Prop where
  point : spot.point = .idle ∨ ∃ unlock, spot.point = .unlock unlock .drop
  untouched : attempt.touched = false
  releases : attempt.releases = if (spot.view attempt.mutex).owns then 0 else 1
  guard : spot.guards attempt.mutex = .forgotten ↔ attempt.waits = true
  bound : ∃ other, other ≠ attempt.mutex ∧ atom (.condvar attempt.which) = address other

/-- The record of a task agrees with where it is. -/
structure Tracks (address : M ↪ ℕ+) (atom : Site M K → ℕ) (spot : Spot τ M K)
    (kept : Option (Attempt M K)) : Prop where
  calls : ∀ which waits, calling spot.point = some (which, waits) →
    kept = some ⟨spot.mutex, which, waits, false, 0⟩
  unwinds : spot.panicked = true → ∃ attempt, kept = some attempt ∧
    Unwinding address atom spot attempt

variable {atom atom' : Site M K → ℕ} {spot : Spot τ M K} {kept : Option (Attempt M K)}

omit [Inhabited M] [Fintype τ] in
/-- A condition variable stays bound. -/
theorem Tracks.congr (htracks : Tracks address atom spot kept)
    (hatom : ∀ which mutex, atom (.condvar which) = address mutex →
      atom' (.condvar which) = address mutex) : Tracks address atom' spot kept where
  calls := htracks.calls
  unwinds hpanicked := by
    obtain ⟨attempt, hkept, hunwinding⟩ := htracks.unwinds hpanicked
    obtain ⟨other, hother, hbound⟩ := hunwinding.bound
    exact ⟨attempt, hkept, { hunwinding with bound := ⟨other, hother, hatom _ _ hbound⟩ }⟩

section Step

variable {board board' : MutexesBoard τ M K} {pc : τ → Spot τ M K}
  {input : Board.Input τ (Site M K) (Fin 1) ℕ} {attempt : Attempt M K}
  {events : List (Event τ (Site M K) ω)} {resp : Resp τ ℕ}

omit [DecidableEq τ] [DecidableEq K] [DecidableEq ω] [Inhabited M] [Fintype τ] in
theorem frees_events (mutex : M) (events : List (Event τ (Site M K) ω)) :
    (events.map (Mark.event : _ → CallMark τ M K ω)).filter (frees mutex) = [] := by
  rw [List.filter_eq_nil_iff]
  rintro mark hmark
  obtain ⟨event, -, rfl⟩ := List.mem_map.mp hmark
  simp [frees]

omit [DecidableEq K] [DecidableEq ω] [Inhabited M] [Fintype τ] in
theorem write_quiet (hkeeps : Keeps board board' attempt.which)
    (events : List (Event τ (Site M K) ω)) :
    attempt.write board board' (events.map (Mark.event : _ → CallMark τ M K ω)) = attempt := by
  simp [Attempt.write, hkeeps, frees_events]

omit [DecidableEq K] [DecidableEq ω] [Inhabited M] [Fintype τ] in
theorem write_responded (hkeeps : Keeps board board' attempt.which)
    (events : List (Event τ (Site M K) ω)) (spot : Spot τ M K) (resp : Resp τ ℕ) :
    attempt.write board board' (events.map .event ++
        [(.responded task spot resp : CallMark τ M K ω)]) =
      { attempt with releases := attempt.releases +
          if spot.mutex = attempt.mutex ∧ gives spot.point resp = true then 1 else 0 } := by
  simp only [Attempt.write, hkeeps, decide_true, Bool.not_true, Bool.or_false,
    List.filter_append, frees_events, List.nil_append, List.filter_singleton, frees]
  by_cases hmutex : spot.mutex = attempt.mutex
  · cases hgives : gives spot.point resp <;> simp [hmutex]
  · simp [hmutex]

variable (hco : (client address).Coherent holds board pc)
  (hasks : (client address).Asks (pc task) input)
include hco hasks

omit [Fintype τ] in
theorem keeps_of_calling {resp : Option (Resp τ ℕ)} {called : K × Bool}
    (hcalling : calling (pc task).point = some called)
    (hstep : board.Step task input resp board')
    (hwait : ∀ which current, (pc task).point = .waitLoop which current →
      resp ≠ some .success) (which : K) : Keeps board board' which := by
  refine keeps_of_step hco hasks hstep (fun queue hslot => ?_) (fun point which hpoint => ?_)
    hwait which
  · cases hpoint : (pc task).point with
    | notify point which =>
        rw [hpoint] at hslot
        cases point <;> cases hslot
    | waitWaiter which =>
        rw [hpoint] at hslot
        cases hslot
    | waitLoad which =>
        rw [hpoint] at hslot
        cases hslot
    | waitLoop which current =>
        rw [hpoint] at hslot
        cases hslot
    | _ =>
        rw [hpoint] at hcalling
        cases hcalling
  · rw [hpoint] at hcalling
    cases point <;> cases hcalling
    exact ⟨_, rfl⟩

omit [Fintype τ] in
theorem Unwinding.keeps {resp : Option (Resp τ ℕ)}
    (hunwinding : Unwinding address atom (pc task) attempt)
    (hstep : board.Step task input resp board') (which : K) : Keeps board board' which := by
  refine keeps_of_step hco hasks hstep (fun queue hslot => ?_) (fun point which hpoint => ?_)
    (fun which current hpoint => ?_) which
  all_goals rcases hunwinding.point with hidle | ⟨unlock, hunlock⟩
  · rw [hidle] at hslot
    cases hslot
  · rw [hunlock] at hslot
    cases unlock <;> cases hslot
  · rw [hidle] at hpoint
    cases hpoint
  · rw [hunlock] at hpoint
    cases hpoint
  · rw [hidle] at hpoint
    cases hpoint
  · rw [hunlock] at hpoint
    cases hpoint

omit [DecidableEq ω] [Fintype τ] in
theorem Tracks.quiet (htracks : Tracks address board.atom (pc task) kept)
    (hinv : Inv address board pc) (hstep : board.Step task input none board')
    (events : List (Event τ (Site M K) ω)) :
    Tracks address board'.atom (pc task) (kept.map fun attempt =>
      attempt.write board board' (events.map (Mark.event : _ → CallMark τ M K ω))) := by
  have hatom (which : K) (mutex : M) (hbound : board.atom (.condvar which) = address mutex) :
      board'.atom (.condvar which) = address mutex :=
    Inv.bound_stable hinv hasks hstep hbound
  constructor
  · intro which waits hcalling
    have hkeeps := keeps_of_calling hco hasks hcalling hstep (by simp) which
    rw [htracks.calls which waits hcalling, Option.map_some, write_quiet hkeeps]
  · intro hpanicked
    obtain ⟨attempt, hkept, hunwinding⟩ := (htracks.congr hatom).unwinds hpanicked
    have hkeeps := hunwinding.keeps hco hasks hstep attempt.which
    refine ⟨attempt, ?_, hunwinding⟩
    rw [hkept, Option.map_some, write_quiet hkeeps]

omit hco hasks [DecidableEq τ] [DecidableEq M] [DecidableEq K] [Inhabited M] [Fintype τ] in
theorem waitAt_of_atom {address : ℕ+} {which : K} (hatom : board.atom (.condvar which) = 0 ∨
    board.atom (.condvar which) = address) :
    FairMutex.waitAt address which (board.word (.condvar which)) =
      some (.waitLoop which (board.word (.condvar which))) := if_pos hatom

omit [Fintype τ] in
/-- Only a call that finds its condition variable bound to another mutex
panics. -/
theorem bound_of_panic (hinv : Inv address board pc)
    (hstep : board.Step task input (some resp) board')
    (hresume : FairMutex.resume (address (pc task).mutex) (pc task).point resp = none)
    {guard : Guard} (hpanics : panics (pc task).point = some guard) :
    ∃ which waits, calling (pc task).point = some (which, waits) ∧
      (guard = .forgotten ↔ waits = true) ∧
        ∃ other, other ≠ (pc task).mutex ∧ board.atom (.condvar which) = address other := by
  have hcall : ∃ op, input = .call op := by
    by_contra hnever
    obtain ⟨point, hpoint, -⟩ := hinv.answer_goOn hco hasks hstep fun op hinput =>
      absurd ⟨op, hinput⟩ hnever
    rw [hresume] at hpoint
    cases hpoint
  obtain ⟨op, rfl⟩ := hcall
  obtain ⟨op, hcode, rfl⟩ := code_eq_call (hasks op rfl)
  have hother {which : K} (hatom : ¬ (board.atom (.condvar which) = 0 ∨
      board.atom (.condvar which) = address (pc task).mutex)) :
      ∃ other, other ≠ (pc task).mutex ∧ board.atom (.condvar which) = address other := by
    rcases hinv.bound which with hzero | ⟨other, hbound⟩
    · exact absurd (Or.inl hzero) hatom
    · refine ⟨other, ?_, hbound⟩
      rintro rfl
      exact hatom (Or.inr hbound)
  cases hpoint : (pc task).point with
  | waitLoad which =>
      rw [hpoint] at hcode hresume hpanics
      cases hcode
      cases hpanics
      cases hstep
      refine ⟨which, true, rfl, by simp, hother fun hatom => ?_⟩
      cases hresume.symm.trans (waitAt_of_atom hatom)
  | waitLoop which current =>
      rw [hpoint] at hcode hresume hpanics
      cases hcode
      cases hpanics
      cases hstep
      case cmpxchgWaitWeak => cases hresume
      case cmpxchgWaitWeakFails =>
        refine ⟨which, true, rfl, by simp, hother fun hatom => ?_⟩
        cases hresume.symm.trans (waitAt_of_atom hatom)
  | notify point which =>
      rw [hpoint] at hcode hresume hpanics
      cases point <;> cases hpanics
      cases hcode
      cases hstep
      refine ⟨which, false, rfl, by simp, hother fun hatom => ?_⟩
      simp only [FairMutex.resume, FairMutex.resumeNotify] at hresume
      split at hresume
      · cases hresume
      · split at hresume
        case isTrue hnonzero haddress => exact hatom.elim hnonzero haddress
        case isFalse => cases hresume
  | _ =>
      rw [hpoint] at hpanics
      cases hpanics

omit [DecidableEq ω] [Fintype τ] in
/-- The call of a task goes on. -/
theorem Tracks.goOn (htracks : Tracks address board.atom (pc task) kept)
    (hinv : Inv address board pc) (hstep : board.Step task input (some resp) board')
    (events : List (Event τ (Site M K) ω)) {point : FairMutex.Point τ K}
    (hresume : FairMutex.resume (address (pc task).mutex) (pc task).point resp = some point) :
    Tracks address board'.atom ((pc task).goOn point) (kept.map fun attempt =>
      attempt.write board board' (events.map .event ++
        [(.responded task (pc task) resp : CallMark τ M K ω)])) := by
  have hatom (which : K) (mutex : M) (hbound : board.atom (.condvar which) = address mutex) :
      board'.atom (.condvar which) = address mutex :=
    Inv.bound_stable hinv hasks hstep hbound
  constructor
  · intro which waits hcalling
    have hcall : ((pc task).goOn point).point ≠ .idle := by
      intro hidle
      rw [hidle] at hcalling
      cases hcalling
    have hpoint := point_of_goOn rfl hcall
    rw [← hpoint] at hcalling
    obtain ⟨hbefore, hwait⟩ := calling_of_resume hresume hcalling
    have hkeeps := keeps_of_calling hco hasks hbefore hstep (fun which current hloop => by
      simpa using hwait which current hloop) which
    have hgives : gives (pc task).point resp = false := by
      cases hcase : (pc task).point with
      | unlock unlock caller =>
          rw [hcase] at hbefore
          cases hbefore
      | _ => rfl
    rw [htracks.calls which waits hbefore, Option.map_some, write_responded hkeeps, goOn_mutex]
    simp [hgives]
  · intro hpanicked
    have hpanicked' : (pc task).panicked = true := by
      rw [← hpanicked]
      cases point <;> rfl
    obtain ⟨attempt, hkept, hunwinding⟩ := (htracks.congr hatom).unwinds hpanicked'
    have hkeeps := hunwinding.keeps hco hasks hstep attempt.which
    rw [hkept, Option.map_some, write_responded hkeeps]
    refine ⟨_, rfl, ?_⟩
    rcases hunwinding.point with hidle | ⟨unlock, hunlock⟩
    · rw [hidle] at hresume
      cases resp <;> cases hresume
    rw [hunlock] at hresume
    obtain ⟨hdrop, hgives⟩ := gives_of_resume hresume
    have hcall : (pc task).point ≠ .idle := by simp [hunlock]
    have hguards : ((pc task).goOn point).guards = (pc task).guards := by
      rcases hdrop with rfl | ⟨unlock', rfl⟩ <;> rfl
    constructor
    · rcases hdrop with rfl | ⟨unlock', rfl⟩
      · exact Or.inl rfl
      · exact Or.inr ⟨unlock', rfl⟩
    · exact hunwinding.untouched
    · have hreleases := hunwinding.releases
      by_cases hmutex : (pc task).mutex = attempt.mutex
      · have hview : ((pc task).goOn point).view attempt.mutex = point := by
          rw [← hmutex]
          exact view_goOn (hinv.calls task hcall) point
        have hbefore : (pc task).view attempt.mutex = .unlock unlock .drop := by
          rw [← hmutex, view_of_point hcall, hunlock]
        rw [hbefore] at hreleases
        simp only [hmutex, true_and, hview, hunlock]
        rw [hreleases, hgives]
        rfl
      · simp only [hmutex, false_and, if_false, Nat.add_zero, view_goOn_of_ne hmutex]
        exact hreleases
    · rw [hguards]
      exact hunwinding.guard
    · exact hunwinding.bound

omit [DecidableEq ω] [Fintype τ] in
/-- The call of a task panics. -/
theorem Tracks.panic (htracks : Tracks address board.atom (pc task) kept)
    (hinv : Inv address board pc) (hstep : board.Step task input (some resp) board')
    (events : List (Event τ (Site M K) ω)) {guard : Guard}
    (hresume : FairMutex.resume (address (pc task).mutex) (pc task).point resp = none)
    (hpanics : panics (pc task).point = some guard) :
    Tracks address board'.atom ((pc task).panic guard) (kept.map fun attempt =>
      attempt.write board board' (events.map .event ++
        [(.responded task (pc task) resp : CallMark τ M K ω)])) := by
  refine ⟨fun _ _ hcalling => (by cases hcalling), fun _ => ?_⟩
  obtain ⟨which, waits, hcalling, hguard, other, hother, hbound⟩ :=
    bound_of_panic hco hasks hinv hstep hresume hpanics
  have hkeeps := keeps_of_calling hco hasks hcalling hstep (fun which current hloop => by
    rintro heq
    cases heq
    rw [hloop] at hresume
    cases hresume) which
  have hgives : gives (pc task).point resp = false := by
    cases hcase : (pc task).point with
    | unlock unlock caller =>
        rw [hcase] at hcalling
        cases hcalling
    | _ => rfl
  obtain ⟨-, hpoint, -⟩ := point_of_panics (τ := τ) (K := K) hpanics
  rw [htracks.calls which waits hcalling, Option.map_some, write_responded hkeeps]
  refine ⟨_, rfl, Or.inl rfl, rfl, ?_, ?_, other, hother,
    Inv.bound_stable hinv hasks hstep hbound⟩
  · have hview : ((pc task).panic guard).view (pc task).mutex = .guard := by
      have hidle : ((pc task).panic guard).view (pc task).mutex =
          (((pc task).panic guard).guards (pc task).mutex).point := view_of_idle rfl
      rw [hidle, ← hpoint]
      simp [Spot.panic, Spot.setGuard]
    simp only [hview, hgives]
    rfl
  · simpa [Spot.panic, Spot.setGuard] using hguard

end Step

omit [DecidableEq ω] [Inhabited M] [Fintype τ] in
/-- A call of `wait` or `notify` begins its record; while a panic unwinds the
task, a drop of a guard does not. -/
theorem Tracks.start {call : Call M K} {spot' : Spot τ M K}
    (htracks : Tracks address atom spot kept) (hstart : start spot call = some spot')
    (board : MutexesBoard τ M K) (marks : List (CallMark τ M K ω))
    (hmarks : ∀ mutex, marks.filter (frees mutex) = []) :
    Tracks address atom spot' ((attempt call.1 call.2).or
      (kept.map fun attempt => attempt.write board board marks)) := by
  obtain ⟨hidle, hguard, hunwinds, point, hpoint, rfl⟩ := start_spec hstart
  constructor
  · intro which waits hcalling
    have hcalled : calling point = some (which, waits) := hcalling
    have hattempt : attempt call.1 call.2 = some ⟨call.1, which, waits, false, 0⟩ := by
      unfold FairMutex.start at hpoint
      split at hpoint <;> cases hpoint <;> cases hcalled
      all_goals
        rename_i hcall
        rw [hcall]
        rfl
    rw [hattempt]
    rfl
  · intro hpanicked
    have hdrop := hunwinds hpanicked
    obtain ⟨kept', hkept, hunwinding⟩ := htracks.unwinds hpanicked
    have hheld : spot.guards call.1 = .held ∧ point = .unlock .lock .drop := by
      rw [hdrop] at hpoint
      cases hcase : spot.guards call.1 <;> rw [hcase] at hpoint <;> cases hpoint
      · exact ⟨rfl, rfl⟩
      · exact absurd hcase hguard
    obtain ⟨hheld, rfl⟩ := hheld
    have hsame : kept'.write board board marks = kept' := by
      simp [Attempt.write, keeps_rfl, hmarks]
    rw [hdrop, hkept, Option.map_some, hsame]
    refine ⟨kept', rfl, Or.inr ⟨.lock, rfl⟩, hunwinding.untouched, ?_, ?_, hunwinding.bound⟩
    · rw [hunwinding.releases]
      by_cases hmutex : call.1 = kept'.mutex
      · rw [← hmutex, view_call (by simp), view_of_idle hidle, hheld]
        rfl
      · rw [view_call_of_ne hidle hmutex]
    · by_cases hmutex : call.1 = kept'.mutex
      · have hnotify := hunwinding.guard
        rw [← hmutex, hheld] at hnotify
        rw [← hmutex, ← hnotify]
        simp [Spot.call]
      · have hkeep : (spot.call call.1 (.unlock .lock .drop)).guards kept'.mutex =
            spot.guards kept'.mutex := Function.update_of_ne (Ne.symm hmutex) _ _
        rw [hkeep]
        exact hunwinding.guard

omit [Fintype τ] in
/-- One step of a task, and its record. -/
theorem tracks_next {sys : ListSystem τ (Site M K) (Fin 1) ℕ ω Unit (Spot τ M K)} {actor : τ}
    {label : Label (Call M K) ω}
    {result : ListSystem τ (Site M K) (Fin 1) ℕ ω Unit (Spot τ M K) × List (CallMark τ M K ω)}
    {attempts : Attempts τ M K}
    (hsys : sys.Verified (client address) holds fun board _ pc => Inv address board pc)
    (hsafe : result.1.panicked = false)
    (hnext : System.Next (client address) sys actor label result)
    (htracks : ∀ task, Tracks address sys.world.board.atom (sys.pc task) (attempts task))
    (task : τ) :
    Tracks address result.1.world.board.atom (result.1.pc task)
      (attempts.note sys.world.board (actor, label) result.2 result.1.world.board task) := by
  cases hnext with
  | @start call spot hcode hstart =>
      by_cases htask : task = actor
      · subst htask
        have hstarted := (htracks task).start hstart sys.world.board
          [(.started task call : CallMark τ M K ω)] fun mutex => by simp [frees]
        simpa [System.setPc, Attempts.note] using hstarted
      · simpa [System.setPc, Attempts.note, htask] using htracks task
  | act hcode => exact absurd hcode (code_ne_own address _)
  | fail hcode => exact absurd hcode (code_ne_own address _)
  | @move _ act outcome hrequest hstep =>
      obtain ⟨hcalls, hboard⟩ := hsys.step_board (typed address) (invariant address) hrequest hstep
      have hasks : (client address).Asks (sys.pc actor) (World.Inv.input act) :=
        fun op hinput => (hcalls op hinput).1
      have hnote (marks : List (CallMark τ M K ω)) (board' : MutexesBoard τ M K) :
          attempts.note sys.world.board (actor, label) marks board' =
            Function.update attempts actor ((attempts actor).map fun attempt =>
              attempt.write sys.world.board board' marks) := by
        cases label with
        | start call => cases hrequest
        | _ => rfl
      have hatom (which : K) (mutex : M)
          (hbound : sys.world.board.atom (.condvar which) = address mutex) :
          outcome.world.board.atom (.condvar which) = address mutex :=
        Inv.bound_stable hsys.inv hasks hboard hbound
      rw [hnote]
      cases hresp : outcome.resp with
      | none =>
          rw [hresp] at hboard
          simp only [System.settle, hresp]
          by_cases htask : task = actor
          · subst htask
            rw [Function.update_self]
            exact (htracks task).quiet hsys.coherent hasks hsys.inv hboard _
          · rw [Function.update_of_ne htask]
            exact (htracks task).congr hatom
      | some resp =>
          rw [hresp] at hboard
          cases hgo : (client address).goOn (sys.pc actor) resp with
          | none => simp [System.settle, hresp, hgo] at hsafe
          | some spot =>
              simp only [System.settle, hresp, hgo]
              by_cases htask : task = actor
              · subst htask
                have hresume : resume address (sys.pc task) resp = some spot := by
                  obtain ⟨hpanic, hmisuse⟩ := hboard.resp_ne
                  rw [← hgo]
                  cases resp <;> first | rfl | exact absurd rfl hpanic | exact absurd rfl hmisuse
                simp only [System.setPc, Function.update_self]
                rcases resume_cases hresume with ⟨point, hpoint, rfl⟩ | ⟨guard, hnone, hguard, rfl⟩
                · exact (htracks task).goOn hsys.coherent hasks hsys.inv hboard _ hpoint
                · exact (htracks task).panic hsys.coherent hasks hsys.inv hboard _ hnone hguard
              · simp only [System.setPc, Function.update_of_ne htask]
                exact (htracks task).congr hatom

/-- The record of a run agrees with where its tasks are. -/
theorem tracks_of_trace {history : List (CallMark τ M K ω)} {attempts : Attempts τ M K}
    (htrace : (recorded address).Trace history (sys, attempts)) (task : τ) :
    Tracks address sys.world.atom (sys.pc task) (attempts task) := by
  refine htrace.invariant (motive := fun _ current =>
    ∀ task, Tracks address current.1.world.atom (current.1.pc task) (current.2 task))
    (fun task => ⟨fun _ _ hcalling => (by cases hcalling), fun hpanicked => (by cases hpanicked)⟩)
    ?_ task
  rintro history ⟨sys, attempts⟩ ⟨actor, label⟩ ⟨next, attempts'⟩ marks hpast htracks hnext
  obtain ⟨hnext, hnote⟩ := Machine.record_next hnext
  have hpast := hpast.unrecorded
  obtain ⟨hlists, -⟩ := System.machine_next.mp (System.next_lists hpast hnext)
  obtain ⟨-, hstep⟩ := System.next_spec hlists
  have hsys := verified_of_reachable hpast.reachable
  have hsafe := (verified_of_reachable (hpast.step hnext).reachable).safe
  intro task
  simp only at hnote
  rw [hnote]
  exact tracks_next hsys hsafe hstep htracks task

/-! ## After the panic -/

/-- The call left its condition variable as it was, and the mutex that it was
called with was released once. -/
structure Clean (sys : State τ M K ω) (task : τ) (attempt : Attempt M K) : Prop where
  untouched : attempt.touched = false
  released : attempt.releases = 1
  gone : ¬ Owner sys attempt.mutex task
  handsOver : HandsOver sys attempt.mutex

/-- The task that is gone has the lock for ever. -/
structure Lost (sys : State τ M K ω) (task : τ) (attempt : Attempt M K) : Prop where
  untouched : attempt.touched = false
  unreleased : attempt.releases = 0
  locked : sys.world.atom (.mutex attempt.mutex) = 1
  owner : ∀ other, Owner sys attempt.mutex other → other = task

/-- In every run a call that panics found its condition variable bound to
another mutex.  When the panic has unwound its task, it has failed cleanly if
it is `notify`, and it has lost the lock if it is `wait`. -/
theorem cleanly_of_trace {history : List (CallMark τ M K ω)} {attempts : Attempts τ M K}
    (htrace : (recorded address).Trace history (sys, attempts)) {task : τ}
    (hunwound : (sys.pc task).Unwound) :
    ∃ attempt, attempts task = some attempt ∧
      (∃ other, other ≠ attempt.mutex ∧
        sys.world.atom (.condvar attempt.which) = address other) ∧
      (Clean sys task attempt ↔ attempt.waits = false) ∧
      (attempt.waits = true → Lost sys task attempt) := by
  obtain ⟨hpanicked, hidle, hguards⟩ := hunwound
  obtain ⟨attempt, hattempt, hunwinding⟩ := (tracks_of_trace htrace task).unwinds hpanicked
  have hhands := eachHandsOver_of_reachable htrace.unrecorded.reachable attempt.mutex
  have hview : (sys.pc task).view attempt.mutex =
      ((sys.pc task).guards attempt.mutex).point := view_of_idle hidle
  have hreleases := hunwinding.releases
  refine ⟨attempt, hattempt, hunwinding.bound, ?_⟩
  cases hguard : (sys.pc task).guards attempt.mutex with
  | held => exact absurd hguard (hguards attempt.mutex)
  | none =>
      have hnotify : attempt.waits = false := by
        have hforgotten := hunwinding.guard
        rw [hguard] at hforgotten
        simpa using hforgotten
      rw [hview, hguard] at hreleases
      refine ⟨iff_of_true ⟨hunwinding.untouched, hreleases, ?_, hhands⟩ hnotify, ?_⟩
      · unfold Owner
        rw [hview, hguard]
        rintro (howns | ⟨hwaits, -⟩)
        · cases howns
        · cases hwaits
      · simp [hnotify]
  | forgotten =>
      have hwait : attempt.waits = true := hunwinding.guard.mp hguard
      have howner : Owner sys attempt.mutex task := by
        unfold Owner
        rw [hview, hguard]
        exact Or.inl rfl
      rw [hview, hguard] at hreleases
      have hone : sys.world.atom (.mutex attempt.mutex) = 1 := by
        rcases hhands.binary with hzero | hone
        · exact absurd howner (hhands.free hzero task)
        · exact hone
      refine ⟨iff_of_false (fun hclean => hclean.gone howner) (by simp [hwait]), fun _ =>
        ⟨hunwinding.untouched, hreleases, hone, fun other hother => ?_⟩⟩
      exact (hhands.owned hone).unique hother howner

/-- The numerals of the runs below. -/
instance twoMutexes : NeZero 2 := ⟨Nat.succ_ne_zero 1⟩

instance threeTasks : NeZero 3 := ⟨Nat.succ_ne_zero 2⟩

/-- Two mutexes at two addresses. -/
def twoAddresses : Bool ↪ ℕ+ := ⟨fun mutex => if mutex then 2 else 1, by decide⟩

/-- Task 0 waits with one mutex; of the other one, task 1 has the guard and task
2 waits for it. -/
def contended : List (Fin 3 × Label (Call Bool Unit) Unit) :=
  (0, .start (false, .lock)) :: List.replicate 3 (0, .call false ()) ++
    (0, .start (false, .wait ())) :: List.replicate 11 (0, .call false ()) ++
    (1, .start (true, .lock)) :: List.replicate 3 (1, .call false ()) ++
    (2, .start (true, .lock)) :: List.replicate 4 (2, .call false ())

/-- Task 1 calls `notify` with its guard, and its panic wakes task 2. -/
theorem cleanly_of_notify :
    ∃ (sys : State (Fin 3) Bool Unit Unit) (attempt : Attempt Bool Unit),
      (sys.pc 1).Unwound ∧ attempt.mutex = true ∧ Clean sys 1 attempt ∧
        sys.world.awake 2 = true := by
  have hrun : ((recorded twoAddresses).run (contended ++
      (1, .start (true, .notify () 1)) :: (1, .call false ()) ::
        (1, .start (true, .dropGuard)) :: List.replicate 8 (1, .call false ()) ++
        [(1, .step false), (1, .call false ())])).map (fun result =>
      decide (((result.1.1.pc 1).panicked = true ∧ (result.1.1.pc 1).point = .idle ∧
        ∀ mutex, (result.1.1.pc 1).guards mutex ≠ .held) ∧
        (result.1.2 1).map (fun attempt => (attempt.mutex, attempt.waits)) =
          some (true, false) ∧ result.1.1.world.awake 2 = true)) = some true := by
    decide +kernel
  obtain ⟨⟨⟨sys, attempts⟩, history⟩, hresult, hgood⟩ := Option.map_eq_some_iff.mp hrun
  obtain ⟨hunwound, hcall, hawake⟩ := of_decide_eq_true hgood
  have htrace : (recorded twoAddresses).Trace history (sys, attempts) := ⟨_, hresult⟩
  obtain ⟨attempt, hattempt, -, hclean, -⟩ := cleanly_of_trace htrace hunwound
  have hcalled : (attempts 1).map (fun attempt => (attempt.mutex, attempt.waits)) =
      some (true, false) := hcall
  rw [hattempt, Option.map_some, Option.some_inj, Prod.mk.injEq] at hcalled
  exact ⟨sys, attempt, hunwound, hcalled.1, hclean.mpr hcalled.2, hawake⟩

/-- Task 1 calls `wait` with its guard, and task 2 waits for ever. -/
theorem unreleased_of_wait :
    ∃ (history : List (CallMark (Fin 3) Bool Unit Unit)) (sys : State (Fin 3) Bool Unit Unit)
      (attempts : Attempts (Fin 3) Bool Unit) (attempt : Attempt Bool Unit),
      (recorded twoAddresses).Trace history (sys, attempts) ∧ (sys.pc 1).Unwound ∧
        attempts 1 = some attempt ∧ attempt.mutex = true ∧ ¬ Clean sys 1 attempt ∧
        sys.world.atom (.mutex true) = 1 ∧ (sys.pc 2).point = .lockWaiting ∧
        sys.world.awake 2 = false := by
  have hrun : ((recorded twoAddresses).run (contended ++
      (1, .start (true, .wait ())) :: List.replicate 2 (1, .call false ()))).map (fun result =>
      decide (((result.1.1.pc 1).panicked = true ∧ (result.1.1.pc 1).point = .idle ∧
        ∀ mutex, (result.1.1.pc 1).guards mutex ≠ .held) ∧
        (result.1.2 1).map (fun attempt => (attempt.mutex, attempt.releases)) =
          some (true, 0) ∧ result.1.1.world.atom (.mutex true) = 1 ∧
        (result.1.1.pc 2).point = .lockWaiting ∧ result.1.1.world.awake 2 = false)) =
        some true := by
    decide +kernel
  obtain ⟨⟨⟨sys, attempts⟩, history⟩, hresult, hgood⟩ := Option.map_eq_some_iff.mp hrun
  obtain ⟨hunwound, hcall, hatom, hwaits, hasleep⟩ := of_decide_eq_true hgood
  obtain ⟨attempt, hattempt, hcalled⟩ := Option.map_eq_some_iff.mp hcall
  rw [Prod.mk.injEq] at hcalled
  refine ⟨history, sys, attempts, attempt, ⟨_, hresult⟩, hunwound, hattempt, hcalled.1,
    fun hclean => ?_, hatom, hwaits, hasleep⟩
  have honce := hclean.released
  rw [hcalled.2] at honce
  cases honce

end FairMutexes

end AsyncMutex
