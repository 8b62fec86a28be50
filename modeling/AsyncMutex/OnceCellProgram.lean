import AsyncMutex.Verified

/-!
# The code of the once cell

Every task runs `SyncOnceCell::get` or `SyncOnceCell::get_or_init` on one cell,
as often as it likes.  The init future of a call may complete with a value,
panic, or be dropped with the call.
-/

namespace AsyncMutex

inductive CellAtom where
  | uninit
  | active
  | poison
  | init
deriving DecidableEq

namespace SyncOnceCell

/-- How the init future ended. -/
inductive Cause where
  | complete
  | panic
  | abandon
deriving DecidableEq

/-- The program points of `finish`. -/
inductive Finish (τ : Type) where
  | lock
  | borrow
  | load
  | loop (current : FutexAtom τ CellAtom)
  | popMany
  | next
  | wake
  | release
  | unlock
deriving DecidableEq

/-- How a call ended. -/
inductive Outcome (V : Type) where
  /-- A reference to the value of the cell. -/
  | reference (value : V)
  /-- `get` on a cell that is not initialized. -/
  | none
  /-- `panic!("Panic occurred while initializing")` -/
  | poisoned
  /-- The panic of the own init future. -/
  | unwound
deriving DecidableEq

/-- The program points of a task. -/
inductive Point (τ V : Type) where
  | idle
  | ended (outcome : Outcome V)
  | getLoad
  | load
  | waiter (current : FutexAtom τ CellAtom)
  /-- The loop of `get_or_init` with `CellAtom::Uninit`. -/
  | start (used : Bool) (current : FutexAtom τ CellAtom)
  /-- The loop of `get_or_init` with `CellAtom::Active`. -/
  | wait (current : FutexAtom τ CellAtom)
  | entered
  | waiting
  | reload
  /-- `init.await` -/
  | initializing
  | write (value : V)
  | finish (point : Finish τ) (cause : Cause)
  | assumeInitRef
deriving DecidableEq

inductive Call (V : Type) where
  | get
  | getOrInit
  /-- The init future completes. -/
  | complete (value : V)
  /-- The init future panics. -/
  | panic
  /-- The call is dropped while its init future runs. -/
  | abandon
deriving DecidableEq

variable {τ V : Type}

def start : Point τ V → Call V → Option (Point τ V)
  | .idle, .get => some .getLoad
  | .ended _, .get => some .getLoad
  | .idle, .getOrInit => some .load
  | .ended _, .getOrInit => some .load
  | .initializing, .complete value => some (.write value)
  | .initializing, .panic => some (.finish .lock .panic)
  | .initializing, .abandon => some (.finish .lock .abandon)
  | _, _ => none

/-- The atom that `finish` stores. -/
def Cause.atom : Cause → CellAtom
  | .complete => .init
  | .panic => .poison
  | .abandon => .poison

/-- What follows `finish`. -/
def Cause.resume : Cause → Point τ V
  | .complete => .assumeInitRef
  | .panic => .ended .unwound
  | .abandon => .idle

def finishOp (cause : Cause) : Finish τ → Op τ Unit (Fin 1) CellAtom
  | .lock => .lock ()
  | .borrow => .borrow ()
  | .load => .load ()
  | .loop current => .cmpxchgEnqueueWeak () current cause.atom
  | .popMany => .popMany () WaiterList.usizeMax 0
  | .next => .next
  | .wake => .wake
  | .release => .release ()
  | .unlock => .unlock ()

def code : Point τ V → Code τ Unit (Fin 1) CellAtom
  | .getLoad => .call (.load ())
  | .load => .call (.load ())
  | .waiter _ => .call (.waiter () 0)
  | .start _ current => .call (.cmpxchgWeak () current .active)
  | .wait current => .call (.cmpxchgWaitWeak () current .active)
  | .entered => .call .pending
  | .reload => .call (.load ())
  | .finish point cause => .call (finishOp cause point)
  | .write _ => .own
  | .assumeInitRef => .own
  | .idle => .rest
  | .ended _ => .rest
  | .waiting => .rest
  | .initializing => .rest

/-- The head of the loop of `get_or_init`; `used` is whether its waiter was
woken. -/
def loopAt (used : Bool) (current : FutexAtom τ CellAtom) : Option (Point τ V) :=
  match current.atom with
  | .uninit => some (.start used current)
  -- `panic!("Reusing waiter")`
  | .active => if used then none else some (.wait current)
  | .poison => some (.ended .poisoned)
  | .init => some .assumeInitRef

/-- The result of `get` after its load. -/
def getAt (current : FutexAtom τ CellAtom) : Point τ V :=
  match current.atom with
  | .uninit => .ended .none
  | .active => .ended .none
  | .poison => .ended .poisoned
  | .init => .assumeInitRef

/-- The head of the loop of `finish`, with its assertion. -/
def finishAt (cause : Cause) (current : FutexAtom τ CellAtom) : Option (Point τ V) :=
  if current.atom = .active then some (.finish (.loop current) cause) else none

def resumeFinish (cause : Cause) : Finish τ → Resp τ CellAtom → Option (Point τ V)
  | .lock, .unit => some (.finish .borrow cause)
  | .borrow, .unit => some (.finish .load cause)
  | .load, .atom current => finishAt cause current
  | .loop _, .success => some (.finish .popMany cause)
  | .loop _, .failure current => finishAt cause current
  | .popMany, .unit => some (.finish .next cause)
  | .next, .handle (some _) => some (.finish .wake cause)
  | .next, .handle none => some (.finish .release cause)
  | .wake, .unit => some (.finish .next cause)
  | .release, .unit => some (.finish .unlock cause)
  | .unlock, .unit => some cause.resume
  | _, _ => none

def resume : Point τ V → Resp τ CellAtom → Option (Point τ V)
  | .getLoad, .atom current => some (getAt current)
  | .load, .atom current => some (.waiter current)
  | .waiter current, .unit => loopAt false current
  | .start _ _, .success => some .initializing
  | .start used _, .failure current => loopAt used current
  | .wait _, .success => some .entered
  | .wait _, .failure current => loopAt false current
  | .entered, .unit => some .waiting
  | .waiting, .ready => some .reload
  | .waiting, .cancelWoken => some .idle
  | .waiting, .cancelSleeping => some .idle
  | .reload, .atom current => loopAt true current
  | .finish point cause, resp => resumeFinish cause point resp
  | _, _ => none

/-- The steps on `inner`.  Without a value `assume_init_ref` is undefined. -/
def act (inner : Option V) : Point τ V → Option (Option V × Point τ V)
  | .write value => some (some value, .finish .lock .complete)
  | .assumeInitRef => inner.map fun value => (inner, .ended (.reference value))
  | _ => none

def client : Client τ Unit (Fin 1) CellAtom (Option V) (Point τ V) (Call V) where
  idle := .idle
  start := start
  code := code
  resume := resume
  act _ := act

/-! ## What the tasks hold -/

def finishHolds : Finish τ → Holding Unit (Fin 1)
  | .lock => {}
  | .borrow => { reads := [()] }
  | .load => { reads := [()], borrow := some () }
  | .loop _ => { reads := [()], borrow := some () }
  | .popMany => { reads := [()], borrow := some () }
  | .next => { reads := [()], borrow := some (), list := true }
  | .wake => { reads := [()], borrow := some (), list := true, hand := true }
  | .release => { reads := [()], borrow := some () }
  | .unlock => { reads := [()] }

def holds : Point τ V → Holding Unit (Fin 1)
  | .start false _ => { slot := .fresh () 0 }
  | .wait _ => { slot := .fresh () 0 }
  | .entered => { slot := .entered 0 }
  | .waiting => { slot := .waiting 0 }
  | .finish point _ => finishHolds point
  | _ => {}

theorem loopAt_fresh {current : FutexAtom τ CellAtom} {pc : Point τ V}
    (hresume : loopAt false current = some pc) :
    holds pc = { slot := .fresh () 0 } ∨ holds pc = {} := by
  unfold loopAt at hresume
  split at hresume <;> cases hresume
  · exact Or.inl rfl
  · exact Or.inl rfl
  · exact Or.inr rfl
  · exact Or.inr rfl

theorem loopAt_used {current : FutexAtom τ CellAtom} {pc : Point τ V}
    (hresume : loopAt true current = some pc) : holds pc = {} := by
  unfold loopAt at hresume
  split at hresume <;> cases hresume <;> rfl

theorem finishAt_holds {cause : Cause} {current : FutexAtom τ CellAtom} {pc : Point τ V}
    (hresume : finishAt cause current = some pc) :
    holds pc = { reads := [()], borrow := some () } := by
  unfold finishAt at hresume
  split at hresume <;> cases hresume
  rfl

theorem finish_after (point : Finish τ) (cause : Cause) {resp : Resp τ CellAtom}
    {pc : Point τ V} (hanswers : (finishOp cause point).Answers resp)
    (hresume : resumeFinish cause point resp = some pc) :
    holds pc = (finishHolds point).after (finishOp cause point) resp := by
  cases point with
  | load =>
      obtain ⟨current, rfl⟩ := hanswers
      exact finishAt_holds hresume
  | loop current =>
      rcases hanswers with rfl | ⟨current', rfl⟩
      · cases hresume
        rfl
      · exact finishAt_holds hresume
  | next =>
      obtain ⟨waiter, rfl⟩ := hanswers
      cases waiter <;> cases hresume <;> rfl
  | unlock =>
      cases hanswers
      cases hresume
      cases cause <;> simp [Cause.resume, holds, finishHolds, finishOp, Holding.after]
  | _ =>
      cases hanswers
      cases hresume
      rfl

/-- Program points determine what a task holds. -/
theorem typed : (client : Client τ _ _ _ _ (Point τ V) _).Typed holds where
  idle := rfl
  start pc call pc' hcode hstart := by
    simp only [client] at hstart
    unfold start at hstart
    split at hstart <;> cases hstart <;> rfl
  allows pc op hcode := by
    simp only [client] at hcode
    cases pc with
    | finish point cause =>
        cases hcode
        cases point <;> simp [holds, finishHolds, finishOp, Holding.Allows]
    | _ => cases hcode <;> simp [holds, Holding.Allows]
  resume pc op resp pc' hcode hanswers hresume := by
    simp only [client] at hcode hresume
    cases pc with
    | finish point cause =>
        cases hcode
        exact Or.inl (finish_after point cause hanswers hresume)
    | getLoad =>
        cases hcode
        obtain ⟨current, rfl⟩ := hanswers
        cases hresume
        unfold getAt
        split <;> exact Or.inl rfl
    | load =>
        cases hcode
        obtain ⟨current, rfl⟩ := hanswers
        cases hresume
        exact Or.inl rfl
    | waiter current =>
        cases hcode
        cases hanswers
        exact loopAt_fresh hresume
    | start used current =>
        cases hcode
        rcases hanswers with rfl | ⟨current', rfl⟩
        · cases hresume
          cases used
          · exact Or.inr rfl
          · exact Or.inl rfl
        · cases used
          · exact loopAt_fresh hresume
          · exact Or.inl (loopAt_used hresume)
    | wait current =>
        cases hcode
        rcases hanswers with rfl | ⟨current', rfl⟩
        · cases hresume
          exact Or.inl rfl
        · exact loopAt_fresh hresume
    | entered =>
        cases hcode
        cases hanswers
        cases hresume
        exact Or.inl rfl
    | reload =>
        cases hcode
        obtain ⟨current, rfl⟩ := hanswers
        exact Or.inl (loopAt_used hresume)
    | _ => cases hcode
  waits pc queue hslot := by
    cases pc with
    | finish point cause => cases point <;> cases hslot
    | start used current => cases used <;> cases hslot
    | waiting => rfl
    | _ => cases hslot
  future pc queue resp pc' hslot hfinal hresume := by
    simp only [client] at hresume
    cases pc with
    | finish point cause => cases point <;> cases hslot
    | start used current => cases used <;> cases hslot
    | waiting =>
        rcases hfinal with rfl | rfl | rfl <;> cases hresume <;> rfl
    | _ => cases hslot
  own task memory pc memory' pc' hcode hact := by
    simp only [client] at hact
    unfold act at hact
    split at hact
    · cases hact
      rfl
    · obtain ⟨value, -, heq⟩ := Option.map_eq_some_iff.mp hact
      cases heq
      rfl
    · cases hact

end SyncOnceCell

end AsyncMutex
