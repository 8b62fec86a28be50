import AsyncMutex.Verified
import Mathlib.Data.PNat.Basic

/-!
# The code of the fair mutex and of its condition variables

One mutex and a family of condition variables used with it.  Every task runs
`Mutex::lock`, drops its guard (`Mutex::unlock`), or calls `Condvar::wait` or
`Condvar::notify` with its guard.
-/

namespace AsyncMutex

namespace FairMutex

/-- The futexes: the one of the mutex and those of the condition variables. -/
inductive Cell (K : Type) where
  | mutex
  | condvar (which : K)
deriving DecidableEq

/-- What `unlock` was called from. -/
inductive Caller (K : Type) where
  /-- The drop of a guard, or `on_cancel_woken`. -/
  | drop
  /-- `on_pending` of `Condvar::wait`. -/
  | wait (which : K)
deriving DecidableEq

/-- The program points of `Mutex::unlock`. -/
inductive Unlock (τ : Type) where
  | lock
  | borrow
  | pop
  | load
  /-- The head of the loop, where the queue guard is held. -/
  | loop (current : FutexAtom τ ℕ)
  /-- `cmpxchg_enqueue_weak` succeeded. -/
  | popEnqueued
  /-- The queue guard is dropped in order to store 0. -/
  | store (current : FutexAtom τ ℕ)
  | borrowAgain (current : FutexAtom τ ℕ)
  /-- A waiter was popped. -/
  | release
  | wake
  | done
deriving DecidableEq

/-- The program points of `Condvar::notify`. -/
inductive Notify (τ : Type) where
  | load (count : ℕ)
  | lock (count : ℕ) (current : FutexAtom τ ℕ)
  | borrow (count : ℕ) (current : FutexAtom τ ℕ)
  | enqueue (count : ℕ) (current : FutexAtom τ ℕ)
  | popMany (count : ℕ)
  | release
  | lockMutex
  | requeue
  | unlockMutex
  | unlock
deriving DecidableEq

/-- The program points of a task. -/
inductive Point (τ K : Type) where
  | idle
  | lockWaiter
  | lockLoad
  | lockLoop (current : FutexAtom τ ℕ)
  | lockEntered
  | lockWaiting
  /-- The task has a `MutexGuard`. -/
  | guard
  | unlock (point : Unlock τ) (caller : Caller K)
  | waitWaiter (which : K)
  | waitLoad (which : K)
  | waitLoop (which : K) (current : FutexAtom τ ℕ)
  | waitEntered (which : K)
  | waitWaiting (which : K)
  | notify (point : Notify τ) (which : K)
deriving DecidableEq

inductive Call (K : Type) where
  | lock
  | dropGuard
  | wait (which : K)
  | notify (which : K) (count : ℕ)
  | notifyAll (which : K)

variable {τ K : Type}

def Caller.resume : Caller K → Point τ K
  | .drop => .idle
  | .wait which => .waitEntered which

def start : Point τ K → Call K → Option (Point τ K)
  | .idle, .lock => some .lockWaiter
  | .guard, .dropGuard => some (.unlock .lock .drop)
  | .guard, .wait which => some (.waitWaiter which)
  | .guard, .notify which count => some (.notify (.load count) which)
  | .guard, .notifyAll which => some (.notify (.load WaiterList.usizeMax) which)
  | _, _ => none

def unlockOp : Unlock τ → Op τ (Cell K) (Fin 1) ℕ
  | .lock => .lock .mutex
  | .borrow => .borrow .mutex
  | .pop => .pop .mutex 0
  | .load => .load .mutex
  | .loop current =>
      if current.hasNewWaiters then .cmpxchgEnqueueWeak .mutex current 1
      else .release .mutex
  | .popEnqueued => .pop .mutex 0
  | .store current => .cmpxchgWeak .mutex current 0
  | .borrowAgain _ => .borrow .mutex
  | .release => .release .mutex
  | .wake => .wake
  | .done => .unlock .mutex

def notifyOp (address : ℕ+) (which : K) : Notify τ → Op τ (Cell K) (Fin 1) ℕ
  | .load _ => .load (.condvar which)
  | .lock _ _ => .lock (.condvar which)
  | .borrow _ _ => .borrow (.condvar which)
  | .enqueue _ current => .cmpxchgEnqueueWeak (.condvar which) current address
  | .popMany count => .popMany (.condvar which) count 0
  | .release => .release (.condvar which)
  | .lockMutex => .lock .mutex
  | .requeue => .requeue .mutex
  | .unlockMutex => .unlock .mutex
  | .unlock => .unlock (.condvar which)

/-- The operation at a program point; `address` is the address of the mutex,
which is not null. -/
def code (address : ℕ+) : Point τ K → Code τ (Cell K) (Fin 1) ℕ
  | .lockWaiter => .call (.waiter .mutex 0)
  | .lockLoad => .call (.load .mutex)
  | .lockLoop current =>
      if current.atom = 0 then .call (.cmpxchgWeak .mutex current 1)
      else .call (.cmpxchgWaitWeak .mutex current 1)
  | .lockEntered => .call .pending
  | .unlock point _ => .call (unlockOp point)
  | .waitWaiter which => .call (.waiter (.condvar which) 0)
  | .waitLoad which => .call (.load (.condvar which))
  | .waitLoop which current =>
      .call (.cmpxchgWaitWeak (.condvar which) current address)
  | .waitEntered _ => .call .pending
  | .notify point which => .call (notifyOp address which point)
  | .idle => .rest
  | .lockWaiting => .rest
  | .guard => .rest
  | .waitWaiting _ => .rest

/-- The rest of `unlock` after a response, or its end. -/
def resumeUnlock (caller : Caller K) :
    Unlock τ → Resp τ ℕ → Option (Point τ K)
  | .lock, .unit => some (.unlock .borrow caller)
  | .borrow, .unit => some (.unlock .pop caller)
  | .pop, .handle (some _) => some (.unlock .release caller)
  | .pop, .handle none => some (.unlock .load caller)
  | .load, .atom current => some (.unlock (.loop current) caller)
  | .loop _, .success => some (.unlock .popEnqueued caller)
  | .loop _, .failure current => some (.unlock (.loop current) caller)
  | .loop current, .unit => some (.unlock (.store current) caller)
  -- `queue.pop(0).unwrap()`
  | .popEnqueued, .handle (some _) => some (.unlock .release caller)
  | .store _, .success => some (.unlock .done caller)
  | .store _, .failure current => some (.unlock (.borrowAgain current) caller)
  | .borrowAgain current, .unit => some (.unlock (.loop current) caller)
  | .release, .unit => some (.unlock .wake caller)
  | .wake, .unit => some (.unlock .done caller)
  | .done, .unit => some caller.resume
  | _, _ => none

def resumeNotify (address : ℕ+) (which : K) :
    Notify τ → Resp τ ℕ → Option (Point τ K)
  | .load count, .atom current =>
      if current.atom = 0 then some .guard
      -- `panic!("Different mutex")`
      else if current.atom ≠ address then none
      else some (.notify (.lock count current) which)
  | .lock count current, .unit => some (.notify (.borrow count current) which)
  | .borrow count current, .unit => some (.notify (.enqueue count current) which)
  | .enqueue count _, .success => some (.notify (.popMany count) which)
  | .enqueue count _, .failure current =>
      some (.notify (.enqueue count current) which)
  | .popMany _, .unit => some (.notify .release which)
  | .release, .unit => some (.notify .lockMutex which)
  | .lockMutex, .unit => some (.notify .requeue which)
  | .requeue, .unit => some (.notify .unlockMutex which)
  | .unlockMutex, .unit => some (.notify .unlock which)
  | .unlock, .unit => some .guard
  | _, _ => none

/-- The head of the loop of `Condvar::wait`, with its assertion. -/
def waitAt (address : ℕ+) (which : K) (current : FutexAtom τ ℕ) :
    Option (Point τ K) :=
  if current.atom = 0 ∨ current.atom = address then some (.waitLoop which current)
  else none

def resume (address : ℕ+) : Point τ K → Resp τ ℕ → Option (Point τ K)
  | .lockWaiter, .unit => some .lockLoad
  | .lockLoad, .atom current => some (.lockLoop current)
  | .lockLoop current, .success =>
      some (if current.atom = 0 then .guard else .lockEntered)
  | .lockLoop _, .failure current => some (.lockLoop current)
  | .lockEntered, .unit => some .lockWaiting
  | .lockWaiting, .ready => some .guard
  | .lockWaiting, .cancelWoken => some (.unlock .lock .drop)
  | .lockWaiting, .cancelSleeping => some .idle
  | .unlock point caller, resp => resumeUnlock caller point resp
  | .waitWaiter which, .unit => some (.waitLoad which)
  | .waitLoad which, .atom current => waitAt address which current
  | .waitLoop which _, .success => some (.unlock .lock (.wait which))
  | .waitLoop which _, .failure current => waitAt address which current
  | .waitEntered which, .unit => some (.waitWaiting which)
  | .waitWaiting _, .ready => some .guard
  | .waitWaiting _, .cancelWoken => some (.unlock .lock .drop)
  -- `todo!()`
  | .waitWaiting _, .cancelSleeping => none
  | .notify point which, resp => resumeNotify address which point resp
  | _, _ => none

def client (address : ℕ+) :
    Client τ (Cell K) (Fin 1) ℕ Unit (Point τ K) (Call K) where
  idle := .idle
  start := start
  code := code address
  resume := resume address
  act _ _ _ := none

theorem code_ne_own (address : ℕ+) (point : Point τ K) : code address point ≠ .own := by
  cases point with
  | lockLoop current =>
      simp only [code]
      split <;> simp
  | _ => simp [code]

/-! ## What the tasks hold -/

def Caller.slot : Caller K → Slot (Cell K) (Fin 1)
  | .drop => .free
  | .wait _ => .entered 0

def unlockHolds (caller : Caller K) : Unlock τ → Holding (Cell K) (Fin 1)
  | .lock => { slot := caller.slot }
  | .borrow => { slot := caller.slot, reads := [.mutex] }
  | .pop => { slot := caller.slot, reads := [.mutex], borrow := some .mutex }
  | .load => { slot := caller.slot, reads := [.mutex], borrow := some .mutex }
  | .loop _ => { slot := caller.slot, reads := [.mutex], borrow := some .mutex }
  | .popEnqueued =>
      { slot := caller.slot, reads := [.mutex], borrow := some .mutex }
  | .store _ => { slot := caller.slot, reads := [.mutex] }
  | .borrowAgain _ => { slot := caller.slot, reads := [.mutex] }
  | .release =>
      { slot := caller.slot, reads := [.mutex], borrow := some .mutex, hand := true }
  | .wake => { slot := caller.slot, reads := [.mutex], hand := true }
  | .done => { slot := caller.slot, reads := [.mutex] }

def notifyHolds (which : K) : Notify τ → Holding (Cell K) (Fin 1)
  | .load _ => {}
  | .lock _ _ => {}
  | .borrow _ _ => { reads := [.condvar which] }
  | .enqueue _ _ =>
      { reads := [.condvar which], borrow := some (.condvar which) }
  | .popMany _ =>
      { reads := [.condvar which], borrow := some (.condvar which) }
  | .release =>
      { reads := [.condvar which], borrow := some (.condvar which), list := true }
  | .lockMutex => { reads := [.condvar which], list := true }
  | .requeue => { reads := [.mutex, .condvar which], list := true }
  | .unlockMutex => { reads := [.mutex, .condvar which] }
  | .unlock => { reads := [.condvar which] }

def holds : Point τ K → Holding (Cell K) (Fin 1)
  | .lockLoad => { slot := .fresh .mutex 0 }
  | .lockLoop _ => { slot := .fresh .mutex 0 }
  | .lockEntered => { slot := .entered 0 }
  | .lockWaiting => { slot := .waiting 0 }
  | .unlock point caller => unlockHolds caller point
  | .waitLoad which => { slot := .fresh (.condvar which) 0 }
  | .waitLoop which _ => { slot := .fresh (.condvar which) 0 }
  | .waitEntered _ => { slot := .entered 0 }
  | .waitWaiting _ => { slot := .waiting 0 }
  | .notify point which => notifyHolds which point
  | _ => {}

theorem unlock_allows (point : Unlock τ) (caller : Caller K) :
    (unlockHolds caller point).Allows (unlockOp point) := by
  cases point with
  | loop current =>
      simp only [unlockOp]
      split <;> rfl
  | _ => simp [unlockHolds, unlockOp, Holding.Allows]

theorem notify_allows (address : ℕ+) (point : Notify τ) (which : K) :
    (notifyHolds which point).Allows (notifyOp address which point) := by
  cases point <;> simp [notifyHolds, notifyOp, Holding.Allows]

variable [DecidableEq K]

theorem unlock_after (point : Unlock τ) (caller : Caller K) {resp : Resp τ ℕ}
    {pc : Point τ K}
    (hanswers : (unlockOp point : Op τ (Cell K) (Fin 1) ℕ).Answers resp)
    (hresume : resumeUnlock caller point resp = some pc) :
    holds pc = (unlockHolds caller point).after (unlockOp point) resp := by
  cases point with
  | loop current =>
      by_cases hnew : current.hasNewWaiters = true
      · simp only [unlockOp, hnew, if_true, Op.Answers] at hanswers ⊢
        rcases hanswers with rfl | ⟨current', rfl⟩ <;> cases hresume <;> rfl
      · simp only [unlockOp, hnew, Op.Answers] at hanswers ⊢
        cases hanswers
        cases hresume
        rfl
  | done =>
      cases hanswers
      cases hresume
      cases caller <;> simp [Caller.resume, holds, unlockHolds, unlockOp,
        Holding.after, Caller.slot]
  | pop =>
      obtain ⟨waiter, rfl⟩ := hanswers
      cases waiter <;> cases hresume <;> rfl
  | popEnqueued =>
      obtain ⟨waiter, rfl⟩ := hanswers
      cases waiter <;> cases hresume
      rfl
  | load =>
      obtain ⟨current, rfl⟩ := hanswers
      cases hresume
      rfl
  | store current => rcases hanswers with rfl | ⟨current', rfl⟩ <;> cases hresume <;> rfl
  | _ =>
      cases hanswers
      cases hresume
      rfl

theorem notify_after (address : ℕ+) (point : Notify τ) (which : K)
    {resp : Resp τ ℕ} {pc : Point τ K}
    (hresume : resumeNotify address which point resp = some pc) :
    holds pc =
      (notifyHolds which point).after (notifyOp address which point) resp := by
  unfold resumeNotify at hresume
  split at hresume
  case h_1 =>
    split at hresume
    · cases hresume
      rfl
    · split at hresume <;> cases hresume
      rfl
  all_goals cases hresume
  all_goals
    simp [holds, notifyHolds, notifyOp, Holding.after]

omit [DecidableEq K] in
theorem waitAt_holds {address : ℕ+} {which : K} {current : FutexAtom τ ℕ}
    {pc : Point τ K} (hresume : waitAt address which current = some pc) :
    holds pc = { slot := .fresh (.condvar which) 0 } := by
  unfold waitAt at hresume
  split at hresume <;> cases hresume
  rfl

/-- Program points determine what a task holds. -/
theorem typed (address : ℕ+) : (client address : Client τ (Cell K) _ _ _ _ _).Typed
    holds where
  idle := rfl
  start pc call pc' hcode hstart := by
    simp only [client] at hstart
    unfold start at hstart
    split at hstart <;> cases hstart <;> rfl
  allows pc op hcode := by
    simp only [client] at hcode
    cases pc with
    | lockLoop current =>
        simp only [code] at hcode
        split at hcode <;> cases hcode
        · trivial
        · exact ⟨0, rfl⟩
    | unlock point caller =>
        cases hcode
        exact unlock_allows point caller
    | notify point which =>
        cases hcode
        exact notify_allows address point which
    | _ => cases hcode <;> simp [holds, Holding.Allows]
  resume pc op resp pc' hcode hanswers hresume := by
    simp only [client] at hcode hresume
    cases pc with
    | lockLoop current =>
        by_cases hzero : current.atom = 0
        · simp only [code, hzero, if_true] at hcode
          cases hcode
          rcases hanswers with rfl | ⟨current', rfl⟩ <;> cases hresume
          · simp [hzero, holds, Holding.after, Holding.forget, Slot.forget]
          · exact Or.inl rfl
        · simp only [code, hzero, if_false] at hcode
          cases hcode
          rcases hanswers with rfl | ⟨current', rfl⟩ <;> cases hresume
          · simp [hzero, holds, Holding.after, Slot.enter]
          · exact Or.inl rfl
    | unlock point caller =>
        cases hcode
        exact Or.inl (unlock_after point caller hanswers hresume)
    | notify point which =>
        cases hcode
        exact Or.inl (notify_after address point which hresume)
    | waitLoad which =>
        cases hcode
        obtain ⟨current, rfl⟩ := hanswers
        exact Or.inl (waitAt_holds hresume)
    | waitLoop which current =>
        cases hcode
        rcases hanswers with rfl | ⟨current', rfl⟩
        · cases hresume
          exact Or.inl rfl
        · exact Or.inl (waitAt_holds hresume)
    | lockLoad =>
        cases hcode
        obtain ⟨current, rfl⟩ := hanswers
        cases hresume
        exact Or.inl rfl
    | idle => cases hcode
    | lockWaiting => cases hcode
    | guard => cases hcode
    | waitWaiting which => cases hcode
    | _ =>
        cases hcode
        cases hanswers
        cases hresume
        exact Or.inl rfl
  waits pc queue hslot := by
    cases pc with
    | unlock point caller =>
        cases point <;> cases caller <;> cases hslot
    | notify point which => cases point <;> cases hslot
    | _ => cases hslot <;> rfl
  future pc queue resp pc' hslot hresp hresume := by
    simp only [client] at hresume
    cases pc with
    | unlock point caller =>
        cases point <;> cases caller <;> cases hslot
    | notify point which => cases point <;> cases hslot
    | lockWaiting => rcases hresp with rfl | rfl | rfl <;> cases hresume <;> rfl
    | waitWaiting which =>
        rcases hresp with rfl | rfl | rfl <;> cases hresume <;> rfl
    | _ => cases hslot
  own _ _ _ _ _ _ hact := by cases hact

end FairMutex

end AsyncMutex
