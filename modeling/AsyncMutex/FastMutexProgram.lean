import AsyncMutex.Verified

/-!
# The code of the fast mutex

Every task runs `Mutex::lock` or drops its guard (`Mutex::unlock`).  The futex
word packs two flags and the number of waiters.  A task that was woken does not
have the lock: it runs the second loop of `lock`, which begins with the
snapshot of the word from before the task slept.
-/

namespace AsyncMutex

namespace FastMutex

structure Atom where
  locked : Bool
  waking : Bool
  waiters : ℕ
deriving DecidableEq

namespace Atom

/-- `Packable::encode`, in a word of 64 bits. -/
def encode (atom : Atom) : ℕ :=
  (atom.waiters <<< 2) % 2 ^ 64 ||| (atom.waking.toNat <<< 1 ||| atom.locked.toNat)

/-- `Packable::decode`. -/
def decode (raw : ℕ) : Atom where
  locked := raw &&& 1 == 1
  waking := (raw >>> 1) &&& 1 == 1
  waiters := raw >>> 2

theorem encode_eq {atom : Atom} (hwaiters : atom.waiters < 2 ^ 62) :
    atom.encode = 4 * atom.waiters + (2 * atom.waking.toNat + atom.locked.toNat) := by
  have hlow : atom.waking.toNat <<< 1 ||| atom.locked.toNat =
      2 * atom.waking.toNat + atom.locked.toNat := by
    cases atom.waking <;> cases atom.locked <;> rfl
  have hlow' : 2 * atom.waking.toNat + atom.locked.toNat < 2 ^ 2 := by
    cases atom.waking <;> cases atom.locked <;> decide
  have hhigh : atom.waiters <<< 2 < 2 ^ 64 := by
    rw [Nat.shiftLeft_eq]
    omega
  rw [encode, Nat.mod_eq_of_lt hhigh, hlow, ← Nat.shiftLeft_add_eq_or_of_lt hlow',
    Nat.shiftLeft_eq]
  omega

/-- No bit is lost below `2 ^ 62` waiters. -/
theorem decode_encode {atom : Atom} (hwaiters : atom.waiters < 2 ^ 62) :
    decode atom.encode = atom := by
  rw [encode_eq hwaiters]
  obtain ⟨locked, waking, waiters⟩ := atom
  simp only [decode, Nat.and_one_is_mod, Nat.shiftRight_eq_div_pow, mk.injEq]
  refine ⟨?_, ?_, ?_⟩
  · cases locked <;> cases waking <;> simp <;> omega
  · cases locked <;> cases waking <;> simp <;> omega
  · cases locked <;> cases waking <;> simp <;> omega

end Atom

/-- The program points of `Mutex::unlock`. -/
inductive Unlock (τ : Type) where
  | load
  /-- The head of the first loop. -/
  | check (current : FutexAtom τ ℕ)
  | borrow (current : FutexAtom τ ℕ)
  | isEmpty (current : FutexAtom τ ℕ)
  /-- The head of the second loop. -/
  | loop (hadWaiters : Bool) (current : FutexAtom τ ℕ)
  /-- The lock is free and a waiter is to be woken. -/
  | pop
  | release
  | wake
  /-- The lock is free and nobody is to be woken. -/
  | leave
  | done
deriving DecidableEq

/-- The program points of a task. -/
inductive Point (τ : Type) where
  | idle
  | lockLoad
  | lockWaiter (current : FutexAtom τ ℕ)
  /-- The head of the first loop of `lock`. -/
  | lockLoop (current : FutexAtom τ ℕ)
  | entered (current : FutexAtom τ ℕ)
  | waiting (current : FutexAtom τ ℕ)
  /-- The task was woken. -/
  | again (current : FutexAtom τ ℕ)
  /-- The head of the inner second loop of `lock`. -/
  | againLoop (current : FutexAtom τ ℕ)
  /-- The task has a `MutexGuard`. -/
  | guard
  | unlock (point : Unlock τ)
deriving DecidableEq

inductive Call where
  | lock
  | dropGuard

variable {τ : Type}

def atomOf (current : FutexAtom τ ℕ) : Atom := .decode current.atom

def start : Point τ → Call → Option (Point τ)
  | .idle, .lock => some .lockLoad
  | .guard, .dropGuard => some (.unlock .load)
  | _, _ => none

/-- The releasing compare-exchange when a waiter is to be woken. -/
def handOver (current : FutexAtom τ ℕ) : ℕ :=
  { atomOf current with locked := false, waking := true : Atom }.encode

def unlockOp : Unlock τ → Op τ Unit (Fin 1) ℕ
  | .load => .load ()
  | .check current =>
      if (atomOf current).waking = true ∨ (atomOf current).waiters = 0 then
        .cmpxchgWeak () current { atomOf current with locked := false : Atom }.encode
      else .lock ()
  | .borrow _ => .borrow ()
  | .isEmpty _ => .isEmpty () 0
  | .loop hadWaiters current =>
      if hadWaiters then .cmpxchgWeak () current (handOver current)
      else if current.hasNewWaiters then .cmpxchgEnqueueWeak () current (handOver current)
      else .cmpxchgWeak () current (Atom.mk false false 0).encode
  | .pop => .pop () 0
  | .release => .release ()
  | .wake => .wake
  | .leave => .release ()
  | .done => .unlock ()

def code : Point τ → Code τ Unit (Fin 1) ℕ
  | .lockLoad => .call (.load ())
  | .lockWaiter _ => .call (.waiter () 0)
  | .lockLoop current =>
      if (atomOf current).locked then
        .call (.cmpxchgWaitWeak () current
          { atomOf current with waiters := (atomOf current).waiters + 1 : Atom }.encode)
      else
        .call (.cmpxchgWeak () current { atomOf current with locked := true : Atom }.encode)
  | .entered _ => .call .pending
  | .again _ => .call (.waiter () 0)
  | .againLoop current =>
      if (atomOf current).locked then
        .call (.cmpxchgWaitWeak () current { atomOf current with waking := false : Atom }.encode)
      else
        .call (.cmpxchgWeak () current
          (Atom.mk true false ((atomOf current).waiters - 1)).encode)
  | .unlock point => .call (unlockOp point)
  | .idle => .rest
  | .waiting _ => .rest
  | .guard => .rest

/-- The head of the first loop of `lock`, with its `checked_add`. -/
def lockAt (current : FutexAtom τ ℕ) : Option (Point τ) :=
  if (atomOf current).locked = true ∧ WaiterList.usizeMax ≤ (atomOf current).waiters then none
  else some (.lockLoop current)

/-- The head of the inner second loop of `lock`, with its subtraction. -/
def againAt (current : FutexAtom τ ℕ) : Option (Point τ) :=
  if (atomOf current).locked = false ∧ (atomOf current).waiters = 0 then none
  else some (.againLoop current)

/-- The head of the second loop of `unlock`, with its assertion. -/
def unlockAt (hadWaiters : Bool) (current : FutexAtom τ ℕ) : Option (Point τ) :=
  if hadWaiters = false ∧ current.hasNewWaiters = false ∧ (atomOf current).waiters ≠ 0 then none
  else some (.unlock (.loop hadWaiters current))

def resumeUnlock : Unlock τ → Resp τ ℕ → Option (Point τ)
  | .load, .atom current => some (.unlock (.check current))
  | .check _, .success => some .idle
  | .check _, .failure current => some (.unlock (.check current))
  | .check current, .unit => some (.unlock (.borrow current))
  | .borrow current, .unit => some (.unlock (.isEmpty current))
  | .isEmpty current, .bool empty => unlockAt (!empty) current
  | .loop hadWaiters current, .success =>
      if hadWaiters = true ∨ current.hasNewWaiters = true then
        some (.unlock (if (atomOf current).waking then .leave else .pop))
      else some (.unlock .leave)
  | .loop hadWaiters _, .failure current => unlockAt hadWaiters current
  -- `queue.pop(0).unwrap()`
  | .pop, .handle (some _) => some (.unlock .release)
  | .release, .unit => some (.unlock .wake)
  | .wake, .unit => some (.unlock .done)
  | .leave, .unit => some (.unlock .done)
  | .done, .unit => some .idle
  | _, _ => none

def resume : Point τ → Resp τ ℕ → Option (Point τ)
  | .lockLoad, .atom current => some (.lockWaiter current)
  | .lockWaiter current, .unit => lockAt current
  | .lockLoop current, .success =>
      some (if (atomOf current).locked then .entered current else .guard)
  | .lockLoop _, .failure current => lockAt current
  | .entered current, .unit => some (.waiting current)
  | .waiting current, .ready => some (.again current)
  | .again current, .unit => againAt current
  | .againLoop current, .success =>
      some (if (atomOf current).locked then .entered current else .guard)
  | .againLoop _, .failure current => againAt current
  | .unlock point, resp => resumeUnlock point resp
  -- both cancel callbacks are `todo!()`
  | _, _ => none

def client : Client τ Unit (Fin 1) ℕ Unit (Point τ) Call where
  idle := .idle
  start := start
  code := code
  resume := resume
  act _ _ _ := none

theorem code_ne_own (point : Point τ) : code point ≠ .own := by
  cases point with
  | lockLoop current =>
      simp only [code]
      split <;> simp
  | againLoop current =>
      simp only [code]
      split <;> simp
  | _ => simp [code]

theorem unlockOp_ne_requeue (point : Unlock τ) (futex : Unit) :
    unlockOp point ≠ .requeue futex := by
  cases point with
  | check current =>
      simp only [unlockOp]
      split <;> simp
  | loop hadWaiters current =>
      simp only [unlockOp]
      split
      · simp
      · split <;> simp
  | _ => simp [unlockOp]

theorem code_ne_requeue (point : Point τ) (futex : Unit) :
    code point ≠ .call (.requeue futex) := by
  cases point with
  | lockLoop current =>
      simp only [code]
      split <;> simp
  | againLoop current =>
      simp only [code]
      split <;> simp
  | unlock point => simp [code, unlockOp_ne_requeue]
  | _ => simp [code]

/-! ## What the tasks hold -/

def unlockHolds : Unlock τ → Holding Unit (Fin 1)
  | .load => {}
  | .check _ => {}
  | .borrow _ => { reads := [()] }
  | .isEmpty _ => { reads := [()], borrow := some () }
  | .loop _ _ => { reads := [()], borrow := some () }
  | .pop => { reads := [()], borrow := some () }
  | .release => { reads := [()], borrow := some (), hand := true }
  | .wake => { reads := [()], hand := true }
  | .leave => { reads := [()], borrow := some () }
  | .done => { reads := [()] }

def holds : Point τ → Holding Unit (Fin 1)
  | .lockLoop _ => { slot := .fresh () 0 }
  | .entered _ => { slot := .entered 0 }
  | .waiting _ => { slot := .waiting 0 }
  | .againLoop _ => { slot := .fresh () 0 }
  | .unlock point => unlockHolds point
  | _ => {}

theorem lockAt_eq {current : FutexAtom τ ℕ} {point : Point τ}
    (hpoint : lockAt current = some point) : point = .lockLoop current := by
  unfold lockAt at hpoint
  split at hpoint <;> cases hpoint
  rfl

theorem againAt_eq {current : FutexAtom τ ℕ} {point : Point τ}
    (hpoint : againAt current = some point) : point = .againLoop current := by
  unfold againAt at hpoint
  split at hpoint <;> cases hpoint
  rfl

theorem unlockAt_eq {hadWaiters : Bool} {current : FutexAtom τ ℕ} {point : Point τ}
    (hpoint : unlockAt hadWaiters current = some point) :
    point = .unlock (.loop hadWaiters current) := by
  unfold unlockAt at hpoint
  split at hpoint <;> cases hpoint
  rfl

theorem unlock_allows (point : Unlock τ) : (unlockHolds point).Allows (unlockOp point) := by
  cases point with
  | check current =>
      simp only [unlockOp]
      split
      · trivial
      · simp [unlockHolds, Holding.Allows]
  | loop hadWaiters current =>
      simp only [unlockOp]
      split
      · trivial
      · split
        · rfl
        · trivial
  | _ => simp [unlockHolds, unlockOp, Holding.Allows]

theorem unlock_after (point : Unlock τ) {resp : Resp τ ℕ} {pc : Point τ}
    (hanswers : (unlockOp point).Answers resp)
    (hresume : resumeUnlock point resp = some pc) :
    holds pc = (unlockHolds point).after (unlockOp point) resp := by
  cases point with
  | load =>
      obtain ⟨current, rfl⟩ := hanswers
      cases hresume
      rfl
  | check current =>
      by_cases hfast : (atomOf current).waking = true ∨ (atomOf current).waiters = 0
      · simp only [unlockOp, hfast, if_true] at hanswers ⊢
        rcases hanswers with rfl | ⟨current', rfl⟩ <;> cases hresume <;> rfl
      · simp only [unlockOp, hfast, if_false] at hanswers ⊢
        cases hanswers
        cases hresume
        rfl
  | isEmpty current =>
      obtain ⟨value, rfl⟩ := hanswers
      rw [unlockAt_eq hresume]
      rfl
  | loop hadWaiters current =>
      have hanswers' : resp = .success ∨ ∃ current', resp = .failure current' := by
        simp only [unlockOp] at hanswers
        split at hanswers
        · exact hanswers
        · split at hanswers <;> exact hanswers
      have hafter : (unlockHolds (.loop hadWaiters current)).after
          (unlockOp (.loop hadWaiters current)) resp = unlockHolds (.pop : Unlock τ) := by
        simp only [unlockOp]
        split
        · rfl
        · split <;> rfl
      rw [hafter]
      rcases hanswers' with rfl | ⟨current', rfl⟩
      · simp only [resumeUnlock] at hresume
        split at hresume <;> cases hresume
        · split <;> rfl
        · rfl
      · rw [unlockAt_eq hresume]
        rfl
  | pop =>
      obtain ⟨waiter, rfl⟩ := hanswers
      cases waiter <;> cases hresume
      rfl
  | _ =>
      cases hanswers
      cases hresume
      rfl

/-- Program points determine what a task holds. -/
theorem typed : (client : Client τ Unit _ _ _ _ _).Typed holds where
  idle := rfl
  start pc call pc' hcode hstart := by
    simp only [client] at hstart
    unfold start at hstart
    split at hstart <;> cases hstart <;> rfl
  allows pc op hcode := by
    simp only [client] at hcode
    cases pc with
    | lockLoop current =>
        simp only [code] at hcode
        split at hcode <;> cases hcode
        · exact ⟨0, rfl⟩
        · trivial
    | againLoop current =>
        simp only [code] at hcode
        split at hcode <;> cases hcode
        · exact ⟨0, rfl⟩
        · trivial
    | unlock point =>
        cases hcode
        exact unlock_allows point
    | _ => cases hcode <;> simp [holds, Holding.Allows]
  resume pc op resp pc' hcode hanswers hresume := by
    simp only [client] at hcode hresume
    cases pc with
    | lockLoad =>
        cases hcode
        obtain ⟨current, rfl⟩ := hanswers
        cases hresume
        exact Or.inl rfl
    | lockWaiter current =>
        cases hcode
        cases hanswers
        rw [lockAt_eq hresume]
        exact Or.inl rfl
    | again current =>
        cases hcode
        cases hanswers
        rw [againAt_eq hresume]
        exact Or.inl rfl
    | lockLoop current =>
        by_cases hlocked : (atomOf current).locked = true
        · simp only [code, hlocked, if_true] at hcode
          cases hcode
          rcases hanswers with rfl | ⟨current', rfl⟩
          · cases hresume
            simp [hlocked, holds, Holding.after, Slot.enter]
          · rw [lockAt_eq hresume]
            exact Or.inl rfl
        · simp only [code, hlocked] at hcode
          cases hcode
          rcases hanswers with rfl | ⟨current', rfl⟩
          · cases hresume
            simp [hlocked, holds, Holding.after, Holding.forget, Slot.forget]
          · rw [lockAt_eq hresume]
            exact Or.inl rfl
    | againLoop current =>
        by_cases hlocked : (atomOf current).locked = true
        · simp only [code, hlocked, if_true] at hcode
          cases hcode
          rcases hanswers with rfl | ⟨current', rfl⟩
          · cases hresume
            simp [hlocked, holds, Holding.after, Slot.enter]
          · rw [againAt_eq hresume]
            exact Or.inl rfl
        · simp only [code, hlocked] at hcode
          cases hcode
          rcases hanswers with rfl | ⟨current', rfl⟩
          · cases hresume
            simp [hlocked, holds, Holding.after, Holding.forget, Slot.forget]
          · rw [againAt_eq hresume]
            exact Or.inl rfl
    | entered current =>
        cases hcode
        cases hanswers
        cases hresume
        exact Or.inl rfl
    | unlock point =>
        cases hcode
        exact Or.inl (unlock_after point hanswers hresume)
    | idle => cases hcode
    | waiting current => cases hcode
    | guard => cases hcode
  waits pc queue hslot := by
    cases pc with
    | unlock point => cases point <;> cases hslot
    | _ => cases hslot <;> rfl
  future pc queue resp pc' hslot hresp hresume := by
    simp only [client] at hresume
    cases pc with
    | unlock point => cases point <;> cases hslot
    | waiting current =>
        rcases hresp with rfl | rfl | rfl <;> cases hresume
        rfl
    | _ => cases hslot
  own _ _ _ _ _ _ hact := by cases hact

end FastMutex

end AsyncMutex
