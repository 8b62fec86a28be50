import AsyncMutex.Verified

/-!
# The code of the reader-writer lock

Every task runs `RwLock::read` or `RwLock::write`, or drops its guard.  The
futex word packs the number of readers that have the lock and the number of
writers, the queued ones included.  The last writer does not hand the lock to
the queued readers one by one: it becomes a reader itself, pops them all, and
adds them to the count in one compare-exchange.
-/

namespace AsyncMutex

namespace RwLock

/-- `READ_QUEUE` and `WRITE_QUEUE`. -/
inductive Queue where
  | read
  | write
deriving DecidableEq

@[ext] structure Atom where
  readers : ℕ
  writers : ℕ
deriving DecidableEq

namespace Atom

/-- `Packable::encode`: both counts are cut to half a word. -/
def encode (atom : Atom) : ℕ :=
  atom.readers % 2 ^ 32 ||| (atom.writers % 2 ^ 32) <<< 32

/-- `Packable::decode`. -/
def decode (raw : ℕ) : Atom where
  readers := raw % 2 ^ 32
  writers := (raw >>> 32) % 2 ^ 32

theorem encode_eq (atom : Atom) :
    atom.encode = 2 ^ 32 * (atom.writers % 2 ^ 32) + atom.readers % 2 ^ 32 := by
  have hlow : atom.readers % 2 ^ 32 < 2 ^ 32 := Nat.mod_lt _ (by decide)
  rw [encode, Nat.or_comm, ← Nat.shiftLeft_add_eq_or_of_lt hlow, Nat.shiftLeft_eq, Nat.mul_comm]

/-- Both counts come back modulo `2 ^ 32`. -/
theorem decode_encode (atom : Atom) :
    decode atom.encode = ⟨atom.readers % 2 ^ 32, atom.writers % 2 ^ 32⟩ := by
  rw [encode_eq, decode, Nat.shiftRight_eq_div_pow, mk.injEq]
  omega

theorem decode_encode_of_lt {atom : Atom} (hreaders : atom.readers < 2 ^ 32)
    (hwriters : atom.writers < 2 ^ 32) : decode atom.encode = atom := by
  rw [decode_encode, Nat.mod_eq_of_lt hreaders, Nat.mod_eq_of_lt hwriters]

theorem readers_decode_lt (raw : ℕ) : (decode raw).readers < 2 ^ 32 :=
  Nat.mod_lt _ (by decide)

theorem writers_decode_lt (raw : ℕ) : (decode raw).writers < 2 ^ 32 :=
  Nat.mod_lt _ (by decide)

end Atom

/-- The program points of `RwLock::read_unlock`. -/
inductive ReadUnlock (τ : Type) where
  | load
  /-- The head of the first loop. -/
  | check (current : FutexAtom τ ℕ)
  | borrow (current : FutexAtom τ ℕ)
  /-- The head of the second loop. -/
  | loop (current : FutexAtom τ ℕ)
  | pop (writers : ℕ)
  | release
  | wake
  /-- There was no writer to pop. -/
  | popReader
  | leave
  | done
deriving DecidableEq

/-- The program points of `RwLock::write_unlock`. -/
inductive WriteUnlock (τ : Type) where
  | lock
  | borrow
  | load
  | isEmpty (current : FutexAtom τ ℕ)
  /-- The head of the loop. -/
  | loop (hasReaders : Bool) (current : FutexAtom τ ℕ)
  /-- There are no waiters, and the queue guard was dropped. -/
  | free (hasReaders : Bool) (current : FutexAtom τ ℕ)
  | reborrow (hasReaders : Bool) (current : FutexAtom τ ℕ)
  /-- The lock is now a read lock. -/
  | popWriter (current : FutexAtom τ ℕ)
  | popMany (current : FutexAtom τ ℕ)
  | releaseReaders (current : FutexAtom τ ℕ)
  | count (current : FutexAtom τ ℕ)
  /-- The head of the loop that counts the new readers. -/
  | countLoop (count : ℕ) (current : FutexAtom τ ℕ)
  | next
  | wakeReader
  /-- The lock goes to a writer. -/
  | pop
  | release
  | wake
  | done
deriving DecidableEq

/-- The program points of a task.  `read` uses `Queue.read`, `write` uses
`Queue.write`. -/
inductive Point (τ : Type) where
  | idle
  | waiter (queue : Queue)
  | load (queue : Queue)
  /-- The head of the loop of `read` or `write`. -/
  | loop (queue : Queue) (current : FutexAtom τ ℕ)
  | entered (queue : Queue)
  | waiting (queue : Queue)
  /-- The task has a `ReadGuard` or a `WriteGuard`. -/
  | guard (queue : Queue)
  | readUnlock (point : ReadUnlock τ)
  | writeUnlock (point : WriteUnlock τ)
deriving DecidableEq

inductive Call where
  | read
  | write
  | dropGuard

variable {τ : Type}

def atomOf (current : FutexAtom τ ℕ) : Atom := .decode current.atom

/-- `read_unlock` or `write_unlock`. -/
def unlockOf : Queue → Point τ
  | .read => .readUnlock .load
  | .write => .writeUnlock .lock

def start : Point τ → Call → Option (Point τ)
  | .idle, .read => some (.waiter .read)
  | .idle, .write => some (.waiter .write)
  | .guard queue, .dropGuard => some (unlockOf queue)
  | _, _ => none

/-- The loop of `read` or `write` takes the lock at once. -/
def Takes (queue : Queue) (current : FutexAtom τ ℕ) : Prop :=
  match queue with
  | .read => (atomOf current).writers = 0
  | .write => atomOf current = ⟨0, 0⟩

instance (queue : Queue) (current : FutexAtom τ ℕ) : Decidable (Takes queue current) := by
  cases queue
  · exact inferInstanceAs (Decidable ((atomOf current).writers = 0))
  · exact inferInstanceAs (Decidable (atomOf current = ⟨0, 0⟩))

/-- The word of a lock that was taken at once. -/
def taken (queue : Queue) (atom : Atom) : Atom :=
  match queue with
  | .read => ⟨atom.readers + 1, 0⟩
  | .write => ⟨0, 1⟩

/-- The word after the task put its waiter on the inbox. -/
def awaited (queue : Queue) (atom : Atom) : Atom :=
  match queue with
  | .read => atom
  | .write => { atom with writers := atom.writers + 1 }

/-- A body of the loop of `read` or `write`. -/
def lockOp (queue : Queue) (current : FutexAtom τ ℕ) : Op τ Unit Queue ℕ :=
  if Takes queue current then .cmpxchgWeak () current (taken queue (atomOf current)).encode
  else .cmpxchgWaitWeak () current (awaited queue (atomOf current)).encode

def readUnlockOp : ReadUnlock τ → Op τ Unit Queue ℕ
  | .load => .load ()
  | .check current =>
      if (atomOf current).readers = 1 ∧ 0 < (atomOf current).writers then .lock ()
      else .cmpxchgWeak () current
        { atomOf current with readers := (atomOf current).readers - 1 : Atom }.encode
  | .borrow _ => .borrow ()
  | .loop current =>
      .cmpxchgEnqueueWeak () current { atomOf current with readers := 0 : Atom }.encode
  | .pop _ => .pop () .write
  | .release => .release ()
  | .wake => .wake
  | .popReader => .pop () .read
  | .leave => .release ()
  | .done => .unlock ()

/-- The writer is the only one who holds the lock or waits for it. -/
def Alone (hasReaders : Bool) (current : FutexAtom τ ℕ) : Prop :=
  (atomOf current).writers = 1 ∧ hasReaders = false ∧ current.hasNewWaiters = false

instance (hasReaders : Bool) (current : FutexAtom τ ℕ) : Decidable (Alone hasReaders current) :=
  inferInstanceAs (Decidable (_ ∧ _))

def writeUnlockOp : WriteUnlock τ → Op τ Unit Queue ℕ
  | .lock => .lock ()
  | .borrow => .borrow ()
  | .load => .load ()
  | .isEmpty _ => .isEmpty () .read
  | .loop hasReaders current =>
      if Alone hasReaders current then .release ()
      else if (atomOf current).writers = 1 then
        .cmpxchgEnqueueWeak () current (Atom.mk 1 0).encode
      else .cmpxchgEnqueueWeak () current
        { atomOf current with writers := (atomOf current).writers - 1 : Atom }.encode
  | .free _ current => .cmpxchgWeak () current (Atom.mk 0 0).encode
  | .reborrow _ _ => .borrow ()
  | .popWriter _ => .pop () .write
  | .popMany _ => .popMany () WaiterList.usizeMax .read
  | .releaseReaders _ => .release ()
  | .count _ => .count
  | .countLoop count current => .cmpxchgWeak () current
      { atomOf current with readers := (atomOf current).readers + count - 1 : Atom }.encode
  | .next => .next
  | .wakeReader => .wake
  | .pop => .pop () .write
  | .release => .release ()
  | .wake => .wake
  | .done => .unlock ()

def code : Point τ → Code τ Unit Queue ℕ
  | .waiter queue => .call (.waiter () queue)
  | .load _ => .call (.load ())
  | .loop queue current => .call (lockOp queue current)
  | .entered _ => .call .pending
  | .readUnlock point => .call (readUnlockOp point)
  | .writeUnlock point => .call (writeUnlockOp point)
  | .idle => .rest
  | .waiting _ => .rest
  | .guard _ => .rest

/-- The head of the first loop of `read_unlock`, with its subtraction. -/
def checkAt (current : FutexAtom τ ℕ) : Option (Point τ) :=
  if (atomOf current).readers = 0 then none else some (.readUnlock (.check current))

/-- The head of the loop of `write_unlock`, with its assertion and its
subtraction. -/
def writeAt (hasReaders : Bool) (current : FutexAtom τ ℕ) : Option (Point τ) :=
  if (atomOf current).readers ≠ 0 ∨ (atomOf current).writers = 0 then none
  else some (.writeUnlock (.loop hasReaders current))

/-- The head of the loop that counts the new readers, with its subtraction. -/
def countAt (count : ℕ) (current : FutexAtom τ ℕ) : Option (Point τ) :=
  if (atomOf current).readers + count = 0 then none
  else some (.writeUnlock (.countLoop count current))

def resumeRead : ReadUnlock τ → Resp τ ℕ → Option (Point τ)
  | .load, .atom current => checkAt current
  | .check _, .success => some .idle
  | .check _, .failure current => checkAt current
  | .check current, .unit => some (.readUnlock (.borrow current))
  | .borrow current, .unit => some (.readUnlock (.loop current))
  | .loop current, .success => some (.readUnlock (.pop (atomOf current).writers))
  | .loop _, .failure current => some (.readUnlock (.loop current))
  -- `assert!(writers > 0)`
  | .pop writers, .handle (some _) =>
      if 0 < writers then some (.readUnlock .release) else none
  -- `assert_eq!(writers, 0)`
  | .pop writers, .handle none =>
      if writers = 0 then some (.readUnlock .popReader) else none
  -- `assert!(queue.pop(READ_QUEUE).is_none())`
  | .popReader, .handle none => some (.readUnlock .leave)
  | .release, .unit => some (.readUnlock .wake)
  | .wake, .unit => some (.readUnlock .done)
  | .leave, .unit => some (.readUnlock .done)
  | .done, .unit => some .idle
  | _, _ => none

def resumeWrite : WriteUnlock τ → Resp τ ℕ → Option (Point τ)
  | .lock, .unit => some (.writeUnlock .borrow)
  | .borrow, .unit => some (.writeUnlock .load)
  | .load, .atom current => some (.writeUnlock (.isEmpty current))
  | .isEmpty current, .bool empty => writeAt (!empty) current
  | .loop hasReaders current, .unit => some (.writeUnlock (.free hasReaders current))
  | .loop _ current, .success =>
      if (atomOf current).writers = 1 then some (.writeUnlock (.popWriter current))
      -- `assert!(atom.writers > 1)`
      else if 1 < (atomOf current).writers then some (.writeUnlock .pop)
      else none
  | .loop hasReaders _, .failure current => writeAt hasReaders current
  | .free _ _, .success => some (.writeUnlock .done)
  | .free hasReaders _, .failure current => some (.writeUnlock (.reborrow hasReaders current))
  | .reborrow hasReaders current, .unit => writeAt hasReaders current
  -- `assert!(queue.pop(WRITE_QUEUE).is_none())`
  | .popWriter current, .handle none => some (.writeUnlock (.popMany current))
  | .popMany current, .unit => some (.writeUnlock (.releaseReaders current))
  | .releaseReaders current, .unit => some (.writeUnlock (.count current))
  | .count current, .count value => countAt value current
  | .countLoop _ _, .success => some (.writeUnlock .next)
  | .countLoop count _, .failure current => countAt count current
  | .next, .handle (some _) => some (.writeUnlock .wakeReader)
  | .next, .handle none => some (.writeUnlock .done)
  | .wakeReader, .unit => some (.writeUnlock .next)
  -- `queue.pop(WRITE_QUEUE).unwrap()`
  | .pop, .handle (some _) => some (.writeUnlock .release)
  | .release, .unit => some (.writeUnlock .wake)
  | .wake, .unit => some (.writeUnlock .done)
  | .done, .unit => some .idle
  | _, _ => none

def resume : Point τ → Resp τ ℕ → Option (Point τ)
  | .waiter queue, .unit => some (.load queue)
  | .load queue, .atom current => some (.loop queue current)
  | .loop queue current, .success =>
      some (if Takes queue current then .guard queue else .entered queue)
  | .loop queue _, .failure current => some (.loop queue current)
  | .entered queue, .unit => some (.waiting queue)
  | .waiting queue, .ready => some (.guard queue)
  | .waiting queue, .cancelWoken => some (unlockOf queue)
  | .waiting .read, .cancelSleeping => some .idle
  -- `write_abort` is `todo!()`
  | .waiting .write, .cancelSleeping => none
  | .readUnlock point, resp => resumeRead point resp
  | .writeUnlock point, resp => resumeWrite point resp
  | _, _ => none

def client : Client τ Unit Queue ℕ Unit (Point τ) Call where
  idle := .idle
  start := start
  code := code
  resume := resume
  act _ _ _ := none

/-! ## What the tasks hold -/

def readUnlockHolds : ReadUnlock τ → Holding Unit Queue
  | .load => {}
  | .check _ => {}
  | .borrow _ => { reads := [()] }
  | .loop _ => { reads := [()], borrow := some () }
  | .pop _ => { reads := [()], borrow := some () }
  | .release => { reads := [()], borrow := some (), hand := true }
  | .wake => { reads := [()], hand := true }
  | .popReader => { reads := [()], borrow := some () }
  | .leave => { reads := [()], borrow := some () }
  | .done => { reads := [()] }

def writeUnlockHolds : WriteUnlock τ → Holding Unit Queue
  | .lock => {}
  | .borrow => { reads := [()] }
  | .load => { reads := [()], borrow := some () }
  | .isEmpty _ => { reads := [()], borrow := some () }
  | .loop _ _ => { reads := [()], borrow := some () }
  | .free _ _ => { reads := [()] }
  | .reborrow _ _ => { reads := [()] }
  | .popWriter _ => { reads := [()], borrow := some () }
  | .popMany _ => { reads := [()], borrow := some () }
  | .releaseReaders _ => { reads := [()], borrow := some (), list := true }
  | .count _ => { reads := [()], list := true }
  | .countLoop _ _ => { reads := [()], list := true }
  | .next => { reads := [()], list := true }
  | .wakeReader => { reads := [()], list := true, hand := true }
  | .pop => { reads := [()], borrow := some () }
  | .release => { reads := [()], borrow := some (), hand := true }
  | .wake => { reads := [()], hand := true }
  | .done => { reads := [()] }

def holds : Point τ → Holding Unit Queue
  | .load queue => { slot := .fresh () queue }
  | .loop queue _ => { slot := .fresh () queue }
  | .entered queue => { slot := .entered queue }
  | .waiting queue => { slot := .waiting queue }
  | .readUnlock point => readUnlockHolds point
  | .writeUnlock point => writeUnlockHolds point
  | _ => {}

theorem code_ne_own (point : Point τ) : code point ≠ .own := by
  cases point <;> simp [code]

theorem code_ne_requeue (point : Point τ) (futex : Unit) :
    code point ≠ .call (.requeue futex) := by
  cases point with
  | loop queue current =>
      simp only [code, lockOp]
      split <;> simp
  | readUnlock point =>
      cases point with
      | check current =>
          simp only [code, readUnlockOp]
          split <;> simp
      | _ => simp [code, readUnlockOp]
  | writeUnlock point =>
      cases point with
      | loop hasReaders current =>
          simp only [code, writeUnlockOp]
          split
          · simp
          · split <;> simp
      | _ => simp [code, writeUnlockOp]
  | _ => simp [code]

theorem checkAt_eq {current : FutexAtom τ ℕ} {point : Point τ}
    (hpoint : checkAt current = some point) : point = .readUnlock (.check current) := by
  unfold checkAt at hpoint
  split at hpoint <;> cases hpoint
  rfl

theorem writeAt_eq {hasReaders : Bool} {current : FutexAtom τ ℕ} {point : Point τ}
    (hpoint : writeAt hasReaders current = some point) :
    point = .writeUnlock (.loop hasReaders current) := by
  unfold writeAt at hpoint
  split at hpoint <;> cases hpoint
  rfl

theorem countAt_eq {count : ℕ} {current : FutexAtom τ ℕ} {point : Point τ}
    (hpoint : countAt count current = some point) :
    point = .writeUnlock (.countLoop count current) := by
  unfold countAt at hpoint
  split at hpoint <;> cases hpoint
  rfl

theorem readUnlock_allows (point : ReadUnlock τ) :
    (readUnlockHolds point).Allows (readUnlockOp point) := by
  cases point with
  | check current =>
      simp only [readUnlockOp]
      split
      · simp [readUnlockHolds, Holding.Allows]
      · trivial
  | _ => simp [readUnlockHolds, readUnlockOp, Holding.Allows]

theorem writeUnlock_allows (point : WriteUnlock τ) :
    (writeUnlockHolds point).Allows (writeUnlockOp point) := by
  cases point with
  | loop hasReaders current =>
      simp only [writeUnlockOp]
      split
      · rfl
      · split <;> rfl
  | _ => simp [writeUnlockHolds, writeUnlockOp, Holding.Allows]

theorem readUnlock_after (point : ReadUnlock τ) {resp : Resp τ ℕ} {pc : Point τ}
    (hanswers : (readUnlockOp point).Answers resp) (hresume : resumeRead point resp = some pc) :
    holds pc = (readUnlockHolds point).after (readUnlockOp point) resp := by
  cases point with
  | load =>
      obtain ⟨current, rfl⟩ := hanswers
      rw [checkAt_eq hresume]
      rfl
  | check current =>
      by_cases hslow : (atomOf current).readers = 1 ∧ 0 < (atomOf current).writers
      · simp only [readUnlockOp, if_pos hslow] at hanswers ⊢
        cases hanswers
        cases hresume
        rfl
      · simp only [readUnlockOp, if_neg hslow] at hanswers ⊢
        rcases hanswers with rfl | ⟨current', rfl⟩
        · cases hresume
          rfl
        · rw [checkAt_eq hresume]
          rfl
  | loop current =>
      rcases hanswers with rfl | ⟨current', rfl⟩ <;> cases hresume <;> rfl
  | pop writers =>
      obtain ⟨waiter, rfl⟩ := hanswers
      cases waiter <;> simp only [resumeRead] at hresume <;> split at hresume <;>
        cases hresume <;> rfl
  | popReader =>
      obtain ⟨waiter, rfl⟩ := hanswers
      cases waiter <;> cases hresume
      rfl
  | _ =>
      cases hanswers
      cases hresume
      rfl

theorem writeUnlock_after (point : WriteUnlock τ) {resp : Resp τ ℕ} {pc : Point τ}
    (hanswers : (writeUnlockOp point).Answers resp) (hresume : resumeWrite point resp = some pc) :
    holds pc = (writeUnlockHolds point).after (writeUnlockOp point) resp := by
  cases point with
  | load =>
      obtain ⟨current, rfl⟩ := hanswers
      cases hresume
      rfl
  | isEmpty current =>
      obtain ⟨value, rfl⟩ := hanswers
      rw [writeAt_eq hresume]
      rfl
  | loop hasReaders current =>
      by_cases halone : Alone hasReaders current
      · simp only [writeUnlockOp, if_pos halone] at hanswers ⊢
        cases hanswers
        cases hresume
        rfl
      · have hanswers' : resp = .success ∨ ∃ current', resp = .failure current' := by
          simp only [writeUnlockOp, if_neg halone] at hanswers
          split at hanswers <;> exact hanswers
        have hafter : (writeUnlockHolds (.loop hasReaders current)).after
            (writeUnlockOp (.loop hasReaders current)) resp =
              writeUnlockHolds (.pop : WriteUnlock τ) := by
          simp only [writeUnlockOp, if_neg halone]
          split <;> rfl
        rw [hafter]
        rcases hanswers' with rfl | ⟨current', rfl⟩
        · simp only [resumeWrite] at hresume
          split at hresume
          · cases hresume
            rfl
          · split at hresume <;> cases hresume
            rfl
        · rw [writeAt_eq hresume]
          rfl
  | free hasReaders current =>
      rcases hanswers with rfl | ⟨current', rfl⟩ <;> cases hresume <;> rfl
  | reborrow hasReaders current =>
      cases hanswers
      rw [writeAt_eq hresume]
      rfl
  | popWriter current =>
      obtain ⟨waiter, rfl⟩ := hanswers
      cases waiter <;> cases hresume
      rfl
  | count current =>
      obtain ⟨value, rfl⟩ := hanswers
      rw [countAt_eq hresume]
      rfl
  | countLoop count current =>
      rcases hanswers with rfl | ⟨current', rfl⟩
      · cases hresume
        rfl
      · rw [countAt_eq hresume]
        rfl
  | next =>
      obtain ⟨waiter, rfl⟩ := hanswers
      cases waiter <;> cases hresume <;> rfl
  | pop =>
      obtain ⟨waiter, rfl⟩ := hanswers
      cases waiter <;> cases hresume
      rfl
  | _ =>
      cases hanswers
      cases hresume
      rfl

theorem lock_after {queue : Queue} {current : FutexAtom τ ℕ} {resp : Resp τ ℕ} {pc : Point τ}
    (hanswers : (lockOp queue current).Answers resp)
    (hresume : resume (.loop queue current) resp = some pc) :
    holds pc = (holds (.loop queue current)).after (lockOp queue current) resp ∨
      holds pc = ((holds (.loop queue current)).after (lockOp queue current) resp).forget := by
  by_cases htakes : Takes queue current
  · simp only [lockOp, if_pos htakes] at hanswers ⊢
    rcases hanswers with rfl | ⟨current', rfl⟩
    · simp only [resume, if_pos htakes, Option.some.injEq] at hresume
      subst hresume
      exact Or.inr rfl
    · cases hresume
      exact Or.inl rfl
  · simp only [lockOp, if_neg htakes] at hanswers ⊢
    rcases hanswers with rfl | ⟨current', rfl⟩
    · simp only [resume, if_neg htakes, Option.some.injEq] at hresume
      subst hresume
      exact Or.inl rfl
    · cases hresume
      exact Or.inl rfl

/-- Program points determine what a task holds. -/
theorem typed : (client : Client τ Unit _ _ _ _ _).Typed holds where
  idle := rfl
  start pc call pc' hcode hstart := by
    simp only [client] at hstart
    unfold start at hstart
    split at hstart <;> cases hstart
    · rfl
    · rfl
    · rename_i queue
      cases queue <;> rfl
  allows pc op hcode := by
    simp only [client] at hcode
    cases pc with
    | loop queue current =>
        cases hcode
        simp only [lockOp]
        split
        · trivial
        · exact ⟨queue, rfl⟩
    | readUnlock point =>
        cases hcode
        exact readUnlock_allows point
    | writeUnlock point =>
        cases hcode
        exact writeUnlock_allows point
    | _ => cases hcode <;> simp [holds, Holding.Allows]
  resume pc op resp pc' hcode hanswers hresume := by
    simp only [client] at hcode hresume
    cases pc with
    | waiter queue =>
        cases hcode
        cases hanswers
        cases hresume
        exact Or.inl rfl
    | load queue =>
        cases hcode
        obtain ⟨current, rfl⟩ := hanswers
        cases hresume
        exact Or.inl rfl
    | loop queue current =>
        cases hcode
        exact lock_after hanswers hresume
    | entered queue =>
        cases hcode
        cases hanswers
        cases hresume
        exact Or.inl rfl
    | readUnlock point =>
        cases hcode
        exact Or.inl (readUnlock_after point hanswers hresume)
    | writeUnlock point =>
        cases hcode
        exact Or.inl (writeUnlock_after point hanswers hresume)
    | idle => cases hcode
    | waiting queue => cases hcode
    | guard queue => cases hcode
  waits pc queue hslot := by
    cases pc with
    | readUnlock point => cases point <;> cases hslot
    | writeUnlock point => cases point <;> cases hslot
    | _ => cases hslot <;> rfl
  future pc queue resp pc' hslot hresp hresume := by
    simp only [client] at hresume
    cases pc with
    | readUnlock point => cases point <;> cases hslot
    | writeUnlock point => cases point <;> cases hslot
    | waiting queue =>
        rcases hresp with rfl | rfl | rfl <;> cases queue <;> cases hresume <;> rfl
    | _ => cases hslot
  own _ _ _ _ _ _ hact := by cases hact

end RwLock

end AsyncMutex
