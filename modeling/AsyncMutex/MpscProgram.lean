import AsyncMutex.Verified

/-!
# The code of the channel

Any number of tasks run `Inner::send`, and the task with the `Receiver` runs
`Inner::recv`.  The buckets, the state of the receiver and the messages of the
senders are their shared memory.
-/

namespace AsyncMutex

structure SendState where
  writeHead : ℕ
  size : ℕ
deriving DecidableEq

namespace SendState

/-- The values of `usize_half`. -/
def half : ℕ := 2 ^ 32

/-- `Packable::encode`: both halves are cast to `usize_half`. -/
def encode (state : SendState) : ℕ :=
  state.size % half + half * (state.writeHead % half)

/-- `Packable::decode`. -/
def decode (raw : ℕ) : SendState where
  writeHead := raw / half
  size := raw % half

theorem decode_encode {state : SendState} (hhead : state.writeHead < half)
    (hsize : state.size < half) : decode (encode state) = state := by
  have hhalf : 0 < half := Nat.two_pow_pos 32
  unfold decode encode
  rw [Nat.mod_eq_of_lt hhead, Nat.mod_eq_of_lt hsize, Nat.add_mul_mod_self_left,
    Nat.mod_eq_of_lt hsize, Nat.add_mul_div_left _ _ hhalf, Nat.div_eq_of_lt hsize,
    Nat.zero_add]

end SendState

namespace Mpsc

structure Bucket (V : Type) where
  filled : Bool
  /-- The value, while it is initialized and not moved out. -/
  data : Option V

/-- The fields of `Inner` next to the futex, with the messages of the senders. -/
structure Inner (τ V ω : Type) where
  buckets : ℕ → Bucket V
  /-- `RecvState`: `none` is `Dirty`. -/
  recvState : Option ω
  recvHead : ℕ
  /-- The `Message` of the task's `send`. -/
  message : τ → Option V
  /-- The waker of the last poll of `recv`, until it is woken. -/
  lastWaker : Option ω

/-- How a call ended. -/
inductive Outcome (V : Type) where
  | sent
  | received (value : V)

/-- The program points of `recv` behind the value that it took. -/
inductive Receive (τ : Type) where
  | lock
  | borrow
  | pop
  /-- A waiter was popped. -/
  | load (waiter : τ)
  | advance (waiter : τ) (current : FutexAtom τ SendState)
  /-- The queue was empty. -/
  | loadEmpty
  | enqueue (current : FutexAtom τ SendState)
  | popAgain
  | backfill (waiter : τ)
  | wake
  | release
  | unlock

inductive Point (τ V ω : Type) where
  | idle
  | ended (outcome : Outcome V)
  /-- `Message(UnsafeCell::new(Some(msg)))` -/
  | create (msg : V)
  | waiter
  | sendLoad
  | reserve (current : FutexAtom τ SendState)
  | write (selected : ℕ)
  | fill (selected : ℕ)
  | swap
  | wakeRecv (waker : ω)
  | wait (current : FutexAtom τ SendState)
  | entered
  | waiting
  /-- `assert!(msg.is_none())` -/
  | cancelWoken
  /-- The message is dropped with the future. -/
  | cancelSleeping
  /-- The first load of `filled` in a poll of `recv`. -/
  | check (waker : ω)
  | register (waker : ω)
  | recheck
  | unregister
  | take
  /-- The last poll of `recv` returned `Pending`. -/
  | blocked
  | receive (point : Receive τ) (head : ℕ) (result : V)

inductive Call (V ω : Type) where
  | send (msg : V)
  | recv (waker : ω)
  /-- Another poll of the pending `recv`. -/
  | poll (waker : ω)
  /-- Drop the pending `recv`. -/
  | cancel
deriving DecidableEq

variable {τ V ω : Type}

/-- `Inner::new`, with its assertions. -/
def Inner.new (cap : ℕ) : Option (Inner τ V ω) :=
  if 0 < cap ∧ cap < SendState.half then
    some ⟨fun _ => ⟨false, none⟩, none, 0, fun _ => none, none⟩
  else none

def start : Point τ V ω → Call V ω → Option (Point τ V ω)
  | .idle, .send msg => some (.create msg)
  | .ended _, .send msg => some (.create msg)
  | .idle, .recv waker => some (.check waker)
  | .ended _, .recv waker => some (.check waker)
  | .blocked, .poll waker => some (.check waker)
  | .blocked, .cancel => some .idle
  | _, _ => none

/-- The next value of `write_head`, with one more slot in use. -/
def reserved (cap : ℕ) (atom : SendState) : SendState :=
  ⟨(atom.writeHead + 1) % cap, atom.size + 1⟩

/-- The free slot goes to a waiter. -/
def advanced (cap : ℕ) (atom : SendState) : SendState :=
  ⟨(atom.writeHead + 1) % cap, atom.size⟩

def enqueued (cap : ℕ) (current : FutexAtom τ SendState) : SendState :=
  if current.hasNewWaiters then advanced cap current.atom
  else ⟨current.atom.writeHead, current.atom.size - 1⟩

def receiveOp (cap : ℕ) : Receive τ → Option (Op τ Unit (Fin 1) SendState)
  | .lock => some (.lock ())
  | .borrow => some (.borrow ())
  | .pop => some (.pop () 0)
  | .load _ => some (.load ())
  | .advance _ current => some (.cmpxchgWeak () current (advanced cap current.atom))
  | .loadEmpty => some (.load ())
  | .enqueue current => some (.cmpxchgEnqueueWeak () current (enqueued cap current))
  | .popAgain => some (.pop () 0)
  | .backfill _ => none
  | .wake => some .wake
  | .release => some (.release ())
  | .unlock => some (.unlock ())

def code (cap : ℕ) : Point τ V ω → Code τ Unit (Fin 1) SendState
  | .waiter => .call (.waiter () 0)
  | .sendLoad => .call (.load ())
  | .reserve current => .call (.cmpxchgWeak () current (reserved cap current.atom))
  | .wait current => .call (.cmpxchgWaitWeak () current current.atom)
  | .entered => .call .pending
  | .receive point _ _ =>
      match receiveOp cap point with
      | some op => .call op
      | none => .own
  | .idle => .rest
  | .ended _ => .rest
  | .waiting => .rest
  | .blocked => .rest
  | _ => .own

/-- The head of the loop of `send`. -/
def loopAt (cap : ℕ) (current : FutexAtom τ SendState) : Point τ V ω :=
  if current.atom.size < cap then .reserve current else .wait current

/-- The head of the loop of `recv` for a popped waiter, with its assertion. -/
def advanceAt (cap : ℕ) (waiter : τ) (current : FutexAtom τ SendState) : Option (Receive τ) :=
  if current.atom.size = cap then some (.advance waiter current) else none

/-- The head of the other loop of `recv`: its assertion, and the subtraction. -/
def enqueueAt (cap : ℕ) (current : FutexAtom τ SendState) : Option (Receive τ) :=
  if current.hasNewWaiters then
    if current.atom.size = cap then some (.enqueue current) else none
  else if 0 < current.atom.size then some (.enqueue current)
  else none

/-- The point of `recv` after a response, when the call goes on. -/
def resumeReceive (cap : ℕ) : Receive τ → Resp τ SendState → Option (Receive τ)
  | .lock, .unit => some .borrow
  | .borrow, .unit => some .pop
  | .pop, .handle (some waiter) => some (.load waiter)
  | .pop, .handle none => some .loadEmpty
  | .load waiter, .atom current => advanceAt cap waiter current
  | .advance waiter _, .success => some (.backfill waiter)
  | .advance waiter _, .failure current => advanceAt cap waiter current
  | .loadEmpty, .atom current => enqueueAt cap current
  | .enqueue _, .success => some .popAgain
  | .enqueue _, .failure current => enqueueAt cap current
  | .popAgain, .handle (some waiter) => some (.backfill waiter)
  | .popAgain, .handle none => some .release
  | .wake, .unit => some .release
  | .release, .unit => some .unlock
  | _, _ => none

def resume (cap : ℕ) : Point τ V ω → Resp τ SendState → Option (Point τ V ω)
  | .waiter, .unit => some .sendLoad
  | .sendLoad, .atom current => some (loopAt cap current)
  | .reserve current, .success => some (.write current.atom.writeHead)
  | .reserve _, .failure current => some (loopAt cap current)
  | .wait _, .success => some .entered
  | .wait _, .failure current => some (loopAt cap current)
  | .entered, .unit => some .waiting
  | .waiting, .ready => some (.ended .sent)
  | .waiting, .cancelWoken => some .cancelWoken
  | .waiting, .cancelSleeping => some .cancelSleeping
  | .receive .unlock _ result, .unit => some (.ended (.received result))
  | .receive point head result, resp =>
      (resumeReceive cap point resp).map fun point => .receive point head result
  | _, _ => none

namespace Inner

variable [DecidableEq τ] [DecidableEq ω]

def setFilled (inner : Inner τ V ω) (index : ℕ) (filled : Bool) : Inner τ V ω :=
  { inner with
    buckets := Function.update inner.buckets index { inner.buckets index with filled := filled } }

def setData (inner : Inner τ V ω) (index : ℕ) (data : Option V) : Inner τ V ω :=
  { inner with
    buckets := Function.update inner.buckets index { inner.buckets index with data := data } }

def setMessage (inner : Inner τ V ω) (task : τ) (message : Option V) : Inner τ V ω :=
  { inner with message := Function.update inner.message task message }

end Inner

variable [DecidableEq τ] [DecidableEq ω]

/-- The steps on the memory.  A read of a bucket that is not initialized is
undefined, and an `unwrap` or an assertion that fails is a panic. -/
def act (cap : ℕ) (task : τ) (inner : Inner τ V ω) :
    Point τ V ω → Option (Inner τ V ω × Point τ V ω)
  | .create msg => some (inner.setMessage task (some msg), .waiter)
  | .write selected =>
      (inner.message task).map fun msg =>
        ((inner.setMessage task none).setData selected (some msg), .fill selected)
  | .fill selected => some (inner.setFilled selected true, .swap)
  | .swap =>
      match inner.recvState with
      | some waker => some ({ inner with recvState := none }, .wakeRecv waker)
      | none => some (inner, .ended .sent)
  | .wakeRecv waker =>
      some ({ inner with
        lastWaker := if inner.lastWaker = some waker then none else inner.lastWaker },
          .ended .sent)
  | .cancelWoken => if (inner.message task).isNone then some (inner, .idle) else none
  | .cancelSleeping => some (inner.setMessage task none, .idle)
  | .check waker =>
      some ({ inner with lastWaker := some waker },
        if (inner.buckets inner.recvHead).filled then .take else .register waker)
  | .register waker => some ({ inner with recvState := some waker }, .recheck)
  | .recheck =>
      some (inner, if (inner.buckets inner.recvHead).filled then .unregister else .blocked)
  | .unregister => some ({ inner with recvState := none }, .take)
  | .take =>
      (inner.buckets inner.recvHead).data.map fun result =>
        ({ (inner.setFilled inner.recvHead false).setData inner.recvHead none with
          recvHead := (inner.recvHead + 1) % cap },
          .receive .lock inner.recvHead result)
  | .receive (.backfill waiter) head result =>
      (inner.message waiter).map fun msg =>
        (((inner.setMessage waiter none).setData head (some msg)).setFilled head true,
          .receive .wake head result)
  | _ => none

def client (cap : ℕ) :
    Client τ Unit (Fin 1) SendState (Inner τ V ω) (Point τ V ω) (Call V ω) where
  idle := .idle
  start := start
  code := code cap
  resume := resume cap
  act := act cap

/-! ## What the tasks hold -/

def receiveHolds : Receive τ → Holding Unit (Fin 1)
  | .lock => {}
  | .borrow => { reads := [()] }
  | .pop => { reads := [()], borrow := some () }
  | .load _ => { reads := [()], borrow := some (), hand := true }
  | .advance _ _ => { reads := [()], borrow := some (), hand := true }
  | .loadEmpty => { reads := [()], borrow := some () }
  | .enqueue _ => { reads := [()], borrow := some () }
  | .popAgain => { reads := [()], borrow := some () }
  | .backfill _ => { reads := [()], borrow := some (), hand := true }
  | .wake => { reads := [()], borrow := some (), hand := true }
  | .release => { reads := [()], borrow := some () }
  | .unlock => { reads := [()] }

def holds : Point τ V ω → Holding Unit (Fin 1)
  | .sendLoad => { slot := .fresh () 0 }
  | .reserve _ => { slot := .fresh () 0 }
  | .wait _ => { slot := .fresh () 0 }
  | .entered => { slot := .entered 0 }
  | .waiting => { slot := .waiting 0 }
  | .receive point _ _ => receiveHolds point
  | _ => {}

omit [DecidableEq τ] [DecidableEq ω] in
theorem loopAt_holds (cap : ℕ) (current : FutexAtom τ SendState) :
    holds (loopAt cap current : Point τ V ω) = { slot := .fresh () 0 } := by
  unfold loopAt
  split <;> rfl

omit [DecidableEq τ] in
theorem advanceAt_holds {cap : ℕ} {waiter : τ} {current : FutexAtom τ SendState}
    {point : Receive τ} (hresume : advanceAt cap waiter current = some point) :
    receiveHolds point = { reads := [()], borrow := some (), hand := true } := by
  unfold advanceAt at hresume
  split at hresume <;> cases hresume
  rfl

omit [DecidableEq τ] in
theorem enqueueAt_holds {cap : ℕ} {current : FutexAtom τ SendState} {point : Receive τ}
    (hresume : enqueueAt cap current = some point) :
    receiveHolds point = { reads := [()], borrow := some () } := by
  have hpoint : point = .enqueue current := by
    unfold enqueueAt at hresume
    split at hresume
    · split at hresume <;> cases hresume
      rfl
    · split at hresume <;> cases hresume
      rfl
  rw [hpoint]
  rfl

omit [DecidableEq τ] in
theorem receive_after {cap : ℕ} (point : Receive τ) {op : Op τ Unit (Fin 1) SendState}
    (hop : receiveOp cap point = some op) {resp : Resp τ SendState}
    (hanswers : op.Answers resp) {point' : Receive τ}
    (hresume : resumeReceive cap point resp = some point') :
    receiveHolds point' = (receiveHolds point).after op resp := by
  cases point with
  | load waiter =>
      cases hop
      obtain ⟨current, rfl⟩ := hanswers
      exact advanceAt_holds hresume
  | advance waiter current =>
      cases hop
      rcases hanswers with rfl | ⟨current', rfl⟩
      · cases hresume
        rfl
      · exact advanceAt_holds hresume
  | loadEmpty =>
      cases hop
      obtain ⟨current, rfl⟩ := hanswers
      exact enqueueAt_holds hresume
  | enqueue current =>
      cases hop
      rcases hanswers with rfl | ⟨current', rfl⟩
      · cases hresume
        rfl
      · exact enqueueAt_holds hresume
  | pop =>
      cases hop
      obtain ⟨waiter, rfl⟩ := hanswers
      cases waiter <;> cases hresume <;> rfl
  | popAgain =>
      cases hop
      obtain ⟨waiter, rfl⟩ := hanswers
      cases waiter <;> cases hresume <;> rfl
  | backfill waiter => cases hop
  | unlock =>
      cases hop
      cases hanswers
      cases hresume
  | _ =>
      cases hop
      cases hanswers
      cases hresume
      rfl

/-- Program points determine what a task holds. -/
theorem typed (cap : ℕ) :
    (client cap : Client τ _ _ _ _ (Point τ V ω) _).Typed holds where
  idle := rfl
  start pc call pc' hcode hstart := by
    simp only [client] at hstart
    unfold start at hstart
    split at hstart <;> cases hstart <;> rfl
  allows pc op hcode := by
    simp only [client] at hcode
    cases pc with
    | receive point head result =>
        cases point <;> cases hcode <;> simp [holds, receiveHolds, Holding.Allows]
    | _ => cases hcode <;> simp [holds, Holding.Allows]
  resume pc op resp pc' hcode hanswers hresume := by
    simp only [client] at hcode hresume
    cases pc with
    | receive point head result =>
        cases hop : receiveOp cap point with
        | none => simp [code, hop] at hcode
        | some op' =>
            simp only [code, hop, Code.call.injEq] at hcode
            subst hcode
            by_cases hunlock : point = .unlock
            · subst hunlock
              cases hop
              cases hanswers
              cases hresume
              exact Or.inl rfl
            · have hmap : ((resumeReceive cap point resp).map fun point =>
                  (.receive point head result : Point τ V ω)) = some pc' := by
                cases point <;> first | exact hresume | exact absurd rfl hunlock
              obtain ⟨point', hpoint, rfl⟩ := Option.map_eq_some_iff.mp hmap
              exact Or.inl (receive_after point hop hanswers hpoint)
    | waiter =>
        cases hcode
        cases hanswers
        cases hresume
        exact Or.inl rfl
    | sendLoad =>
        cases hcode
        obtain ⟨current, rfl⟩ := hanswers
        cases hresume
        exact Or.inl (loopAt_holds cap current)
    | reserve current =>
        cases hcode
        rcases hanswers with rfl | ⟨current', rfl⟩
        · cases hresume
          exact Or.inr rfl
        · cases hresume
          exact Or.inl (loopAt_holds cap current')
    | wait current =>
        cases hcode
        rcases hanswers with rfl | ⟨current', rfl⟩
        · cases hresume
          exact Or.inl rfl
        · cases hresume
          exact Or.inl (loopAt_holds cap current')
    | entered =>
        cases hcode
        cases hanswers
        cases hresume
        exact Or.inl rfl
    | _ => cases hcode
  waits pc queue hslot := by
    cases pc with
    | receive point head result => cases point <;> cases hslot
    | waiting => rfl
    | _ => cases hslot
  future pc queue resp pc' hslot hfinal hresume := by
    simp only [client] at hresume
    cases pc with
    | receive point head result => cases point <;> cases hslot
    | waiting =>
        rcases hfinal with rfl | rfl | rfl <;> cases hresume <;> rfl
    | _ => cases hslot
  own task inner pc inner' pc' hcode hact := by
    simp only [client] at hcode hact
    cases pc with
    | receive point head result =>
        cases point with
        | backfill waiter =>
            obtain ⟨msg, -, heq⟩ := Option.map_eq_some_iff.mp hact
            cases heq
            rfl
        | _ => cases hcode
    | write selected =>
        obtain ⟨msg, -, heq⟩ := Option.map_eq_some_iff.mp hact
        cases heq
        rfl
    | take =>
        obtain ⟨result, -, heq⟩ := Option.map_eq_some_iff.mp hact
        cases heq
        rfl
    | swap =>
        simp only [act] at hact
        split at hact <;> cases hact <;> rfl
    | cancelWoken =>
        simp only [act] at hact
        split at hact <;> cases hact
        rfl
    | check waker =>
        cases hact
        split <;> rfl
    | recheck =>
        cases hact
        split <;> rfl
    | create => cases hact; rfl
    | fill => cases hact; rfl
    | wakeRecv => cases hact; rfl
    | cancelSleeping => cases hact; rfl
    | register => cases hact; rfl
    | unregister => cases hact; rfl
    | _ => cases hcode

end Mpsc

end AsyncMutex
