import AsyncMutex.FutexStore
import AsyncMutex.Transition
import Mathlib.Data.Finset.Basic
import Mathlib.Tactic.Simps.Basic

/-!
# The futexes and their tasks

One world holds any number of futexes and tasks.  Every task owns one
`Waiter`, named by the task itself, and at most one `WaitFuture` on it; a task
may also act as a notifier.  A step is one atomic operation together with the
plain memory accesses that follow it: a load, a compare-exchange or a swap, or
the acquire or release of the `RwLock` or of the `AtomicRefCell` of a futex.

The label of a step carries every choice that the code does not make: whether
a weak compare-exchange fails spuriously and which waker a poll brings.
-/

namespace AsyncMutex

/-- `FutexAtom`: a snapshot of the double word of a futex. -/
structure FutexAtom (τ α : Type) where
  atom : α
  inbox : Option τ
deriving DecidableEq

namespace FutexAtom

def hasNewWaiters {τ α : Type} (current : FutexAtom τ α) : Bool :=
  current.inbox.isSome

end FutexAtom

inductive WaiterWaker (ω : Type) where
  | none
  | waiting (waker : ω)
  | done
deriving DecidableEq

/-- Where the `WaitFuture` of a task stands. -/
inductive Phase (τ φ α ω : Type) where
  /-- The task has no `Waiter`. -/
  | idle
  /-- `WaitFutureStep::Enter`: no compare-exchange has succeeded. -/
  | enter
  /-- The compare-exchange succeeded and `on_pending` runs. -/
  | entered
  /-- The last poll returned `Pending`. -/
  | pending
  /-- `poll_waiting`, with the waker of this poll and the loaded word. -/
  | polling (newWaker : ω) (waker : WaiterWaker ω)
  /-- The drop is about to take the write lock of `owner`. -/
  | dropLock (owner : φ)
  /-- The write lock is held and the owner is about to be loaded again. -/
  | dropCheck (owner : φ)
  /-- The owners differ and the write lock is about to be released. -/
  | dropRetry (owner owner2 : φ)
  /-- `flip` is about to load the futex word. -/
  | dropLoad (owner : φ)
  /-- `flip` is about to exchange the inbox pointer. -/
  | dropFlip (owner : φ) (atom : FutexAtom τ α)
  | dropCancel (owner : φ)
  | dropUnlock (owner : φ)
  /-- The write lock is released and the waker word decides. -/
  | dropFinish
deriving DecidableEq

/-- A futex operation of a notifier that takes more than one step. -/
inductive Busy (τ φ α ω : Type) where
  | none
  /-- `Waiter::wake` swapped out this waker and is about to call it. -/
  | waking (waiter : τ) (waker : ω)
  /-- `requeue` is about to store the owner of `waiter`, or to load the word
  when there is no waiter left. -/
  | requeueStore (futex : φ) (waiter : Option τ)
  | requeueLink (futex : φ) (atom : FutexAtom τ α)
deriving DecidableEq

/-- What the code of a task can ask of its futexes. -/
inductive Op (τ φ κ α : Type) where
  | waiter (futex : φ) (queue : κ)
  | load (futex : φ)
  | cmpxchgWeak (futex : φ) (current : FutexAtom τ α) (new : α)
  /-- The first poll of `cmpxchg_wait_weak`, up to `on_pending`. -/
  | cmpxchgWaitWeak (futex : φ) (current : FutexAtom τ α) (new : α)
  /-- Return `Poll::Pending` after `on_pending`. -/
  | pending
  /-- `Futex::lock`: acquire the read lock. -/
  | lock (futex : φ)
  /-- Drop the `FutexWaitersGuard`. -/
  | unlock (futex : φ)
  /-- `FutexWaitersGuard::lock`: borrow the `AtomicRefCell`. -/
  | borrow (futex : φ)
  /-- Drop the `FutexQueueGuard`. -/
  | release (futex : φ)
  | cmpxchgEnqueueWeak (futex : φ) (current : FutexAtom τ α) (new : α)
  | isEmpty (futex : φ) (queue : κ)
  | pop (futex : φ) (queue : κ)
  | popMany (futex : φ) (count : ℕ) (queue : κ)
  /-- Count the waiters of the handle list. -/
  | count
  /-- Take the next handle of the handle list. -/
  | next
  /-- Wake the waiter whose handle the task holds. -/
  | wake
  | requeue (futex : φ)
deriving DecidableEq

inductive Resp (τ α : Type) where
  | unit
  | atom (current : FutexAtom τ α)
  /-- The compare-exchange succeeded. -/
  | success
  /-- The compare-exchange failed and saw this word. -/
  | failure (current : FutexAtom τ α)
  | bool (value : Bool)
  | handle (waiter : Option τ)
  | count (value : ℕ)
  /-- The future returned `Ready(true)`. -/
  | ready
  /-- The future was dropped and `on_cancel_woken` is called. -/
  | cancelWoken
  /-- The future was dropped and `on_cancel_sleeping` is called. -/
  | cancelSleeping
  /-- An assertion, `unwrap` or `panic!` of the source. -/
  | panic
  /-- A call that the borrow checker rejects, or a guard dropped before the
  handles taken under it are woken or requeued. -/
  | misuse
deriving DecidableEq

/-- What a step adds to the history of the world. -/
inductive Event (τ φ ω : Type) where
  | created (task : τ)
  | refused (task : τ)
  | entered (task : τ) (futex : φ)
  | requeued (task : τ) (futex : φ)
  | woken (task : τ)
  | ready (task : τ)
  | cancelWoken (task : τ)
  | cancelSleeping (task : τ)
  | wakerCloned (waker : ω)
  | wakerWoken (waker : ω)
  | wakerDropped (waker : ω)
deriving DecidableEq

inductive Act (τ φ κ α ω : Type) where
  | call (op : Op τ φ κ α) (spurious : Bool) (waker : ω)
  /-- Poll the pending future. -/
  | poll (waker : ω)
  /-- Drop the pending future. -/
  | drop
  /-- Take the next step of the operation, poll or drop that runs. -/
  | step (spurious : Bool)
deriving DecidableEq

structure World (S τ φ α ω : Type) where
  atom : φ → α
  store : S
  /-- The tasks that hold a `FutexWaitersGuard` of the futex. -/
  readers : φ → Finset τ
  /-- The dropped future that holds the write lock of the futex. -/
  writer : φ → Option τ
  /-- The task that holds the `FutexQueueGuard` of the futex. -/
  borrowed : φ → Option τ
  /-- `Waiter::futex`. -/
  owner : τ → φ
  waker : τ → WaiterWaker ω
  phase : τ → Phase τ φ α ω
  busy : τ → Busy τ φ α ω
  /-- The `WaiterHandle` that the task holds. -/
  handle : τ → Option τ
  /-- The waker of the last poll of the task's future, until it is woken. -/
  lastWaker : τ → Option ω

/-- What a step returns: the state after it, the response when an operation
ends, and the history it adds. -/
structure Outcome (S τ φ α ω : Type) where
  world : World S τ φ α ω
  resp : Option (Resp τ α) := none
  events : List (Event τ φ ω) := []

namespace World

variable {S τ φ κ α ω : Type}

def initial (store : S) (atom : φ → α) (futex : φ) : World S τ φ α ω where
  atom := atom
  store := store
  readers _ := ∅
  writer _ := none
  borrowed _ := none
  owner _ := futex
  waker _ := .none
  phase _ := .idle
  busy _ := .none
  handle _ := none
  lastWaker _ := none

variable [DecidableEq τ] [DecidableEq φ] [DecidableEq α] [DecidableEq ω]
  [FutexStore S τ φ κ]

def word (world : World S τ φ α ω) (futex : φ) : FutexAtom τ α :=
  ⟨world.atom futex, FutexStore.top world.store futex⟩

@[simps] def setAtom (world : World S τ φ α ω) (futex : φ) (new : α) :
    World S τ φ α ω :=
  { world with atom := Function.update world.atom futex new }

@[simps] def setPhase (world : World S τ φ α ω) (task : τ) (phase : Phase τ φ α ω) :
    World S τ φ α ω :=
  { world with phase := Function.update world.phase task phase }

@[simps] def setBusy (world : World S τ φ α ω) (task : τ) (busy : Busy τ φ α ω) :
    World S τ φ α ω :=
  { world with busy := Function.update world.busy task busy }

@[simps] def setWaker (world : World S τ φ α ω) (task : τ) (waker : WaiterWaker ω) :
    World S τ φ α ω :=
  { world with waker := Function.update world.waker task waker }

@[simps] def setWriter (world : World S τ φ α ω) (futex : φ) (writer : Option τ) :
    World S τ φ α ω :=
  { world with writer := Function.update world.writer futex writer }

@[simps] def setHandle (world : World S τ φ α ω) (task : τ) (handle : Option τ) :
    World S τ φ α ω :=
  { world with handle := Function.update world.handle task handle }

@[simps] def setLastWaker (world : World S τ φ α ω) (task : τ) (waker : Option ω) :
    World S τ φ α ω :=
  { world with lastWaker := Function.update world.lastWaker task waker }

/-- An operation that changes nothing but answers. -/
def answer (world : World S τ φ α ω) (resp : Resp τ α) :
    Option (Outcome S τ φ α ω) :=
  some { world := world, resp := some resp }

/-! ## Waiting: `wait_future.rs` -/

/-- `Futex::waiter`, in the place of the task's previous `Waiter`, which is
dropped first. -/
def newWaiter (world : World S τ φ α ω) (task : τ) (futex : φ) (queue : κ) :
    Option (Outcome S τ φ α ω) :=
  if world.phase task = .idle ∨ world.phase task = .enter then
    some {
      world := { world with
        store := FutexStore.renew world.store task queue
        owner := Function.update world.owner task futex
        waker := Function.update world.waker task .none
        phase := Function.update world.phase task .enter }
      resp := some .unit
      events :=
        (match world.waker task with
          | .waiting waker => [.wakerDropped waker]
          | _ => []) ++ [.created task] }
  else world.answer .misuse

/-- `poll_enter`. -/
def pollEnter (world : World S τ φ α ω) (task : τ) (futex : φ)
    (current : FutexAtom τ α) (new : α) (spurious : Bool) (waker : ω) :
    Option (Outcome S τ φ α ω) :=
  if world.phase task ≠ .enter then world.answer .misuse
  -- the assertion of `cmpxchg_wait_weak_impl`
  else if world.owner task ≠ futex then world.answer .panic
  else
    let linked : World S τ φ α ω :=
      { world with store := FutexStore.setPrev world.store task current.inbox }
    match world.waker task with
    | .done => linked.answer .panic
    | old =>
        let (registered, cloned) : World S τ φ α ω × List (Event τ φ ω) :=
          match old with
          | .none =>
              ((linked.setWaker task (.waiting waker)).setLastWaker task (some waker),
                [.wakerCloned waker])
          | _ => (linked, [])
        if world.word futex = current ∧ spurious = false then
          some {
            world := { (registered.setAtom futex new).setPhase task .entered with
              store := FutexStore.push linked.store futex task }
            resp := some .success
            events := cloned ++ [.entered task futex] }
        else
          some {
            world := registered
            resp := some (.failure (world.word futex))
            events := cloned ++ [.refused task] }

/-- Start `poll_waiting`: clone the waker and load the waker word. -/
def poll (world : World S τ φ α ω) (task : τ) (waker : ω) :
    Option (Outcome S τ φ α ω) :=
  if world.phase task = .pending ∧ world.busy task = .none then
    some {
      world := (world.setPhase task (.polling waker (world.waker task))).setLastWaker
        task (some waker)
      events := [.wakerCloned waker] }
  else none

/-- The loop of `poll_waiting`. -/
def pollWaiting (world : World S τ φ α ω) (task : τ) (newWaker : ω)
    (waker : WaiterWaker ω) (spurious : Bool) : Option (Outcome S τ φ α ω) :=
  match waker with
  | .none => (world.setPhase task .idle).answer .panic
  | .waiting oldWaker =>
      if world.waker task = waker ∧ spurious = false then
        some {
          world := (world.setWaker task (.waiting newWaker)).setPhase task .pending
          events := [.wakerDropped oldWaker] }
      else
        some { world := world.setPhase task (.polling newWaker (world.waker task)) }
  | .done =>
      some {
        world := world.setPhase task .idle
        resp := some .ready
        events := [.wakerDropped newWaker, .ready task] }

/-- Start dropping the future: load the owner of the waiter. -/
def drop (world : World S τ φ α ω) (task : τ) : Option (Outcome S τ φ α ω) :=
  if world.phase task = .pending ∧ world.busy task = .none then
    some { world := world.setPhase task (.dropLock (world.owner task)) }
  else none

/-- The loop of `flip` at a word: done when its inbox is null. -/
def flipAt (world : World S τ φ α ω) (task : τ) (owner : φ)
    (current : FutexAtom τ α) : World S τ φ α ω :=
  world.setPhase task
    (if current.inbox = none then .dropCancel owner else .dropFlip owner current)

/-- One step of `WaitFuture::drop`. -/
def dropStep (world : World S τ φ α ω) (task : τ) (spurious : Bool) :
    Option (Outcome S τ φ α ω) :=
  match world.phase task with
  | .dropLock owner =>
      if world.writer owner = none ∧ world.readers owner = ∅ then
        some { world :=
          (world.setWriter owner (some task)).setPhase task (.dropCheck owner) }
      else none
  | .dropCheck owner =>
      some {
        world := world.setPhase task
          (if owner = world.owner task then .dropLoad owner
          else .dropRetry owner (world.owner task)) }
  | .dropRetry owner owner2 =>
      some { world :=
        (world.setWriter owner none).setPhase task (.dropLock owner2) }
  | .dropLoad owner =>
      some { world := world.flipAt task owner (world.word owner) }
  | .dropFlip owner current =>
      if world.word owner = current ∧ spurious = false then
        (FutexStore.enqueue world.store owner).map fun store =>
          { world := { world.setPhase task (.dropCancel owner) with store := store } }
      else some { world := world.flipAt task owner (world.word owner) }
  | .dropCancel owner =>
      some { world := { world.setPhase task (.dropUnlock owner) with
        store := FutexStore.cancel world.store owner task } }
  | .dropUnlock owner =>
      some { world := (world.setWriter owner none).setPhase task .dropFinish }
  | .dropFinish =>
      match world.waker task with
      | .none => (world.setPhase task .idle).answer .panic
      -- the callback returns before the word is reset, and nobody else reads it
      | .waiting waker =>
          some {
            world := (world.setWaker task .none).setPhase task .idle
            resp := some .cancelSleeping
            events := [.wakerDropped waker, .cancelSleeping task] }
      | .done =>
          some {
            world := (world.setWaker task .none).setPhase task .idle
            resp := some .cancelWoken
            events := [.cancelWoken task] }
  | _ => none

/-! ## Notifying: `mod.rs` and `waiter.rs` -/

def cmpxchgWeak (world : World S τ φ α ω) (futex : φ)
    (current : FutexAtom τ α) (new : α) (spurious : Bool) :
    Option (Outcome S τ φ α ω) :=
  if world.word futex = current ∧ spurious = false then
    (world.setAtom futex new).answer .success
  else world.answer (.failure (world.word futex))

/-- The read lock of `Futex::lock`.  Taking it twice in one task is a panic. -/
def lock (world : World S τ φ α ω) (task : τ) (futex : φ) :
    Option (Outcome S τ φ α ω) :=
  if task ∈ world.readers futex then world.answer .panic
  else if world.writer futex = none then
    World.answer { world with
      readers := Function.update world.readers futex
        (insert task (world.readers futex)) } .unit
  else none

def unlock (world : World S τ φ α ω) (task : τ) (futex : φ) :
    Option (Outcome S τ φ α ω) :=
  if task ∈ world.readers futex ∧ world.borrowed futex ≠ some task ∧
      world.handle task = none ∧ FutexStore.listEmpty world.store task then
    World.answer { world with
      readers := Function.update world.readers futex
        ((world.readers futex).erase task) } .unit
  else world.answer .misuse

/-- `AtomicRefCell::borrow_mut`. -/
def borrow (world : World S τ φ α ω) (task : τ) (futex : φ) :
    Option (Outcome S τ φ α ω) :=
  if task ∉ world.readers futex then world.answer .misuse
  else if world.borrowed futex = none then
    World.answer { world with
      borrowed := Function.update world.borrowed futex (some task) } .unit
  else world.answer .panic

def release (world : World S τ φ α ω) (task : τ) (futex : φ) :
    Option (Outcome S τ φ α ω) :=
  if world.borrowed futex = some task then
    World.answer { world with
      borrowed := Function.update world.borrowed futex none } .unit
  else world.answer .misuse

def cmpxchgEnqueueWeak (world : World S τ φ α ω) (task : τ) (futex : φ)
    (current : FutexAtom τ α) (new : α) (spurious : Bool) :
    Option (Outcome S τ φ α ω) :=
  if world.borrowed futex ≠ some task then world.answer .misuse
  else if world.word futex = current ∧ spurious = false then
    (FutexStore.enqueue world.store futex).map fun store =>
      { world := { world.setAtom futex new with store := store }
        resp := some .success }
  else world.answer (.failure (world.word futex))

def isEmpty (world : World S τ φ α ω) (task : τ) (futex : φ) (queue : κ) :
    Option (Outcome S τ φ α ω) :=
  if world.borrowed futex = some task then
    world.answer (.bool (FutexStore.isEmpty world.store futex queue))
  else world.answer .misuse

def pop (world : World S τ φ α ω) (task : τ) (futex : φ) (queue : κ) :
    Option (Outcome S τ φ α ω) :=
  if world.borrowed futex = some task ∧ world.handle task = none then
    let (waiter, store) := FutexStore.pop world.store futex queue
    World.answer { world.setHandle task waiter with store := store }
      (.handle waiter)
  else world.answer .misuse

def popMany (world : World S τ φ α ω) (task : τ) (futex : φ) (count : ℕ)
    (queue : κ) : Option (Outcome S τ φ α ω) :=
  if world.borrowed futex = some task ∧
      FutexStore.listEmpty world.store task then
    World.answer { world with
      store := FutexStore.popMany world.store task futex count queue } .unit
  else world.answer .misuse

def count (world : World S τ φ α ω) (task : τ) : Option (Outcome S τ φ α ω) :=
  (FutexStore.listCount world.store task).map fun count =>
    { world := world, resp := some (.count count) }

def next (world : World S τ φ α ω) (task : τ) : Option (Outcome S τ φ α ω) :=
  if world.handle task = none then
    let (waiter, store) := FutexStore.listPop world.store task
    World.answer { world.setHandle task waiter with store := store }
      (.handle waiter)
  else world.answer .misuse

/-- The swap of `Waiter::wake`. -/
def wake (world : World S τ φ α ω) (task : τ) : Option (Outcome S τ φ α ω) :=
  match world.handle task with
  | none => world.answer .misuse
  | some waiter =>
      match world.waker waiter with
      | .waiting waker =>
          some {
            world := ((world.setWaker waiter .done).setHandle task none).setBusy task
              (.waking waiter waker)
            events := [.woken waiter] }
      | _ => world.answer .panic

/-- The beginning of `FutexWaitersGuard::requeue`. -/
def requeue (world : World S τ φ α ω) (task : τ) (futex : φ) :
    Option (Outcome S τ φ α ω) :=
  if task ∉ world.readers futex then world.answer .misuse
  else if FutexStore.listEmpty world.store task then world.answer .unit
  else
    some {
      world := world.setBusy task
        (.requeueStore futex (FutexStore.listHead world.store task)) }

/-- One more step of `Waiter::wake` or `requeue`. -/
def busyStep (world : World S τ φ α ω) (task : τ) (spurious : Bool) :
    Option (Outcome S τ φ α ω) :=
  match world.busy task with
  | .none => none
  | .waking waiter waker =>
      some {
        world :=
          (if world.lastWaker waiter = some waker then
            world.setLastWaker waiter none
          else world).setBusy task .none
        resp := some .unit
        events := [.wakerWoken waker] }
  | .requeueStore futex (some waiter) =>
      some {
        world := { world.setBusy task (.requeueStore futex
            (FutexStore.listNext world.store task waiter)) with
          owner := Function.update world.owner waiter futex }
        events := [.requeued waiter futex] }
  | .requeueStore futex none =>
      some { world := world.setBusy task (.requeueLink futex (world.word futex)) }
  | .requeueLink futex current =>
      let linked : World S τ φ α ω :=
        { world with store := FutexStore.listLink world.store task current.inbox }
      if world.word futex = current ∧ spurious = false then
        World.answer { linked.setBusy task .none with
          store := FutexStore.listPush linked.store futex task } .unit
      else
        some { world := linked.setBusy task (.requeueLink futex (world.word futex)) }

/-! ## Steps -/

def call (world : World S τ φ α ω) (task : τ) (op : Op τ φ κ α)
    (spurious : Bool) (waker : ω) : Option (Outcome S τ φ α ω) :=
  match op with
  | .waiter futex queue => world.newWaiter task futex queue
  | .load futex => world.answer (.atom (world.word futex))
  | .cmpxchgWeak futex current new => world.cmpxchgWeak futex current new spurious
  | .cmpxchgWaitWeak futex current new =>
      world.pollEnter task futex current new spurious waker
  | .pending =>
      if world.phase task = .entered then
        (world.setPhase task .pending).answer .unit
      else world.answer .misuse
  | .lock futex => world.lock task futex
  | .unlock futex => world.unlock task futex
  | .borrow futex => world.borrow task futex
  | .release futex => world.release task futex
  | .cmpxchgEnqueueWeak futex current new =>
      world.cmpxchgEnqueueWeak task futex current new spurious
  | .isEmpty futex queue => world.isEmpty task futex queue
  | .pop futex queue => world.pop task futex queue
  | .popMany futex count queue => world.popMany task futex count queue
  | .count => world.count task
  | .next => world.next task
  | .wake => world.wake task
  | .requeue futex => world.requeue task futex

/-- The task runs its own code: no poll, drop or longer operation is under
way. -/
def Running (world : World S τ φ α ω) (task : τ) : Prop :=
  world.busy task = .none ∧ (world.phase task = .idle ∨
    world.phase task = .enter ∨ world.phase task = .entered)

instance (world : World S τ φ α ω) (task : τ) :
    Decidable (world.Running task) := by
  unfold Running
  infer_instance

def step (world : World S τ φ α ω) (task : τ) (act : Act τ φ κ α ω) :
    Option (Outcome S τ φ α ω) :=
  match act with
  | .call op spurious waker =>
      if world.Running task then world.call task op spurious waker else none
  | .poll waker => world.poll task waker
  | .drop => world.drop task
  | .step spurious =>
      if world.busy task ≠ .none then world.busyStep task spurious
      else
        match world.phase task with
        | .polling newWaker waker =>
            world.pollWaiting task newWaker waker spurious
        | _ => world.dropStep task spurious

/-- The machine of all runs of a world from the given atoms and an empty
store, with tasks that call anything at any time. -/
def machine (store : S) (atom : φ → α) (futex : φ) :
    Machine (World S τ φ α ω) (τ × Act τ φ κ α ω) (Event τ φ ω) where
  init := initial store atom futex
  next world label :=
    (world.step label.1 label.2).map fun outcome =>
      (outcome.world, outcome.events)

/-! ## Operations that touch no future -/

/-- The step changed no future, no waker word and no longer operation, and has
no history. -/
structure Untouched (world : World S τ φ α ω) (outcome : Outcome S τ φ α ω) : Prop where
  phase : outcome.world.phase = world.phase
  waker : outcome.world.waker = world.waker
  busy : outcome.world.busy = world.busy
  events : outcome.events = []

omit [DecidableEq τ] [DecidableEq φ] [DecidableEq α] [DecidableEq ω] [FutexStore S τ φ κ] in
theorem untouched_answer {world : World S τ φ α ω} {resp : Resp τ α}
    {outcome : Outcome S τ φ α ω} (hstep : world.answer resp = some outcome) :
    world.Untouched outcome := by
  cases hstep
  constructor <;> rfl

/-- Only five operations touch the futures or take more than one step. -/
theorem untouched_call {world : World S τ φ α ω} {task : τ} {op : Op τ φ κ α}
    {spurious : Bool} {waker : ω} {outcome : Outcome S τ φ α ω}
    (hstep : world.call task op spurious waker = some outcome) :
    world.Untouched outcome ∨ (∃ futex queue, op = .waiter futex queue) ∨
      (∃ futex current new, op = .cmpxchgWaitWeak futex current new) ∨
      op = .pending ∨ op = .wake ∨ ∃ futex, op = .requeue futex := by
  cases op with
  | waiter futex queue => simp
  | cmpxchgWaitWeak futex current new => simp
  | pending => simp
  | wake => simp
  | requeue futex => simp
  | load futex => exact Or.inl (untouched_answer hstep)
  | cmpxchgWeak futex current new =>
      left
      simp only [call, cmpxchgWeak] at hstep
      split at hstep <;> cases hstep <;> constructor <;> rfl
  | lock futex =>
      left
      simp only [call, lock] at hstep
      split at hstep
      · exact untouched_answer hstep
      · split at hstep <;> cases hstep
        constructor <;> rfl
  | unlock futex =>
      left
      simp only [call, unlock] at hstep
      split at hstep <;> cases hstep <;> constructor <;> rfl
  | borrow futex =>
      left
      simp only [call, borrow] at hstep
      split at hstep
      · exact untouched_answer hstep
      · split at hstep <;> cases hstep <;> constructor <;> rfl
  | release futex =>
      left
      simp only [call, release] at hstep
      split at hstep <;> cases hstep <;> constructor <;> rfl
  | cmpxchgEnqueueWeak futex current new =>
      left
      simp only [call, cmpxchgEnqueueWeak] at hstep
      split at hstep
      · exact untouched_answer hstep
      · split at hstep
        · rw [Option.map_eq_some_iff] at hstep
          obtain ⟨store, -, heq⟩ := hstep
          cases heq
          constructor <;> rfl
        · exact untouched_answer hstep
  | isEmpty futex queue =>
      left
      simp only [call, isEmpty] at hstep
      split at hstep <;> exact untouched_answer hstep
  | pop futex queue =>
      left
      simp only [call, pop] at hstep
      split at hstep <;> cases hstep <;> constructor <;> rfl
  | popMany futex count queue =>
      left
      simp only [call, popMany] at hstep
      split at hstep <;> cases hstep <;> constructor <;> rfl
  | count =>
      left
      simp only [call, count, Option.map_eq_some_iff] at hstep
      obtain ⟨count, -, heq⟩ := hstep
      cases heq
      constructor <;> rfl
  | next =>
      left
      simp only [call, next] at hstep
      split at hstep <;> cases hstep <;> constructor <;> rfl

end World

end AsyncMutex
