import AsyncMutex.WaiterReuse

/-!
# Panics among the waiters

`Futex::waiter` takes any index of a queue, and the code panics where a futex
has no queue of this index.  Such a panic inside of `WaitFuture::drop` poisons
the write lock, and the callback of a dropped future may panic as well.  The
code unwinds, and leaves the waiters as they are.

`Perils` runs the waiters in code that may panic.  Where nothing panics it
takes the steps of `Lives`.
-/

namespace AsyncMutex

open DoublyLinked

/-! ## Queues that do not exist -/

namespace WaiterList

variable {τ κ : Type*} [DecidableEq τ] [DecidableEq κ]

/-- What the loop of `RawFutex::enqueue` leaves where it panics, with queues of
the `valid` indices. -/
def enqueueLoopPanic (valid : κ → Bool) (fuel : ℕ) (heap : WaiterHeap τ κ)
    (queues : κ → WaiterList τ) (list : WaiterList τ) :
    Option (WaiterHeap τ κ × (κ → WaiterList τ)) :=
  match fuel with
  | 0 => none
  | fuel + 1 =>
      match popFront heap list with
      | (_, _, none) => none
      | (heap, list, some waiter) =>
          let queue := (heap waiter).data
          -- `state.queues[waiter.queue()]`
          if valid queue then
            match pushBack heap (queues queue) waiter with
            | none => none
            | some (heap, pushed) =>
                enqueueLoopPanic valid fuel heap (Function.update queues queue pushed) list
          else some (heap, queues)

def enqueuePanic (valid : κ → Bool) (fuel : ℕ) (heap : WaiterHeap τ κ)
    (queues : κ → WaiterList τ) (stack : Option τ) :
    Option (WaiterHeap τ κ × (κ → WaiterList τ)) :=
  (fromStack fuel heap stack).bind fun result =>
    enqueueLoopPanic valid fuel result.1 queues result.2

theorem enqueueLoopPanic_of_valid {valid : κ → Bool} {heap : WaiterHeap τ κ}
    {queues : κ → WaiterList τ} {list : WaiterList τ} {content : κ → List τ}
    {waiters : List τ} (henqueues : Enqueues heap queues list content waiters)
    (hvalid : ∀ waiter ∈ waiters, valid (heap waiter).data = true) (fuel : ℕ) :
    enqueueLoopPanic valid fuel heap queues list = none := by
  induction fuel generalizing heap queues list content waiters with
  | zero => rfl
  | succ fuel ih =>
      cases waiters with
      | nil => simp [enqueueLoopPanic, popFront_nil henqueues.list]
      | cons waiter rest =>
          generalize hgoal : (heap waiter).data = goal
          obtain ⟨heap₁, list₁, heap₂, pushed, hpop, hdata₁, hpush, hround, hsame⟩ :=
            henqueues.round hgoal
          have hgoalValid : valid goal = true := hgoal ▸ hvalid waiter List.mem_cons_self
          simp only [enqueueLoopPanic, hpop, hdata₁, hpush, hgoalValid, if_true]
          refine ih hround fun other hother => ?_
          rw [hsame.data]
          exact hvalid other (List.mem_cons_of_mem waiter hother)

end WaiterList

namespace HeapStore

variable {τ φ κ : Type} [DecidableEq τ] [DecidableEq φ] [DecidableEq κ] [Fintype τ]

/-- What `FutexStore.enqueue` leaves where it panics. -/
def enqueuePanic (valid : κ → Bool) (store : HeapStore τ φ κ) (futex : φ) :
    Option (HeapStore τ φ κ) :=
  (WaiterList.enqueuePanic valid (fuel τ) store.heap (store.queues futex)
    (store.inbox futex)).map fun result =>
      { store with
        heap := result.1
        inbox := Function.update store.inbox futex none
        queues := Function.update store.queues futex result.2 }

end HeapStore

/-- Waiters whose indices exist are enqueued without a panic. -/
theorem Represents.enqueuePanic_of_valid {τ φ κ : Type} [DecidableEq τ] [DecidableEq φ]
    [DecidableEq κ] [Fintype τ] {concrete : HeapStore τ φ κ} {lists : ListStore τ φ κ}
    {before : τ → Option τ} {handle : τ → Option τ} {place : τ → Place τ φ κ}
    (hrep : Represents concrete lists before) (hplaces : Places lists handle place)
    {futex : φ} {valid : κ → Bool}
    (hvalid : ∀ waiter ∈ lists.inbox futex, valid (lists.queue waiter) = true) :
    concrete.enqueuePanic valid futex = none := by
  obtain ⟨heap, list, hfrom, henqueues, hsame⟩ :=
    WaiterList.enqueues_fromStack (hrep.queues futex) (hrep.inbox futex).stack
      (hplaces.inboxNodup futex) (hrep.inbox futex).next
      (fun _ hinbox => hplaces.inbox_apart hinbox)
      (fun _ _ _ hqueue => hplaces.queues_distinct hqueue)
      (length_lt_fuel (hplaces.inboxNodup futex))
  have hloop : WaiterList.enqueueLoopPanic valid (HeapStore.fuel τ) heap
      (concrete.queues futex) list = none := by
    refine WaiterList.enqueueLoopPanic_of_valid henqueues (fun waiter hwaiter => ?_) _
    rw [hsame.data, hrep.data]
    exact hvalid waiter (List.mem_reverse.mp hwaiter)
  simp [HeapStore.enqueuePanic, WaiterList.enqueuePanic, (hrep.inbox futex).top_eq, hfrom,
    hloop]

/-! ## Waiters in code that panics -/

/-- What safe code does with its waiters, and what goes wrong. -/
inductive Deed (τ φ κ α ω : Type) where
  | use (use : Use τ φ κ α ω)
  /-- The callback of the dropped future unwinds. -/
  | unwind

structure Perils (τ φ κ α ω : Type) where
  lives : Lives (HeapStore τ φ κ) τ φ α ω
  /-- The `RwLock` of the futex is poisoned. -/
  poisoned : φ → Bool

namespace Perils

/-- One step in the history of the waiters. -/
structure Report (τ φ κ α ω : Type) where
  task : τ
  deed : Deed τ φ κ α ω
  resp : Option (Resp τ α)
  events : List (Event τ φ ω)

variable {τ φ κ α ω : Type} [DecidableEq τ] [DecidableEq φ] [DecidableEq κ]
  [DecidableEq α] [DecidableEq ω] [Fintype τ]

@[simps] def setWorld (perils : Perils τ φ κ α ω) (world : HeapWorld τ φ κ α ω) :
    Perils τ φ κ α ω :=
  { perils with lives := { perils.lives with world := world } }

/-- Where a call panics at a poisoned lock or at the index of a queue, and what
it leaves. -/
def callPanic (inBounds : φ → κ → Bool) (perils : Perils τ φ κ α ω) (task : τ)
    (op : Op τ φ κ α) (spurious : Bool) : Option (HeapWorld τ φ κ α ω) :=
  let world := perils.lives.world
  match op with
  | .lock futex =>
      -- `state.read().unwrap()`
      if perils.poisoned futex ∧ world.writer futex = none then some world else none
  | .cmpxchgEnqueueWeak futex current new =>
      if world.borrowed futex = some task ∧ world.word futex = current ∧
          spurious = false then
        (world.store.enqueuePanic (inBounds futex) futex).map fun store =>
          { world.setAtom futex new with store := store }
      else none
  | .isEmpty futex queue =>
      if world.borrowed futex = some task ∧ ¬ inBounds futex queue then some world else none
  | .pop futex queue =>
      if world.borrowed futex = some task ∧ world.handle task = none ∧
          ¬ inBounds futex queue then some world
      else none
  | .popMany futex _ queue =>
      if world.borrowed futex = some task ∧ FutexStore.listEmpty world.store task ∧
          ¬ inBounds futex queue then some world
      else none
  | _ => none

/-- A panic under the write lock of `owner` unwinds out of the drop, and the
waiter of the future stays as it is. -/
def abandon (perils : Perils τ φ κ α ω) (task : τ) (owner : φ) (store : HeapStore τ φ κ) :
    Perils τ φ κ α ω :=
  { perils.setWorld { (perils.lives.world.setWriter owner none).setPhase task .idle with
      store := store } with
    poisoned := Function.update perils.poisoned owner true }

/-- Where a step of `WaitFuture::drop` panics, and what it leaves. -/
def dropPanic (inBounds : φ → κ → Bool) (perils : Perils τ φ κ α ω) (task : τ)
    (spurious : Bool) : Option (Perils τ φ κ α ω) :=
  let world := perils.lives.world
  match world.phase task with
  | .dropLock owner =>
      -- `state.write().unwrap()`
      if perils.poisoned owner ∧ world.writer owner = none ∧ world.readers owner = ∅ then
        some (perils.setWorld (world.setPhase task .idle))
      else none
  | .dropFlip owner current =>
      if world.word owner = current ∧ spurious = false then
        (world.store.enqueuePanic (inBounds owner) owner).map (perils.abandon task owner)
      else none
  | .dropCancel owner =>
      -- `state.queues[waiter.queue()]`
      if inBounds owner (world.store.heap task).data then none
      else some (perils.abandon task owner world.store)
  | _ => none

/-- The task runs code outside of its future. -/
def Running (perils : Perils τ φ κ α ω) (task : τ) : Prop :=
  if perils.lives.leaked task then perils.lives.world.busy task = .none
  else perils.lives.world.Running task

instance (perils : Perils τ φ κ α ω) (task : τ) : Decidable (perils.Running task) := by
  unfold Running
  infer_instance

def panic (inBounds : φ → κ → Bool) (perils : Perils τ φ κ α ω) (task : τ) :
    Use τ φ κ α ω → Option (Perils τ φ κ α ω)
  | .act (.call op spurious _) =>
      if perils.Running task then
        (perils.callPanic inBounds task op spurious).map perils.setWorld
      else none
  | .act (.step spurious) =>
      if perils.lives.world.busy task = .none then perils.dropPanic inBounds task spurious
      else none
  | _ => none

/-- The callback unwinds before the drop resets the waker word. -/
def unwind (perils : Perils τ φ κ α ω) (task : τ) :
    Option (Perils τ φ κ α ω × Option (Resp τ α) × List (Event τ φ ω)) :=
  let world := perils.lives.world
  if world.phase task = .dropFinish ∧ world.busy task = .none then
    match world.waker task with
    | .none => none
    | .waiting waker =>
        some (perils.setWorld (world.setPhase task .idle), some .panic,
          [.wakerDropped waker, .cancelSleeping task])
    | .done =>
        some (perils.setWorld (world.setPhase task .idle), some .panic, [.cancelWoken task])
  else none

omit [DecidableEq κ] [Fintype τ] in
theorem unwind_cases {perils perils' : Perils τ φ κ α ω} {task : τ} {resp : Option (Resp τ α)}
    {events : List (Event τ φ ω)} (hstep : perils.unwind task = some (perils', resp, events)) :
    perils.lives.world.phase task = .dropFinish ∧
      perils' = perils.setWorld (perils.lives.world.setPhase task .idle) ∧
      (perils.lives.world.waker task = .done → events = [.cancelWoken task]) := by
  unfold unwind at hstep
  dsimp only at hstep
  split at hstep
  case isFalse => cases hstep
  case isTrue hguard =>
    split at hstep
    case h_1 => cases hstep
    case h_2 waker hwaker =>
      cases hstep
      exact ⟨hguard.1, rfl, fun hdone => by simp [hwaker] at hdone⟩
    case h_3 =>
      cases hstep
      exact ⟨hguard.1, rfl, fun _ => rfl⟩

def step (inBounds : φ → κ → Bool) (perils : Perils τ φ κ α ω) (task : τ)
    (deed : Deed τ φ κ α ω) :
    Option (Perils τ φ κ α ω × Option (Resp τ α) × List (Event τ φ ω)) :=
  match deed with
  | .use use =>
      match perils.panic inBounds task use with
      | some panicked => some (panicked, some .panic, [])
      | none =>
          (perils.lives.step Lives.reuse task use).map fun result =>
            ({ perils with lives := result.1 }, result.2)
  | .unwind => perils.unwind task

/-- The runs of any number of tasks that have no waiters in the beginning, on
futexes that have the queues `inBounds`. -/
def machine (inBounds : φ → κ → Bool) (queue : κ) (atom : φ → α) (futex : φ) :
    Machine (Perils τ φ κ α ω) (τ × Deed τ φ κ α ω) (Report τ φ κ α ω) where
  init := ⟨(Lives.Reusing queue atom futex).init, fun _ => false⟩
  next perils label :=
    (perils.step inBounds label.1 label.2).map fun result =>
      (result.1, [⟨label.1, label.2, result.2.1, result.2.2⟩])

/-- The waiters that a step puts on a futex. -/
def puts (perils : Perils τ φ κ α ω) (task : τ) : Use τ φ κ α ω → List (φ × τ)
  | .act (.call (.cmpxchgWaitWeak futex _ _) _ _) => [(futex, task)]
  | .act (.call (.requeue futex) _ _) =>
      (perils.lives.world.store.lists.list task).map fun waiter => (futex, waiter)
  | _ => []

/-- A waiter that is put on a futex asks for one of its queues. -/
def Fits (inBounds : φ → κ → Bool) (perils : Perils τ φ κ α ω)
    (label : τ × Use τ φ κ α ω) : Prop :=
  ∀ put ∈ perils.puts label.1 label.2,
    inBounds put.1 (perils.lives.world.store.heap put.2).data = true

instance (inBounds : φ → κ → Bool) (perils : Perils τ φ κ α ω)
    (label : τ × Use τ φ κ α ω) : Decidable (perils.Fits inBounds label) :=
  inferInstanceAs (Decidable (∀ _ ∈ _, _))

end Perils

end AsyncMutex
