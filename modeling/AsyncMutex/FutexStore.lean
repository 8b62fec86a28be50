import AsyncMutex.WaiterListSpec
import Mathlib.Data.Fintype.Card

/-!
# Where the waiters of the futexes are kept

The futex code touches its inboxes, its queues and the handle lists of its
notifiers through a small set of operations.  `HeapStore` runs them on the
pointers of the source; `ListStore` keeps plain lists.  The futex itself is
written once over the interface, so that both meanings run the same code.
-/

namespace AsyncMutex

open DoublyLinked

/-- The operations on inboxes, queues and handle lists.  `none` stands for an
operation that has no result because it follows a null or circular chain. -/
class FutexStore (S : Type) (τ φ κ : outParam Type) where
  /-- `Waiter::new`: null links and the index of a queue. -/
  renew : S → τ → κ → S
  /-- The inbox pointer of the futex word. -/
  top : S → φ → Option τ
  /-- `waiter.set_prev(current.inbox)` of `poll_enter`. -/
  setPrev : S → τ → Option τ → S
  /-- The inbox pointer becomes the waiter. -/
  push : S → φ → τ → S
  /-- The inbox pointer becomes null and its stack goes through
  `RawFutex::enqueue`. -/
  enqueue : S → φ → Option S
  isEmpty : S → φ → κ → Bool
  pop : S → φ → κ → Option τ × S
  /-- `pop_many`; the handle list now belongs to the given task. -/
  popMany : S → τ → φ → ℕ → κ → S
  listEmpty : S → τ → Bool
  listHead : S → τ → Option τ
  /-- Where `WaiterHandleIter` goes after a waiter of the handle list. -/
  listNext : S → τ → τ → Option τ
  listCount : S → τ → Option ℕ
  /-- `WaiterHandleIntoIter::next`. -/
  listPop : S → τ → Option τ × S
  /-- `list.head.set_prev(atom.inbox)` of `requeue`. -/
  listLink : S → τ → Option τ → S
  /-- The inbox pointer becomes the tail of the handle list. -/
  listPush : S → φ → τ → S
  /-- `RawFutex::cancel`. -/
  cancel : S → φ → τ → S

/-! ## Plain lists -/

/-- The inboxes newest first, the queues oldest first. -/
structure ListStore (τ φ κ : Type) where
  inbox : φ → List τ
  queues : φ → κ → List τ
  queue : τ → κ
  list : τ → List τ

namespace ListStore

variable {τ φ κ : Type} [DecidableEq τ] [DecidableEq φ] [DecidableEq κ]

def empty (queue : κ) : ListStore τ φ κ :=
  ⟨fun _ => [], fun _ _ => [], fun _ => queue, fun _ => []⟩

def setQueue (store : ListStore τ φ κ) (futex : φ) (queue : κ)
    (waiters : List τ) : ListStore τ φ κ :=
  { store with
    queues := Function.update store.queues futex
      (Function.update (store.queues futex) queue waiters) }

/-- The inbox waiters that ask for `queue`, oldest first. -/
def arrivals (store : ListStore τ φ κ) (futex : φ) (queue : κ) : List τ :=
  (store.inbox futex).reverse.filter fun waiter => store.queue waiter = queue

def successor (waiter : τ) : List τ → Option τ
  | [] => none
  | other :: rest => if other = waiter then rest.head? else successor waiter rest

omit [DecidableEq φ] [DecidableEq κ] in
theorem successor_append {waiter : τ} {before after : List τ}
    (hmem : waiter ∉ before) :
    successor waiter (before ++ waiter :: after) = after.head? := by
  induction before with
  | nil => simp [successor]
  | cons other before ih =>
      rw [List.mem_cons, not_or] at hmem
      have hne : other ≠ waiter := fun heq => hmem.1 heq.symm
      simpa [successor, hne] using ih hmem.2

instance : FutexStore (ListStore τ φ κ) τ φ κ where
  renew store waiter queue :=
    { store with queue := Function.update store.queue waiter queue }
  top store futex := (store.inbox futex).head?
  setPrev store _ _ := store
  push store futex waiter :=
    { store with
      inbox := Function.update store.inbox futex (waiter :: store.inbox futex) }
  enqueue store futex :=
    some { store with
      inbox := Function.update store.inbox futex []
      queues := Function.update store.queues futex fun queue =>
        store.queues futex queue ++ store.arrivals futex queue }
  isEmpty store futex queue := (store.queues futex queue).isEmpty
  pop store futex queue :=
    ((store.queues futex queue).head?,
      store.setQueue futex queue (store.queues futex queue).tail)
  popMany store task futex count queue :=
    { store.setQueue futex queue
        (WaiterList.back count (store.queues futex queue)) with
      list := Function.update store.list task
        (WaiterList.front count (store.queues futex queue)) }
  listEmpty store task := (store.list task).isEmpty
  listHead store task := (store.list task).head?
  listNext store task waiter := successor waiter (store.list task)
  listCount store task := some (store.list task).length
  listPop store task :=
    ((store.list task).head?,
      { store with list := Function.update store.list task (store.list task).tail })
  listLink store _ _ := store
  listPush store futex task :=
    { store with
      inbox := Function.update store.inbox futex
        ((store.list task).reverse ++ store.inbox futex)
      list := Function.update store.list task [] }
  cancel store futex waiter :=
    store.setQueue futex (store.queue waiter)
      ((store.queues futex (store.queue waiter)).erase waiter)

/-- The waiters of one queue from head to tail, followed by the inbox waiters
that ask for this queue, oldest push first. -/
def contents (store : ListStore τ φ κ) (futex : φ) (queue : κ) : List τ :=
  store.queues futex queue ++ store.arrivals futex queue

end ListStore

/-! ## Pointers -/

structure HeapStore (τ φ κ : Type) where
  heap : WaiterHeap τ κ
  inbox : φ → Option τ
  queues : φ → κ → WaiterList τ
  list : τ → WaiterList τ

namespace HeapStore

variable {τ φ κ : Type}

def empty (queue : κ) : HeapStore τ φ κ :=
  ⟨fun _ => ⟨none, none, queue⟩, fun _ => none, fun _ _ => WaiterList.new,
    fun _ => WaiterList.new⟩

/-- A walk that visits more nodes than there are goes in a circle. -/
def fuel (τ : Type) [Fintype τ] : ℕ := Fintype.card τ + 1

variable [DecidableEq τ] [DecidableEq φ] [DecidableEq κ]

def setQueue (store : HeapStore τ φ κ) (futex : φ) (queue : κ)
    (list : WaiterList τ) : HeapStore τ φ κ :=
  { store with
    queues := Function.update store.queues futex
      (Function.update (store.queues futex) queue list) }

variable [Fintype τ]

instance : FutexStore (HeapStore τ φ κ) τ φ κ where
  renew store waiter queue :=
    { store with heap := Function.update store.heap waiter ⟨none, none, queue⟩ }
  top store futex := store.inbox futex
  setPrev store waiter link :=
    { store with heap := store.heap.setPrev waiter link }
  push store futex waiter :=
    { store with inbox := Function.update store.inbox futex (some waiter) }
  enqueue store futex :=
    (WaiterList.enqueue (fuel τ) store.heap (store.queues futex)
      (store.inbox futex)).map fun result =>
        { store with
          heap := result.1
          inbox := Function.update store.inbox futex none
          queues := Function.update store.queues futex result.2 }
  isEmpty store futex queue := (store.queues futex queue).isEmpty
  pop store futex queue :=
    let (heap, list, waiter) :=
      WaiterList.popFront store.heap (store.queues futex queue)
    (waiter, { store.setQueue futex queue list with heap := heap })
  popMany store task futex count queue :=
    let (heap, kept, popped) :=
      WaiterList.popFrontMany store.heap (store.queues futex queue) count
    { store.setQueue futex queue kept with
      heap := heap
      list := Function.update store.list task popped }
  listEmpty store task := (store.list task).isEmpty
  listHead store task := (store.list task).head
  listNext store _ waiter := (store.heap waiter).next
  listCount store task :=
    (WaiterList.iter (fuel τ) store.heap (store.list task).head).map List.length
  listPop store task :=
    let (heap, list, waiter) :=
      WaiterList.popFront store.heap (store.list task)
    (waiter, { store with
      heap := heap
      list := Function.update store.list task list })
  listLink store task link :=
    match (store.list task).head with
    | none => store
    | some head => { store with heap := store.heap.setPrev head link }
  listPush store futex task :=
    { store with
      inbox := Function.update store.inbox futex (store.list task).tail
      list := Function.update store.list task WaiterList.new }
  cancel store futex waiter :=
    let queue := (store.heap waiter).data
    let (heap, list) :=
      WaiterList.remove store.heap (store.queues futex queue) waiter
    { store.setQueue futex queue list with heap := heap }

/-- The lists that one finds by following the pointers. -/
def lists (store : HeapStore τ φ κ) : ListStore τ φ κ where
  inbox futex :=
    (WaiterList.iterStack (fuel τ) store.heap (store.inbox futex)).getD []
  queues futex queue :=
    (WaiterList.iter (fuel τ) store.heap (store.queues futex queue).head).getD []
  queue waiter := (store.heap waiter).data
  list task :=
    (WaiterList.iter (fuel τ) store.heap (store.list task).head).getD []

end HeapStore

end AsyncMutex
