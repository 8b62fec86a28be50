import AsyncMutex.FutexStore

/-!
# Where each waiter is

A waiter is in at most one inbox, queue, handle list or hand.  The map from
waiters to places is the ghost state of every later invariant.  Each storage
operation gets one lemma that says how it moves the waiters.
-/

namespace AsyncMutex

inductive Place (τ φ κ : Type) where
  | nowhere
  | inbox (futex : φ)
  | queue (futex : φ) (queue : κ)
  /-- The handle list of a notifier. -/
  | list (task : τ)
  /-- The single handle of a notifier. -/
  | hand (task : τ)
deriving DecidableEq

namespace Place

variable {τ φ κ : Type}

/-- The futex whose inbox or queues hold the waiter. -/
def futex : Place τ φ κ → Option φ
  | .inbox futex => some futex
  | .queue futex _ => some futex
  | _ => none

/-- The notifier that has popped the waiter. -/
def holder : Place τ φ κ → Option τ
  | .list task => some task
  | .hand task => some task
  | _ => none

/-- The waiter is in no list: it is nowhere or in the hand of a notifier. -/
def Unlisted : Place τ φ κ → Prop
  | .nowhere => True
  | .hand _ => True
  | _ => False

@[simp] theorem futex_nowhere : (nowhere : Place τ φ κ).futex = none := rfl
@[simp] theorem futex_inbox (f : φ) : (inbox f : Place τ φ κ).futex = some f := rfl
@[simp] theorem futex_queue (f : φ) (q : κ) :
    (queue f q : Place τ φ κ).futex = some f := rfl
@[simp] theorem futex_list (u : τ) : (list u : Place τ φ κ).futex = none := rfl
@[simp] theorem futex_hand (u : τ) : (hand u : Place τ φ κ).futex = none := rfl
@[simp] theorem holder_nowhere : (nowhere : Place τ φ κ).holder = none := rfl
@[simp] theorem holder_inbox (f : φ) : (inbox f : Place τ φ κ).holder = none := rfl
@[simp] theorem holder_queue (f : φ) (q : κ) :
    (queue f q : Place τ φ κ).holder = none := rfl
@[simp] theorem holder_list (u : τ) : (list u : Place τ φ κ).holder = some u := rfl
@[simp] theorem holder_hand (u : τ) : (hand u : Place τ φ κ).holder = some u := rfl

end Place

/-- `place` says where the lists and hands keep each waiter. -/
structure Places {τ φ κ : Type} (store : ListStore τ φ κ)
    (handle : τ → Option τ) (place : τ → Place τ φ κ) : Prop where
  inbox : ∀ futex waiter,
    waiter ∈ store.inbox futex ↔ place waiter = .inbox futex
  queues : ∀ futex queue waiter,
    waiter ∈ store.queues futex queue ↔ place waiter = .queue futex queue
  list : ∀ task waiter, waiter ∈ store.list task ↔ place waiter = .list task
  hand : ∀ task waiter, handle task = some waiter ↔ place waiter = .hand task
  inboxNodup : ∀ futex, (store.inbox futex).Nodup
  queuesNodup : ∀ futex queue, (store.queues futex queue).Nodup
  listNodup : ∀ task, (store.list task).Nodup
  index : ∀ futex queue waiter,
    place waiter = .queue futex queue → store.queue waiter = queue

namespace Places

variable {τ φ κ : Type} {store : ListStore τ φ κ} {handle : τ → Option τ}
  {place : τ → Place τ φ κ}

theorem empty (queue : κ) :
    Places (ListStore.empty queue : ListStore τ φ κ) (fun _ => none)
      fun _ => .nowhere := by
  constructor <;> simp [ListStore.empty]

theorem inbox_apart (hold : Places store handle place) {futex : φ} {waiter : τ}
    (hinbox : waiter ∈ store.inbox futex) (queue : κ) :
    waiter ∉ store.queues futex queue := by
  intro hqueue
  rw [hold.inbox] at hinbox
  rw [hold.queues, hinbox] at hqueue
  cases hqueue

theorem queues_distinct (hold : Places store handle place) {futex : φ} {queue queue' : κ}
    {waiter : τ} (hqueue : waiter ∈ store.queues futex queue)
    (hqueue' : waiter ∈ store.queues futex queue') : queue = queue' := by
  rw [hold.queues] at hqueue hqueue'
  rw [hqueue] at hqueue'
  exact (Place.queue.inj hqueue').2

variable [DecidableEq τ] [DecidableEq φ] [DecidableEq κ]

theorem renew (hold : Places store handle place) {waiter : τ}
    (hfree : place waiter = .nowhere) (queue : κ) :
    Places (FutexStore.renew store waiter queue) handle place := by
  refine { hold with index := fun futex queue' other hother => ?_ }
  have hne : other ≠ waiter := by
    rintro rfl
    simp [hfree] at hother
  have hindex := hold.index futex queue' other hother
  simpa [FutexStore.renew, hne] using hindex

/-! ## The operations -/

theorem push (hold : Places store handle place) {waiter : τ}
    (hfree : place waiter = .nowhere) (futex : φ) :
    Places (FutexStore.push store futex waiter) handle
      (Function.update place waiter (.inbox futex)) := by
  obtain ⟨hinbox, hqueues, hlist, hhand, hinboxNodup, hqueuesNodup, hlistNodup,
    hindex⟩ := hold
  simp only [FutexStore.push]
  constructor <;> simp only [Function.update_apply] <;> grind

/-- Where the waiters are after the inbox of `futex` went to its queues. -/
def enqueued (store : ListStore τ φ κ) (futex : φ) (place : τ → Place τ φ κ)
    (waiter : τ) : Place τ φ κ :=
  if place waiter = .inbox futex then .queue futex (store.queue waiter)
  else place waiter

theorem enqueue (hold : Places store handle place) {futex : φ}
    {store' : ListStore τ φ κ}
    (hstore : FutexStore.enqueue store futex = some store') :
    Places store' handle (enqueued store futex place) := by
  obtain ⟨hinbox, hqueues, hlist, hhand, hinboxNodup, hqueuesNodup, hlistNodup,
    hindex⟩ := hold
  simp only [FutexStore.enqueue, Option.some.injEq] at hstore
  subst hstore
  have harrivals : ∀ queue waiter, waiter ∈ store.arrivals futex queue ↔
      place waiter = .inbox futex ∧ store.queue waiter = queue := by
    simp [ListStore.arrivals, hinbox]
  have hnodup : ∀ queue, (store.arrivals futex queue).Nodup := fun queue =>
    (List.nodup_reverse.mpr (hinboxNodup futex)).filter _
  constructor <;> simp only [Function.update_apply, ite_apply, enqueued] <;>
    grind [List.nodup_append]

theorem pop_some (hold : Places store handle place) {task waiter : τ}
    {futex : φ} {queue : κ} (hhandle : handle task = none)
    (hhead : (store.queues futex queue).head? = some waiter) :
    Places (FutexStore.pop store futex queue).2
      (Function.update handle task (some waiter))
      (Function.update place waiter (.hand task)) := by
  obtain ⟨hinbox, hqueues, hlist, hhand, hinboxNodup, hqueuesNodup, hlistNodup,
    hindex⟩ := hold
  obtain ⟨rest, hrest⟩ := List.head?_eq_some_iff.mp hhead
  have hplace : place waiter = .queue futex queue := by
    rw [← hqueues, hrest]
    exact List.mem_cons_self
  have hnodup := hqueuesNodup futex queue
  rw [hrest, List.nodup_cons] at hnodup
  simp only [FutexStore.pop, ListStore.setQueue, hrest, List.tail_cons]
  constructor <;> simp only [Function.update_apply] <;> grind

theorem pop_none (hold : Places store handle place) {task : τ} {futex : φ}
    {queue : κ} (hhandle : handle task = none)
    (hhead : (store.queues futex queue).head? = none) :
    Places (FutexStore.pop store futex queue).2
      (Function.update handle task none) place := by
  have hnil := List.head?_eq_none_iff.mp hhead
  have htail : (store.queues futex queue).tail = store.queues futex queue := by
    simp [hnil]
  simpa [FutexStore.pop, ListStore.setQueue, htail, ← hhandle] using hold

/-- Where the waiters are after `task` popped a part of a queue. -/
def poppedMany (task : τ) (popped : List τ) (place : τ → Place τ φ κ)
    (waiter : τ) : Place τ φ κ :=
  if waiter ∈ popped then .list task else place waiter

theorem popMany (hold : Places store handle place) {task : τ}
    (hlist : store.list task = []) (futex : φ) (queue : κ) (count : ℕ) :
    Places (FutexStore.popMany store task futex count queue) handle
      (poppedMany task (WaiterList.front count (store.queues futex queue))
        place) := by
  obtain ⟨hinbox, hqueues, hlists, hhand, hinboxNodup, hqueuesNodup, hlistNodup,
    hindex⟩ := hold
  have hempty : ∀ waiter, place waiter ≠ .list task := fun waiter => by
    rw [Ne, ← hlists, hlist]
    exact List.not_mem_nil
  have hsplit := WaiterList.front_append_back count (store.queues futex queue)
  have hnodup := hqueuesNodup futex queue
  have hmem : ∀ waiter, place waiter = .queue futex queue ↔
      waiter ∈ WaiterList.front count (store.queues futex queue) ∨
        waiter ∈ WaiterList.back count (store.queues futex queue) := by
    intro waiter
    rw [← hqueues, ← List.mem_append, hsplit]
  rw [← hsplit, List.nodup_append] at hnodup
  obtain ⟨hnodupFront, hnodupBack, hapart⟩ := hnodup
  simp only [FutexStore.popMany, ListStore.setQueue]
  constructor <;> simp only [Function.update_apply, poppedMany] <;> grind

theorem listPop_some (hold : Places store handle place) {task waiter : τ}
    (hhandle : handle task = none)
    (hhead : (store.list task).head? = some waiter) :
    Places (FutexStore.listPop store task).2
      (Function.update handle task (some waiter))
      (Function.update place waiter (.hand task)) := by
  obtain ⟨hinbox, hqueues, hlist, hhand, hinboxNodup, hqueuesNodup, hlistNodup,
    hindex⟩ := hold
  obtain ⟨rest, hrest⟩ := List.head?_eq_some_iff.mp hhead
  have hplace : place waiter = .list task := by
    rw [← hlist, hrest]
    exact List.mem_cons_self
  have hnodup := hlistNodup task
  rw [hrest, List.nodup_cons] at hnodup
  simp only [FutexStore.listPop, hrest, List.tail_cons]
  constructor <;> simp only [Function.update_apply] <;> grind

theorem listPop_none (hold : Places store handle place) {task : τ}
    (hhandle : handle task = none) (hhead : (store.list task).head? = none) :
    Places (FutexStore.listPop store task).2
      (Function.update handle task none) place := by
  have hnil := List.head?_eq_none_iff.mp hhead
  have htail : (store.list task).tail = store.list task := by
    simp [hnil]
  simpa [FutexStore.listPop, htail, ← hhandle] using hold

/-- Where the waiters are after the handle list of `task` went to the inbox
of `futex`. -/
def pushedList (futex : φ) (task : τ) (place : τ → Place τ φ κ)
    (waiter : τ) : Place τ φ κ :=
  if place waiter = .list task then .inbox futex else place waiter

theorem listPush (hold : Places store handle place) (futex : φ) (task : τ) :
    Places (FutexStore.listPush store futex task) handle
      (pushedList futex task place) := by
  obtain ⟨hinbox, hqueues, hlist, hhand, hinboxNodup, hqueuesNodup, hlistNodup,
    hindex⟩ := hold
  have hnodup : ((store.list task).reverse ++ store.inbox futex).Nodup := by
    refine List.nodup_append.mpr
      ⟨List.nodup_reverse.mpr (hlistNodup task), hinboxNodup futex, ?_⟩
    grind
  simp only [FutexStore.listPush]
  constructor <;> simp only [Function.update_apply, pushedList] <;> grind

/-- `RawFutex::cancel` on a waiter of the futex that is not in its inbox, or
that is in no list at all. -/
theorem cancel (hold : Places store handle place) {futex : φ} {waiter : τ}
    (hplace : place waiter = .nowhere ∨
      ∃ queue, place waiter = .queue futex queue) :
    Places (FutexStore.cancel store futex waiter) handle
      (Function.update place waiter .nowhere) := by
  obtain ⟨hinbox, hqueues, hlist, hhand, hinboxNodup, hqueuesNodup, hlistNodup,
    hindex⟩ := hold
  have herase : ∀ other,
      other ∈ (store.queues futex (store.queue waiter)).erase waiter ↔
        other ≠ waiter ∧ place other = .queue futex (store.queue waiter) := by
    intro other
    rw [(hqueuesNodup _ _).mem_erase_iff, hqueues]
  have hnodup := (hqueuesNodup futex (store.queue waiter)).erase waiter
  simp only [FutexStore.cancel, ListStore.setQueue]
  constructor <;> simp only [Function.update_apply] <;> grind

omit [DecidableEq φ] [DecidableEq κ] in
/-- The handle that a task holds is woken. -/
theorem woken (hold : Places store handle place) {task waiter : τ}
    (hhandle : handle task = some waiter) :
    Places store (Function.update handle task none)
      (Function.update place waiter .nowhere) := by
  obtain ⟨hinbox, hqueues, hlist, hhand, hinboxNodup, hqueuesNodup, hlistNodup,
    hindex⟩ := hold
  have hplace := (hhand task waiter).mp hhandle
  constructor <;> grind [Function.update_apply]

end Places

end AsyncMutex
