import AsyncMutex.WorldRefinement

/-!
# A futex is a FIFO object

Behind every futex stands an atom and, for each queue index, the sequence of
the waiters that wait on it.  How that sequence is split between the inbox
and the queue is not visible: each step of the code acts on the object as one
operation, at one point.
-/

namespace AsyncMutex

/-- The object that a futex implements. -/
structure Fifo (τ κ α : Type) where
  atom : α
  /-- The waiters of a queue, longest waiting first. -/
  waiting : κ → List τ

inductive FifoOp (τ κ α : Type) where
  | skip
  | set (new : α)
  /-- Set the atom and wait at the end of a queue. -/
  | wait (waiter : τ) (queue : κ) (new : α)
  /-- Take the longest waiting waiters of a queue. -/
  | take (queue : κ) (count : ℕ)
  /-- Stop waiting. -/
  | leave (waiter : τ)
  /-- Append a batch, each waiter to the queue it asks for. -/
  | append (batch : κ → List τ)

namespace Fifo

variable {τ κ α : Type} [DecidableEq τ] [DecidableEq κ]

def apply (fifo : Fifo τ κ α) : FifoOp τ κ α → Fifo τ κ α
  | .skip => fifo
  | .set new => { fifo with atom := new }
  | .wait waiter queue new =>
      ⟨new, Function.update fifo.waiting queue (fifo.waiting queue ++ [waiter])⟩
  | .take queue count =>
      { fifo with
        waiting := Function.update fifo.waiting queue
          ((fifo.waiting queue).drop count) }
  | .leave waiter =>
      { fifo with
        waiting := fun queue =>
          (fifo.waiting queue).filter fun other => other ≠ waiter }
  | .append batch =>
      { fifo with waiting := fun queue => fifo.waiting queue ++ batch queue }

omit [DecidableEq τ] [DecidableEq κ] in
theorem ext_waiting {fifo fifo' : Fifo τ κ α} (hatom : fifo.atom = fifo'.atom)
    (hwaiting : ∀ queue, fifo.waiting queue = fifo'.waiting queue) :
    fifo = fifo' := by
  cases fifo
  cases fifo'
  simp only at hatom hwaiting
  rw [hatom, funext hwaiting]

end Fifo

/-! ## What the storage operations do to the sequences -/

namespace Places

variable {τ φ κ : Type} [DecidableEq κ]
  {store : ListStore τ φ κ} {handle : τ → Option τ} {place : τ → Place τ φ κ}

theorem mem_contents (hold : Places store handle place) {futex : φ}
    {queue : κ} {waiter : τ} (hmem : waiter ∈ store.contents futex queue) :
    (place waiter).futex = some futex := by
  simp only [ListStore.contents, ListStore.arrivals, List.mem_append,
    List.mem_filter, List.mem_reverse, decide_eq_true_eq] at hmem
  rcases hmem with hmem | ⟨hmem, -⟩
  · rw [(hold.queues futex queue waiter).mp hmem]
    rfl
  · rw [(hold.inbox futex waiter).mp hmem]
    rfl

variable [DecidableEq τ] [DecidableEq φ]

theorem contents_renew (hold : Places store handle place) {waiter : τ}
    (hfree : place waiter = .nowhere) (queue : κ) :
    (FutexStore.renew store waiter queue).contents = store.contents := by
  funext futex queue'
  have harrivals : (FutexStore.renew store waiter queue).arrivals futex queue' =
      store.arrivals futex queue' := by
    refine List.filter_congr fun other hother => ?_
    have hne : other ≠ waiter := by
      rintro rfl
      have hinbox : other ∈ store.inbox futex := List.mem_reverse.mp hother
      rw [hold.inbox, hfree] at hinbox
      cases hinbox
    simp [FutexStore.renew, hne]
  simp only [ListStore.contents, harrivals]
  rfl

theorem contents_push (store : ListStore τ φ κ) (futex : φ) (waiter : τ)
    (futex' : φ) (queue : κ) :
    (FutexStore.push store futex waiter).contents futex' queue =
      if futex' = futex ∧ store.queue waiter = queue then
        store.contents futex' queue ++ [waiter]
      else store.contents futex' queue := by
  simp only [ListStore.contents, ListStore.arrivals, FutexStore.push]
  by_cases hfutex : futex' = futex
  · subst hfutex
    by_cases hqueue : store.queue waiter = queue <;> simp [hqueue]
  · simp [hfutex]

theorem contents_enqueue {futex : φ} {store' : ListStore τ φ κ}
    (hstore : FutexStore.enqueue store futex = some store') :
    store'.contents = store.contents := by
  cases hstore
  funext futex' queue
  by_cases hfutex : futex' = futex
  · subst hfutex
    simp [ListStore.contents, ListStore.arrivals]
  · simp [ListStore.contents, ListStore.arrivals, hfutex]

omit [DecidableEq τ] in
/-- The first waiters of a queue are replaced by what is left of it. -/
theorem contents_setQueue {futex : φ} {queue : κ} {taken left : List τ}
    (hsplit : store.queues futex queue = taken ++ left) (futex' : φ)
    (queue' : κ) :
    (store.setQueue futex queue left).contents futex' queue' =
      if futex' = futex ∧ queue' = queue then
        (store.contents futex' queue').drop taken.length
      else store.contents futex' queue' := by
  have hcontents : (store.setQueue futex queue left).contents futex' queue' =
      (store.setQueue futex queue left).queues futex' queue' ++
        store.arrivals futex' queue' := rfl
  rw [hcontents]
  simp only [ListStore.contents, ListStore.setQueue]
  by_cases hfutex : futex' = futex
  · subst hfutex
    by_cases hqueue : queue' = queue
    · subst hqueue
      simp [hsplit]
    · simp [hqueue]
  · simp [hfutex]

theorem contents_listPush (store : ListStore τ φ κ) (futex : φ) (task : τ)
    (futex' : φ) (queue : κ) :
    (FutexStore.listPush store futex task).contents futex' queue =
      if futex' = futex then
        store.contents futex' queue ++ (store.list task).filter fun waiter =>
          store.queue waiter = queue
      else store.contents futex' queue := by
  simp only [ListStore.contents, ListStore.arrivals, FutexStore.listPush]
  by_cases hfutex : futex' = futex
  · subst hfutex
    simp
  · simp [hfutex]

theorem contents_cancel (hold : Places store handle place) {futex : φ}
    {waiter : τ} (hplace : place waiter = .nowhere ∨
      ∃ queue, place waiter = .queue futex queue) (futex' : φ) (queue : κ) :
    (FutexStore.cancel store futex waiter).contents futex' queue =
      (store.contents futex' queue).filter fun other => other ≠ waiter := by
  have hinbox : waiter ∉ store.inbox futex' := by
    rw [hold.inbox]
    rcases hplace with h | ⟨queue, h⟩ <;> simp [h]
  have harrivals : (store.arrivals futex' queue).filter
      (fun other => decide (other ≠ waiter)) = store.arrivals futex' queue := by
    refine List.filter_eq_self.mpr fun other hother => ?_
    have hne : other ≠ waiter := by
      rintro rfl
      exact hinbox (by simpa using (List.mem_filter.mp hother).1)
    simpa using hne
  have hothers : ∀ futex' queue, place waiter ≠ .queue futex' queue →
      (store.queues futex' queue).filter (fun other => decide (other ≠ waiter)) =
        store.queues futex' queue := by
    intro futex' queue hne
    refine List.filter_eq_self.mpr fun other hother => ?_
    have hother' : other ≠ waiter := by
      rintro rfl
      exact hne ((hold.queues futex' queue other).mp hother)
    simpa using hother'
  simp only [ListStore.contents, List.filter_append, harrivals]
  congr 1
  simp only [FutexStore.cancel, ListStore.setQueue]
  by_cases hsame : futex' = futex ∧ queue = store.queue waiter
  · obtain ⟨rfl, rfl⟩ := hsame
    simp [(hold.queuesNodup futex' (store.queue waiter)).erase_eq_filter]
    rfl
  · have hne : place waiter ≠ .queue futex' queue := by
      intro heq
      have hindex := hold.index futex' queue waiter heq
      rcases hplace with h | ⟨queue', h⟩
      · rw [h] at heq
        cases heq
      · rw [h] at heq
        cases heq
        exact hsame ⟨rfl, hindex.symm⟩
    rw [hothers futex' queue hne]
    by_cases hfutex : futex' = futex
    · subst hfutex
      have hqueue : queue ≠ store.queue waiter := fun heq => hsame ⟨rfl, heq⟩
      simp [hqueue]
    · simp [hfutex]

end Places

namespace World

variable {τ φ κ α ω : Type} [DecidableEq τ] [DecidableEq φ] [DecidableEq κ]
  [DecidableEq α]

/-- The object behind a futex. -/
def fifo (world : ListWorld τ φ κ α ω) (futex : φ) : Fifo τ κ α :=
  ⟨world.atom futex, world.store.contents futex⟩

/-- What a step with this response does to the object behind `futex`. -/
def fifoOp (world : ListWorld τ φ κ α ω) (task : τ) (act : Act τ φ κ α ω)
    (resp : Option (Resp τ α)) (futex : φ) : FifoOp τ κ α :=
  match act, resp with
  | .call (.cmpxchgWaitWeak target _ new) _ _, some .success =>
      if futex = target then .wait task (world.store.queue task) new else .skip
  | .call (.cmpxchgWeak target _ new) _ _, some .success =>
      if futex = target then .set new else .skip
  | .call (.cmpxchgEnqueueWeak target _ new) _ _, some .success =>
      if futex = target then .set new else .skip
  | .call (.pop target queue) _ _, some (.handle (some _)) =>
      if futex = target then .take queue 1 else .skip
  | .call (.popMany target count queue) _ _, some .unit =>
      if futex = target then
        .take queue (WaiterList.front count (world.store.queues target queue)).length
      else .skip
  | .step _, resp =>
      match world.busy task, world.phase task with
      | .requeueLink target _, _ =>
          if futex = target ∧ resp = some .unit then
            .append fun queue => (world.store.list task).filter fun waiter =>
              world.store.queue waiter = queue
          else .skip
      | .none, .dropCancel target =>
          if futex = target then .leave task else .skip
      | _, _ => .skip
  | _, _ => .skip

/-- A step acts on the objects behind the futexes as one operation on each. -/
structure FifoStep (world : ListWorld τ φ κ α ω) (task : τ)
    (act : Act τ φ κ α ω) (outcome : Outcome (ListStore τ φ κ) τ φ α ω) :
    Prop where
  effect : ∀ futex, outcome.world.fifo futex =
    (world.fifo futex).apply (world.fifoOp task act outcome.resp futex)
  /-- After an enqueueing compare-exchange all waiters are in queues. -/
  enqueued : ∀ futex current new spurious waker,
    act = .call (.cmpxchgEnqueueWeak futex current new) spurious waker →
      outcome.resp = some .success → outcome.world.store.inbox futex = []
  /-- `pop` answers the longest waiting waiter, or the queue is empty. -/
  popped : ∀ futex queue spurious waker handle,
    act = .call (.pop futex queue) spurious waker →
      outcome.resp = some (.handle handle) →
        handle = (world.store.queues futex queue).head? ∧
        ∀ waiter, handle = some waiter →
          ((world.fifo futex).waiting queue).head? = some waiter
  /-- `pop_many` returns the waiters that it takes. -/
  poppedMany : ∀ futex count queue spurious waker,
    act = .call (.popMany futex count queue) spurious waker →
      outcome.resp = some .unit →
        outcome.world.store.list task =
          WaiterList.front count (world.store.queues futex queue) ∧
        ((world.store.queues futex queue).length ≤ WaiterList.usizeMax →
          outcome.world.store.list task = ((world.fifo futex).waiting queue).take
            (min count (world.store.queues futex queue).length))
  /-- A drop acts on the futex that its waiter waits on, if there is one. -/
  cancelled : ∀ futex spurious, act = .step spurious →
    world.busy task = .none → world.phase task = .dropCancel futex →
      (∀ futex' queue, task ∈ (world.fifo futex').waiting queue → futex' = futex) ∧
      ∀ futex' queue, task ∉ (outcome.world.fifo futex').waiting queue

variable {world : ListWorld τ φ κ α ω} {place : τ → Place τ φ κ}

omit [DecidableEq τ] [DecidableEq φ] [DecidableEq α] in
theorem fifo_congr (world : ListWorld τ φ κ α ω) {world' : ListWorld τ φ κ α ω}
    {futex : φ} (hatom : world'.atom futex = world.atom futex)
    (hcontents : world'.store.contents futex = world.store.contents futex) :
    world'.fifo futex = world.fifo futex := by
  simp only [fifo, hatom, hcontents]

variable [DecidableEq ω]

namespace Inv

theorem newWaiter_fifo (hinv : Inv world place) {task : τ} {futex : φ}
    {queue : κ} {outcome : Outcome (ListStore τ φ κ) τ φ α ω}
    (hnext : world.newWaiter task futex queue = some outcome) (futex' : φ) :
    outcome.world.fifo futex' = world.fifo futex' := by
  unfold World.newWaiter at hnext
  split at hnext <;> cases hnext
  case isTrue.refl hphase =>
    have hfree : place task = .nowhere :=
      hinv.nowhere (by rcases hphase with h | h <;> simp [h, Phase.Waits])
    refine fifo_congr world ?_ ?_
    · rfl
    · exact congrFun (hinv.places.contents_renew hfree queue) futex'
  case isFalse.refl => rfl

theorem pollEnter_fifo {task : τ} {futex : φ}
    {current : FutexAtom τ α} {new : α} {spurious : Bool} {waker : ω}
    {outcome : Outcome (ListStore τ φ κ) τ φ α ω}
    (hnext : world.pollEnter task futex current new spurious waker =
      some outcome) (futex' : φ) :
    outcome.world.fifo futex' = (world.fifo futex').apply (world.fifoOp task
      (.call (.cmpxchgWaitWeak futex current new) spurious waker) outcome.resp
        futex') := by
  have hpushed : ∀ world' : ListWorld τ φ κ α ω, world'.store =
      FutexStore.push world.store futex task →
      world'.atom = Function.update world.atom futex new →
      world'.fifo futex' = (world.fifo futex').apply
        (if futex' = futex then .wait task (world.store.queue task) new
        else .skip) := by
    intro world' hstore hatom
    refine Fifo.ext_waiting ?_ fun queue => ?_
    · by_cases hfutex : futex' = futex <;> simp [fifo, hatom, hfutex, Fifo.apply]
    · simp only [fifo, hstore, Places.contents_push]
      by_cases hfutex : futex' = futex
      · by_cases hqueue : world.store.queue task = queue
        · simp [hfutex, hqueue, Fifo.apply]
        · have hqueue' : queue ≠ world.store.queue task := fun heq => hqueue heq.symm
          simp [hfutex, hqueue, hqueue', Fifo.apply]
      · simp [hfutex, Fifo.apply]
  unfold World.pollEnter at hnext
  split at hnext
  · cases hnext
    rfl
  · split at hnext
    · cases hnext
      rfl
    · cases hwaker : world.waker task with
      | done =>
          simp only [hwaker] at hnext
          cases hnext
          rfl
      | none =>
          simp only [hwaker] at hnext
          split at hnext <;> cases hnext
          · exact hpushed _ rfl rfl
          · rfl
      | waiting old =>
          simp only [hwaker] at hnext
          split at hnext <;> cases hnext
          · exact hpushed _ rfl rfl
          · rfl

omit [DecidableEq α] [DecidableEq ω] in
theorem setAtom_fifo (world : ListWorld τ φ κ α ω) (futex : φ) (new : α)
    (futex' : φ) :
    (world.setAtom futex new).fifo futex' = (world.fifo futex').apply
      (if futex' = futex then .set new else .skip) := by
  by_cases hfutex : futex' = futex
  · subst hfutex
    simp [fifo, Fifo.apply]
  · simp [fifo, Fifo.apply, hfutex]

omit [DecidableEq ω] in
theorem cmpxchgEnqueueWeak_fifo {task : τ} {futex : φ}
    {current : FutexAtom τ α} {new : α} {spurious : Bool} {waker : ω}
    {outcome : Outcome (ListStore τ φ κ) τ φ α ω}
    (hnext : world.cmpxchgEnqueueWeak task futex current new spurious =
      some outcome) (futex' : φ) :
    outcome.world.fifo futex' = (world.fifo futex').apply (world.fifoOp task
      (.call (.cmpxchgEnqueueWeak futex current new) spurious waker) outcome.resp
        futex') := by
  unfold World.cmpxchgEnqueueWeak at hnext
  split at hnext
  · cases hnext
    rfl
  · split at hnext
    · rw [Option.map_eq_some_iff] at hnext
      obtain ⟨store, hstore, rfl⟩ := hnext
      refine (fifo_congr (world.setAtom futex new) ?_ ?_).trans
        (setAtom_fifo world futex new futex')
      · rfl
      · exact congrFun (Places.contents_enqueue hstore) futex'
    · cases hnext
      rfl

omit [DecidableEq α] [DecidableEq ω] in
theorem setQueue_fifo (world : ListWorld τ φ κ α ω) {futex : φ} {queue : κ}
    {taken left : List τ}
    (hsplit : world.store.queues futex queue = taken ++ left)
    {world' : ListWorld τ φ κ α ω} (hatom : world'.atom = world.atom)
    (hstore : world'.store.contents =
      (world.store.setQueue futex queue left).contents) (futex' : φ) :
    world'.fifo futex' = (world.fifo futex').apply
      (if futex' = futex then .take queue taken.length else .skip) := by
  refine Fifo.ext_waiting ?_ fun queue' => ?_
  · by_cases hfutex : futex' = futex <;> simp [fifo, hatom, hfutex, Fifo.apply]
  · simp only [fifo, hstore, Places.contents_setQueue hsplit]
    by_cases hfutex : futex' = futex
    · by_cases hqueue : queue' = queue
      · simp [hfutex, hqueue, Fifo.apply]
      · simp [hfutex, hqueue, Fifo.apply]
    · simp [hfutex, Fifo.apply]

omit [DecidableEq ω] in
theorem pop_fifo {task : τ} {futex : φ} {queue : κ} {spurious : Bool} {waker : ω}
    {outcome : Outcome (ListStore τ φ κ) τ φ α ω}
    (hnext : world.pop task futex queue = some outcome) (futex' : φ) :
    outcome.world.fifo futex' = (world.fifo futex').apply (world.fifoOp task
      (.call (.pop futex queue) spurious waker) outcome.resp futex') := by
  unfold World.pop at hnext
  split at hnext <;> cases hnext
  case isFalse.refl => rfl
  case isTrue.refl hguard =>
    cases hcase : world.store.queues futex queue with
    | nil =>
        have hsplit : world.store.queues futex queue = [] ++ [] := hcase
        refine (setQueue_fifo world hsplit ?_ ?_ futex').trans ?_
        · rfl
        · rfl
        · split <;> simp [Fifo.apply, fifoOp]
    | cons waiter rest =>
        have hsplit : world.store.queues futex queue = [waiter] ++ rest := hcase
        refine setQueue_fifo world hsplit ?_ ?_ futex' <;> rfl

omit [DecidableEq ω] in
theorem popMany_fifo {task : τ} {futex : φ} {queue : κ} {count : ℕ}
    {spurious : Bool} {waker : ω}
    {outcome : Outcome (ListStore τ φ κ) τ φ α ω}
    (hnext : world.popMany task futex count queue = some outcome) (futex' : φ) :
    outcome.world.fifo futex' = (world.fifo futex').apply (world.fifoOp task
      (.call (.popMany futex count queue) spurious waker) outcome.resp futex') := by
  unfold World.popMany at hnext
  split at hnext <;> cases hnext
  · refine setQueue_fifo world (WaiterList.front_append_back count _).symm ?_ ?_
      futex' <;> rfl
  · rfl

omit [DecidableEq α] [DecidableEq ω] in
theorem listPop_fifo {task : τ}
    {outcome : Outcome (ListStore τ φ κ) τ φ α ω}
    (hnext : world.next task = some outcome) (futex' : φ) :
    outcome.world.fifo futex' = world.fifo futex' := by
  unfold World.next at hnext
  split at hnext <;> cases hnext
  · rfl
  · rfl

omit [DecidableEq φ] [DecidableEq α] [DecidableEq ω] in
theorem wake_fifo {task : τ} {outcome : Outcome (ListStore τ φ κ) τ φ α ω}
    (hnext : world.wake task = some outcome) (futex' : φ) :
    outcome.world.fifo futex' = world.fifo futex' := by
  unfold World.wake at hnext
  split at hnext
  · cases hnext
    rfl
  · split at hnext <;> cases hnext <;> rfl

theorem call_fifo (hinv : Inv world place) {task : τ} {op : Op τ φ κ α}
    {spurious : Bool} {waker : ω}
    {outcome : Outcome (ListStore τ φ κ) τ φ α ω}
    (hnext : world.call task op spurious waker = some outcome) (futex' : φ) :
    outcome.world.fifo futex' = (world.fifo futex').apply (world.fifoOp task
      (.call op spurious waker) outcome.resp futex') := by
  cases op with
  | waiter futex queue => exact hinv.newWaiter_fifo hnext futex'
  | load futex =>
      cases hnext
      rfl
  | cmpxchgWeak futex current new =>
      simp only [World.call, World.cmpxchgWeak] at hnext
      split at hnext <;> cases hnext
      · exact setAtom_fifo world futex new futex'
      · rfl
  | cmpxchgWaitWeak futex current new => exact pollEnter_fifo hnext futex'
  | pending =>
      simp only [World.call] at hnext
      split at hnext <;> cases hnext <;> rfl
  | lock futex =>
      simp only [World.call, World.lock] at hnext
      split at hnext
      · cases hnext
        rfl
      · split at hnext <;> cases hnext
        rfl
  | unlock futex =>
      simp only [World.call, World.unlock] at hnext
      split at hnext <;> cases hnext <;> rfl
  | borrow futex =>
      simp only [World.call, World.borrow] at hnext
      split at hnext
      · cases hnext
        rfl
      · split at hnext <;> cases hnext <;> rfl
  | release futex =>
      simp only [World.call, World.release] at hnext
      split at hnext <;> cases hnext <;> rfl
  | cmpxchgEnqueueWeak futex current new =>
      exact cmpxchgEnqueueWeak_fifo hnext futex'
  | isEmpty futex queue =>
      simp only [World.call, World.isEmpty] at hnext
      split at hnext <;> cases hnext <;> rfl
  | pop futex queue => exact pop_fifo hnext futex'
  | popMany futex count queue => exact popMany_fifo hnext futex'
  | count =>
      cases hnext
      rfl
  | next => exact listPop_fifo hnext futex'
  | wake => exact wake_fifo hnext futex'
  | requeue futex =>
      simp only [World.call, World.requeue] at hnext
      split at hnext
      · cases hnext
        rfl
      · split at hnext <;> cases hnext <;> rfl

theorem busyStep_fifo {task : τ} {spurious : Bool}
    {outcome : Outcome (ListStore τ φ κ) τ φ α ω}
    (hnext : world.busyStep task spurious = some outcome) (futex' : φ) :
    outcome.world.fifo futex' = (world.fifo futex').apply
      (world.fifoOp task (.step spurious) outcome.resp futex') := by
  unfold World.busyStep at hnext
  split at hnext
  case h_1 => cases hnext
  case h_2 waiter waker hbusy =>
    cases hnext
    simp only [fifoOp, hbusy]
    refine fifo_congr world ?_ ?_ <;> split <;> rfl
  case h_3 futex waiter hbusy =>
    cases hnext
    simp only [fifoOp, hbusy]
    rfl
  case h_4 futex hbusy =>
    cases hnext
    simp only [fifoOp, hbusy]
    rfl
  case h_5 futex current hbusy =>
    split at hnext <;> cases hnext
    · simp only [fifoOp, hbusy, and_true]
      refine Fifo.ext_waiting ?_ fun queue => ?_
      · split <;> rfl
      · have hpushed := Places.contents_listPush world.store futex task futex' queue
        split
        case isTrue hfutex =>
          rw [if_pos hfutex] at hpushed
          exact hpushed
        case isFalse hfutex =>
          rw [if_neg hfutex] at hpushed
          exact hpushed
    · simp only [fifoOp, hbusy]
      simp [Fifo.apply, fifo, FutexStore.listLink]

omit [DecidableEq ω] in
theorem dropStep_fifo (hinv : Inv world place) {task : τ} {spurious : Bool}
    (hbusy : world.busy task = .none)
    {outcome : Outcome (ListStore τ φ κ) τ φ α ω}
    (hnext : world.dropStep task spurious = some outcome) (futex' : φ) :
    outcome.world.fifo futex' = (world.fifo futex').apply
      (world.fifoOp task (.step spurious) outcome.resp futex') := by
  unfold World.dropStep at hnext
  simp only [fifoOp, hbusy]
  cases hphase : world.phase task with
  | dropCancel owner =>
      simp only [hphase] at hnext ⊢
      cases hnext
      have hcancel := hinv.places.contents_cancel (hinv.place_of_cancel hphase)
      refine Fifo.ext_waiting ?_ fun queue => ?_
      · split <;> rfl
      · refine (hcancel futex' queue).trans ?_
        split
        case isTrue hfutex => rfl
        case isFalse hfutex =>
          refine List.filter_eq_self.mpr fun other hother => ?_
          have hne : other ≠ task := by
            rintro rfl
            have hfutex' := hinv.places.mem_contents hother
            rcases hinv.place_of_cancel hphase with hplace | ⟨queue', hplace⟩ <;>
              rw [hplace] at hfutex'
            · cases hfutex'
            · exact hfutex (Option.some.inj hfutex').symm
          simpa using hne
  | dropFlip owner current =>
      simp only [hphase] at hnext ⊢
      split at hnext
      · rw [Option.map_eq_some_iff] at hnext
        obtain ⟨store, hstore, rfl⟩ := hnext
        refine fifo_congr world ?_ ?_
        · rfl
        · exact congrFun (Places.contents_enqueue hstore) futex'
      · cases hnext
        rfl
  | dropLock owner =>
      simp only [hphase] at hnext ⊢
      split at hnext <;> cases hnext
      rfl
  | dropFinish =>
      simp only [hphase] at hnext ⊢
      split at hnext <;> cases hnext <;> rfl
  | _ =>
      simp only [hphase] at hnext ⊢
      cases hnext <;> rfl

theorem step_fifo (hinv : Inv world place) {task : τ} {act : Act τ φ κ α ω}
    {outcome : Outcome (ListStore τ φ κ) τ φ α ω}
    (hnext : world.step task act = some outcome) (futex : φ) :
    outcome.world.fifo futex = (world.fifo futex).apply
      (world.fifoOp task act outcome.resp futex) := by
  cases act with
  | call op spurious waker =>
      simp only [World.step] at hnext
      split at hnext
      · exact hinv.call_fifo hnext futex
      · cases hnext
  | poll waker =>
      simp only [World.step, World.poll] at hnext
      split at hnext <;> cases hnext
      rfl
  | drop =>
      simp only [World.step, World.drop] at hnext
      split at hnext <;> cases hnext
      rfl
  | step spurious =>
      simp only [World.step] at hnext
      split at hnext
      · exact busyStep_fifo hnext futex
      case isFalse hbusy =>
        rw [not_not] at hbusy
        split at hnext
        case h_1 newWaker seen hphase =>
          simp only [fifoOp, hbusy, hphase]
          cases seen with
          | waiting old =>
              simp only [World.pollWaiting] at hnext
              split at hnext <;> cases hnext <;> rfl
          | none =>
              cases hnext
              rfl
          | done =>
              cases hnext
              rfl
        case h_2 => exact hinv.dropStep_fifo hbusy hnext futex

omit [DecidableEq τ] [DecidableEq φ] [DecidableEq α] [DecidableEq ω] in
/-- The longest waiting waiters of a futex are in its queues. -/
theorem front_eq_take_waiting {futex : φ} {queue : κ} {count : ℕ}
    (hlength : (world.store.queues futex queue).length ≤ WaiterList.usizeMax) :
    WaiterList.front count (world.store.queues futex queue) =
      ((world.fifo futex).waiting queue).take
        (min count (world.store.queues futex queue).length) := by
  have hsplit : (world.fifo futex).waiting queue =
    world.store.queues futex queue ++ world.store.arrivals futex queue := rfl
  rw [WaiterList.front_eq_take hlength, hsplit,
    List.take_append_of_le_length (Nat.min_le_right _ _), ← List.take_take,
    List.take_length]

theorem fifoStep (hinv : Inv world place) {task : τ} {act : Act τ φ κ α ω}
    {outcome : Outcome (ListStore τ φ κ) τ φ α ω}
    (hnext : world.step task act = some outcome) :
    FifoStep world task act outcome where
  effect := hinv.step_fifo hnext
  enqueued := by
    rintro futex current new spurious waker rfl hresp
    simp only [World.step, World.call, World.cmpxchgEnqueueWeak] at hnext
    split at hnext
    case isFalse => cases hnext
    split at hnext
    case isTrue =>
      cases hnext
      cases hresp
    split at hnext
    case isFalse =>
      cases hnext
      cases hresp
    rw [Option.map_eq_some_iff] at hnext
    obtain ⟨store, hstore, rfl⟩ := hnext
    cases hstore
    simp
  popped := by
    rintro futex queue spurious waker handle rfl hresp
    simp only [World.step, World.call, World.pop] at hnext
    split at hnext
    case isFalse => cases hnext
    split at hnext
    case isFalse =>
      cases hnext
      cases hresp
    cases hnext
    simp only [FutexStore.pop, Option.some.injEq, Resp.handle.injEq] at hresp
    refine ⟨hresp.symm, fun waiter hwaiter => ?_⟩
    have hhead : (world.store.queues futex queue).head? = some waiter :=
      hresp.trans hwaiter
    obtain ⟨rest, hrest⟩ := List.head?_eq_some_iff.mp hhead
    simp [fifo, ListStore.contents, hrest]
  poppedMany := by
    rintro futex count queue spurious waker rfl hresp
    simp only [World.step, World.call, World.popMany] at hnext
    split at hnext
    case isFalse => cases hnext
    split at hnext
    case isFalse =>
      cases hnext
      cases hresp
    cases hnext
    simp only [FutexStore.popMany, Function.update_self, true_and]
    exact front_eq_take_waiting
  cancelled := by
    rintro futex spurious rfl hbusy hphase
    have heffect := hinv.step_fifo hnext
    have hplace := hinv.place_of_cancel hphase
    have hself : ∀ futex' queue, task ∈ (world.fifo futex').waiting queue →
        futex' = futex := by
      intro futex' queue hmem
      have hfutex' := hinv.places.mem_contents hmem
      rcases hplace with hplace | ⟨queue', hplace⟩ <;> rw [hplace] at hfutex'
      · cases hfutex'
      · exact (Option.some.inj hfutex').symm
    refine ⟨hself, fun futex' queue hmem => ?_⟩
    rw [heffect futex'] at hmem
    simp only [fifoOp, hbusy, hphase] at hmem
    split at hmem
    case isTrue => simp [Fifo.apply] at hmem
    case isFalse hne => exact hne (hself futex' queue hmem)

end Inv

/-! ## The pointers -/

variable [Fintype τ] {queue : κ} {atom : φ → α} {futex : φ}

/-- Every step of every run acts on each futex as one operation of a FIFO
object. -/
theorem fifoStep_of_reachable {world : HeapWorld τ φ κ α ω}
    (hreach : (World.machine (HeapStore.empty queue) atom futex :
      Machine (HeapWorld τ φ κ α ω) _ _).Reachable world)
    {task : τ} {act : Act τ φ κ α ω}
    {outcome : Outcome (HeapStore τ φ κ) τ φ α ω}
    (hnext : world.step task act = some outcome) :
    FifoStep world.lists task act
      ⟨outcome.world.lists, outcome.resp, outcome.events⟩ := by
  obtain ⟨habstract, -⟩ := lists_of_reachable hreach
  obtain ⟨place, hinv⟩ := Inv.of_reachable habstract
  refine hinv.fifoStep ?_
  rw [step_lists hreach, hnext]
  rfl

/-- Two waiters are enqueued, a third one waits in the inbox, and a pop takes
the first of the three.  In another run the first of two waiters is dropped. -/
theorem fifoStep_of_pop :
    (∃ (world : HeapWorld (Fin 4) Unit Unit ℕ Unit)
      (outcome : Outcome (HeapStore (Fin 4) Unit Unit) (Fin 4) Unit ℕ Unit),
      world.lists.store.queues () () = [0, 1] ∧ world.lists.store.inbox () = [2] ∧
        (world.lists.fifo ()).waiting () = [0, 1, 2] ∧
        world.step 3 (.call (.pop () ()) false ()) = some outcome ∧
        outcome.resp = some (.handle (some 0)) ∧
        (outcome.world.lists.fifo ()).waiting () = [1, 2] ∧
        FifoStep world.lists 3 (.call (.pop () ()) false ())
          ⟨outcome.world.lists, outcome.resp, outcome.events⟩) ∧
    ∃ (world : HeapWorld (Fin 4) Unit Unit ℕ Unit)
      (outcome : Outcome (HeapStore (Fin 4) Unit Unit) (Fin 4) Unit ℕ Unit),
      world.phase 0 = .dropCancel () ∧ (world.lists.fifo ()).waiting () = [0, 1] ∧
        world.step 0 (.step false) = some outcome ∧
        (outcome.world.lists.fifo ()).waiting () = [1] ∧
        FifoStep world.lists 0 (.step false)
          ⟨outcome.world.lists, outcome.resp, outcome.events⟩ := by
  let machine : Machine (HeapWorld (Fin 4) Unit Unit ℕ Unit)
      (Fin 4 × Act (Fin 4) Unit Unit ℕ Unit) (Event (Fin 4) Unit Unit) :=
    World.machine (HeapStore.empty ()) (fun _ => 0) ()
  constructor
  case left =>
    have hreach := machine.reachable_of_run
      [(0, .call (.waiter () ()) false ()),
        (0, .call (.cmpxchgWaitWeak () ⟨0, none⟩ 1) false ()),
        (1, .call (.waiter () ()) false ()),
        (1, .call (.cmpxchgWaitWeak () ⟨1, some 0⟩ 2) false ()),
        (3, .call (.lock ()) false ()), (3, .call (.borrow ()) false ()),
        (3, .call (.cmpxchgEnqueueWeak () ⟨2, some 1⟩ 3) false ()),
        (2, .call (.waiter () ()) false ()),
        (2, .call (.cmpxchgWaitWeak () ⟨3, none⟩ 4) false ())] rfl
    exact ⟨_, _, rfl, rfl, rfl, rfl, rfl, rfl, fifoStep_of_reachable hreach rfl⟩
  case right =>
    have hreach := machine.reachable_of_run
      [(0, .call (.waiter () ()) false ()),
        (0, .call (.cmpxchgWaitWeak () ⟨0, none⟩ 1) false ()),
        (0, .call .pending false ()), (1, .call (.waiter () ()) false ()),
        (1, .call (.cmpxchgWaitWeak () ⟨1, some 0⟩ 2) false ()),
        (0, .drop), (0, .step false), (0, .step false), (0, .step false),
        (0, .step false)] rfl
    exact ⟨_, _, rfl, rfl, rfl, rfl, fifoStep_of_reachable hreach rfl⟩

end World

end AsyncMutex
