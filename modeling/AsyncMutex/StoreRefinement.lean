import AsyncMutex.Places

/-!
# The pointers hold the lists

Every operation of `HeapStore` is matched with the operation of `ListStore`
on the lists that its pointers hold.  Waiters that are in no list are not
touched, so that the links of a popped or woken waiter stay null.
-/

namespace AsyncMutex

open DoublyLinked

/-- Both links of `waiter` are null. -/
def Loose {τ κ : Type} (heap : WaiterHeap τ κ) (waiter : τ) : Prop :=
  (heap waiter).next = none ∧ (heap waiter).prev = none

/-- The inbox pointer `top` holds `waiters`, newest first.  Only the next
link of the newest one is known to be null. -/
structure HoldsStack {τ κ : Type} (heap : WaiterHeap τ κ) (top : Option τ)
    (waiters : List τ) : Prop where
  top_eq : top = waiters.head?
  stack : Stack heap waiters
  next : ∀ waiter ∈ waiters.head?, (heap waiter).next = none

/-- The handle list holds `waiters`.  Its first waiter points back to
`before`, which is null except at the compare-exchange of `requeue`. -/
structure HoldsHandles {τ κ : Type} (heap : WaiterHeap τ κ)
    (list : WaiterList τ) (before : Option τ) (waiters : List τ) : Prop where
  head_eq : list.head = waiters.head?
  tail_eq : list.tail = waiters.getLast?
  segment : Segment heap before waiters none

theorem HoldsStack.congr {τ κ : Type} {heap heap' : WaiterHeap τ κ}
    {top : Option τ} {waiters : List τ} (hold : HoldsStack heap top waiters)
    (hsame : ∀ waiter ∈ waiters, heap' waiter = heap waiter) :
    HoldsStack heap' top waiters := by
  refine ⟨hold.top_eq, hold.stack.congr fun waiter hmem => ?_, fun waiter hhead => ?_⟩
  · rw [hsame waiter hmem]
  · rw [hsame waiter (List.mem_of_mem_head? hhead)]
    exact hold.next waiter hhead

theorem HoldsHandles.congr {τ κ : Type} {heap heap' : WaiterHeap τ κ}
    {list : WaiterList τ} {before : Option τ} {waiters : List τ}
    (hold : HoldsHandles heap list before waiters)
    (hsame : ∀ waiter ∈ waiters, heap' waiter = heap waiter) :
    HoldsHandles heap' list before waiters := by
  refine ⟨hold.head_eq, hold.tail_eq, hold.segment.congr fun waiter hmem => ?_⟩
  rw [hsame waiter hmem]
  exact ⟨rfl, rfl⟩

theorem WaiterList.Contains.of_same {τ κ : Type} {heap heap' : WaiterHeap τ κ}
    {list : WaiterList τ} {waiters : List τ} (hold : list.Contains heap waiters)
    (hsame : ∀ waiter ∈ waiters, heap' waiter = heap waiter) :
    list.Contains heap' waiters := by
  refine hold.congr fun waiter hmem => ?_
  rw [hsame waiter hmem]
  exact ⟨rfl, rfl⟩

theorem HoldsHandles.contains {τ κ : Type} {heap : WaiterHeap τ κ}
    {list : WaiterList τ} {waiters : List τ}
    (hold : HoldsHandles heap list none waiters) (hnodup : waiters.Nodup) :
    list.Contains heap waiters :=
  ⟨hold.head_eq, hold.tail_eq, hold.segment, hnodup⟩

theorem HoldsHandles.of_contains {τ κ : Type} {heap : WaiterHeap τ κ}
    {list : WaiterList τ} {waiters : List τ}
    (hold : list.Contains heap waiters) : HoldsHandles heap list none waiters :=
  ⟨hold.first_eq, hold.last_eq, hold.segment⟩

/-- The pointers of `concrete` hold the lists of `lists`. -/
structure Represents {τ φ κ : Type} (concrete : HeapStore τ φ κ)
    (lists : ListStore τ φ κ) (before : τ → Option τ) : Prop where
  data : ∀ waiter, (concrete.heap waiter).data = lists.queue waiter
  inbox : ∀ futex,
    HoldsStack concrete.heap (concrete.inbox futex) (lists.inbox futex)
  queues : ∀ futex queue, (concrete.queues futex queue).Contains concrete.heap
    (lists.queues futex queue)
  list : ∀ task, HoldsHandles concrete.heap (concrete.list task) (before task)
    (lists.list task)

namespace Represents

variable {τ φ κ : Type}

theorem empty (queue : κ) :
    Represents (HeapStore.empty queue : HeapStore τ φ κ) (ListStore.empty queue)
      fun _ => none :=
  ⟨fun _ => rfl, fun _ => ⟨rfl, trivial, by simp [ListStore.empty]⟩,
    fun _ _ => holds_nil _, fun _ => ⟨rfl, rfl, trivial⟩⟩

variable {concrete : HeapStore τ φ κ} {lists : ListStore τ φ κ} {before : τ → Option τ}
  {handle : τ → Option τ} {place : τ → Place τ φ κ}

/-! ## Waiters outside of all lists -/

/-- A change of the cells of waiters that are in no list. -/
theorem of_nowhere (hrep : Represents concrete lists before)
    (hplaces : Places lists handle place) {heap : WaiterHeap τ κ}
    {queue : τ → κ} (hdata : ∀ waiter, (heap waiter).data = queue waiter)
    (hout : ∀ waiter, place waiter ≠ .nowhere →
      heap waiter = concrete.heap waiter) :
    Represents { concrete with heap := heap } { lists with queue := queue }
      before := by
  refine ⟨hdata, fun futex => (hrep.inbox futex).congr ?_,
    fun futex queue => (hrep.queues futex queue).of_same ?_,
    fun task => (hrep.list task).congr ?_⟩
  · intro waiter hmem
    exact hout waiter (by simp [(hplaces.inbox futex waiter).mp hmem])
  · intro waiter hmem
    exact hout waiter (by simp [(hplaces.queues futex queue waiter).mp hmem])
  · intro waiter hmem
    exact hout waiter (by simp [(hplaces.list task waiter).mp hmem])

variable [DecidableEq τ] [DecidableEq φ] [DecidableEq κ] [Fintype τ]

theorem renew (hrep : Represents concrete lists before)
    (hplaces : Places lists handle place) {waiter : τ}
    (hfree : place waiter = .nowhere) (queue : κ) :
    Represents (FutexStore.renew concrete waiter queue)
      (FutexStore.renew lists waiter queue) before := by
  refine hrep.of_nowhere hplaces (fun other => ?_) fun other hplace => ?_
  · by_cases hother : other = waiter
    · simp [hother]
    · simp [hother, hrep.data]
  · have hother : other ≠ waiter := by
      rintro rfl
      exact hplace hfree
    simp [hother]

theorem setPrev (hrep : Represents concrete lists before)
    (hplaces : Places lists handle place) {waiter : τ}
    (hfree : place waiter = .nowhere) (link : Option τ) :
    Represents (FutexStore.setPrev concrete waiter link)
      (FutexStore.setPrev lists waiter link) before := by
  refine hrep.of_nowhere hplaces (fun other => ?_) fun other hplace => ?_
  · simp [hrep.data]
  · have hother : other ≠ waiter := by
      rintro rfl
      exact hplace hfree
    simp [Heap.setPrev_of_ne _ link hother]

/-! ## Observations -/

theorem top (hrep : Represents concrete lists before) (futex : φ) :
    FutexStore.top concrete futex = FutexStore.top lists futex :=
  (hrep.inbox futex).top_eq

theorem isEmpty (hrep : Represents concrete lists before) (futex : φ)
    (queue : κ) : FutexStore.isEmpty concrete futex queue =
      FutexStore.isEmpty lists futex queue := by
  simp only [FutexStore.isEmpty, WaiterList.isEmpty,
    (hrep.queues futex queue).first_eq]
  cases lists.queues futex queue <;> rfl

theorem listEmpty (hrep : Represents concrete lists before) (task : τ) :
    FutexStore.listEmpty concrete task = FutexStore.listEmpty lists task := by
  simp only [FutexStore.listEmpty, WaiterList.isEmpty, (hrep.list task).head_eq]
  cases lists.list task <;> rfl

theorem listHead (hrep : Represents concrete lists before) (task : τ) :
    FutexStore.listHead concrete task = FutexStore.listHead lists task :=
  (hrep.list task).head_eq

theorem listNext (hrep : Represents concrete lists before)
    (hplaces : Places lists handle place) {task waiter : τ}
    (hmem : waiter ∈ lists.list task) :
    FutexStore.listNext concrete task waiter =
      FutexStore.listNext lists task waiter := by
  obtain ⟨first, after, hsplit⟩ := List.append_of_mem hmem
  have hnodup := hplaces.listNodup task
  have hseg := (hrep.list task).segment
  rw [hsplit] at hnodup hseg
  have hnot : waiter ∉ first := fun hin =>
    (List.nodup_append.mp hnodup).2.2 waiter hin waiter List.mem_cons_self rfl
  rw [segment_append] at hseg
  simp only [FutexStore.listNext, hsplit, ListStore.successor_append hnot]
  simpa using hseg.2.2.1

omit [DecidableEq τ] in
theorem length_lt_fuel {waiters : List τ} (hnodup : waiters.Nodup) :
    waiters.length < HeapStore.fuel τ :=
  Nat.lt_succ_of_le hnodup.length_le_card

theorem listCount (hrep : Represents concrete lists before)
    (hplaces : Places lists handle place) (task : τ) :
    FutexStore.listCount concrete task = FutexStore.listCount lists task := by
  have hwalk := WaiterList.iter_spec (hrep.list task).segment
    (length_lt_fuel (hplaces.listNodup task)).le
  simp [FutexStore.listCount, (hrep.list task).head_eq, hwalk]

omit [DecidableEq φ] [DecidableEq κ] [DecidableEq τ] in
/-- Walking the pointers finds the lists. -/
theorem lists_eq (hrep : Represents concrete lists before)
    (hplaces : Places lists handle place) : concrete.lists = lists := by
  have hinbox : ∀ futex, concrete.lists.inbox futex = lists.inbox futex := by
    intro futex
    have hwalk := WaiterList.iterStack_spec (hrep.inbox futex).stack
      (length_lt_fuel (hplaces.inboxNodup futex)).le
    simp [HeapStore.lists, (hrep.inbox futex).top_eq, hwalk]
  have hqueues : ∀ futex queue,
      concrete.lists.queues futex queue = lists.queues futex queue := by
    intro futex queue
    have hwalk := WaiterList.iter_spec (hrep.queues futex queue).segment
      (length_lt_fuel (hplaces.queuesNodup futex queue)).le
    simp [HeapStore.lists, (hrep.queues futex queue).first_eq, hwalk]
  have hlist : ∀ task, concrete.lists.list task = lists.list task := by
    intro task
    have hwalk := WaiterList.iter_spec (hrep.list task).segment
      (length_lt_fuel (hplaces.listNodup task)).le
    simp [HeapStore.lists, (hrep.list task).head_eq, hwalk]
  have hqueue : concrete.lists.queue = lists.queue := funext hrep.data
  cases lists
  simp only [HeapStore.lists, ListStore.mk.injEq]
  exact ⟨funext hinbox, funext fun futex => funext (hqueues futex), hqueue,
    funext hlist⟩

/-! ## Operations on the lists -/

theorem push (hrep : Represents concrete lists before) {futex : φ} {waiter : τ}
    (hnext : (concrete.heap waiter).next = none)
    (hprev : (concrete.heap waiter).prev = (lists.inbox futex).head?) :
    Represents (FutexStore.push concrete futex waiter)
      (FutexStore.push lists futex waiter) before := by
  refine { hrep with inbox := fun other => ?_ }
  by_cases hother : other = futex
  · subst hother
    simpa [FutexStore.push] using
      (⟨rfl, ⟨hprev, (hrep.inbox other).stack⟩, by simpa using hnext⟩ :
        HoldsStack concrete.heap (some waiter) (waiter :: lists.inbox other))
  · simpa [FutexStore.push, hother] using hrep.inbox other

theorem enqueue (hrep : Represents concrete lists before)
    (hplaces : Places lists handle place) {futex : φ} {lists' : ListStore τ φ κ}
    (hlists : FutexStore.enqueue lists futex = some lists') :
    ∃ concrete', FutexStore.enqueue concrete futex = some concrete' ∧
      Represents concrete' lists' before ∧
      ∀ waiter, (place waiter).Unlisted →
        concrete'.heap waiter = concrete.heap waiter := by
  obtain ⟨heap, queues, hrun, hqueues, hsame⟩ :=
    WaiterList.enqueue_spec (hrep.queues futex) (hrep.inbox futex).stack
      (hplaces.inboxNodup futex) (hrep.inbox futex).next
      (fun _ hinbox => hplaces.inbox_apart hinbox)
      (fun _ _ _ hqueue => hplaces.queues_distinct hqueue)
      (length_lt_fuel (hplaces.inboxNodup futex))
  have hout : ∀ waiter, (place waiter).futex ≠ some futex →
      heap waiter = concrete.heap waiter := by
    intro waiter hplace
    refine hsame.outside waiter ?_
    rintro (hin | ⟨queue, hin⟩)
    · exact hplace (by rw [(hplaces.inbox futex waiter).mp hin]; rfl)
    · exact hplace (by rw [(hplaces.queues futex queue waiter).mp hin]; rfl)
  refine ⟨{ concrete with
      heap := heap
      inbox := Function.update concrete.inbox futex none
      queues := Function.update concrete.queues futex queues }, ?_, ?_, ?_⟩
  · simp [FutexStore.enqueue, (hrep.inbox futex).top_eq, hrun]
  · cases hlists
    constructor
    case data => exact fun waiter => (hsame.data waiter).trans (hrep.data waiter)
    case inbox =>
      intro other
      by_cases hother : other = futex
      · subst hother
        simpa using (⟨rfl, trivial, by simp⟩ : HoldsStack heap none [])
      · simp only [Function.update_of_ne hother]
        refine (hrep.inbox other).congr fun waiter hmem => hout waiter ?_
        rw [(hplaces.inbox other waiter).mp hmem]
        simpa using hother
    case queues =>
      intro other queue
      by_cases hother : other = futex
      · subst hother
        simpa [ListStore.arrivals, hrep.data] using hqueues queue
      · simp only [Function.update_of_ne hother]
        refine (hrep.queues other queue).of_same fun waiter hmem => hout waiter ?_
        rw [(hplaces.queues other queue waiter).mp hmem]
        simpa using hother
    case list =>
      intro task
      refine (hrep.list task).congr fun waiter hmem => hout waiter ?_
      rw [(hplaces.list task waiter).mp hmem]
      simp
  · intro waiter hplace
    refine hout waiter ?_
    cases hcase : place waiter <;> simp_all [Place.Unlisted]

omit [DecidableEq τ] [Fintype τ] in
/-- The lists other than one queue, when only the waiters of that queue
change. -/
theorem setQueue (hrep : Represents concrete lists before)
    (hplaces : Places lists handle place) (futex : φ) (queue : κ)
    {heap : WaiterHeap τ κ} {list : WaiterList τ} {waiters : List τ}
    (hsame : SameOutside concrete.heap heap
      {waiter | waiter ∈ lists.queues futex queue})
    (hold : list.Contains heap waiters) :
    Represents { concrete.setQueue futex queue list with heap := heap }
      (lists.setQueue futex queue waiters) before := by
  have hout : ∀ waiter, place waiter ≠ .queue futex queue →
      heap waiter = concrete.heap waiter := by
    intro waiter hplace
    exact hsame.outside waiter fun hin =>
      hplace ((hplaces.queues futex queue waiter).mp hin)
  constructor
  case data => exact fun waiter => (hsame.data waiter).trans (hrep.data waiter)
  case inbox =>
    intro other
    refine (hrep.inbox other).congr fun waiter hmem => hout waiter ?_
    simp [(hplaces.inbox other waiter).mp hmem]
  case queues =>
    intro other queue'
    have hothers : (other, queue') ≠ (futex, queue) →
        (concrete.queues other queue').Contains heap (lists.queues other queue') := by
      intro hne
      refine (hrep.queues other queue').of_same fun waiter hmem => hout waiter ?_
      rw [(hplaces.queues other queue' waiter).mp hmem]
      rintro ⟨⟩
      exact hne rfl
    by_cases hother : other = futex
    · by_cases hqueue : queue' = queue
      · subst hother hqueue
        simpa [HeapStore.setQueue, ListStore.setQueue] using hold
      · subst hother
        simpa [HeapStore.setQueue, ListStore.setQueue, hqueue] using
          hothers (by simp [hqueue])
    · simpa [HeapStore.setQueue, ListStore.setQueue, hother] using
        hothers (by simp [hother])
  case list =>
    intro task
    refine (hrep.list task).congr fun waiter hmem => hout waiter ?_
    simp [(hplaces.list task waiter).mp hmem]

omit [DecidableEq φ] [DecidableEq κ] [Fintype τ] in
/-- The handle lists of other tasks, when only the waiters of one handle list
change. -/
theorem setList (hrep : Represents concrete lists before)
    (hplaces : Places lists handle place) (task : τ)
    {heap : WaiterHeap τ κ} {list : WaiterList τ} {waiters : List τ}
    {link : Option τ}
    (hsame : SameOutside concrete.heap heap {waiter | waiter ∈ lists.list task})
    (hold : HoldsHandles heap list link waiters) :
    Represents { concrete with
        heap := heap
        list := Function.update concrete.list task list }
      { lists with list := Function.update lists.list task waiters }
      (Function.update before task link) := by
  have hout : ∀ waiter, place waiter ≠ .list task →
      heap waiter = concrete.heap waiter := by
    intro waiter hplace
    exact hsame.outside waiter fun hin =>
      hplace ((hplaces.list task waiter).mp hin)
  constructor
  case data => exact fun waiter => (hsame.data waiter).trans (hrep.data waiter)
  case inbox =>
    intro other
    refine (hrep.inbox other).congr fun waiter hmem => hout waiter ?_
    simp [(hplaces.inbox other waiter).mp hmem]
  case queues =>
    intro other queue
    refine (hrep.queues other queue).of_same fun waiter hmem => hout waiter ?_
    simp [(hplaces.queues other queue waiter).mp hmem]
  case list =>
    intro other
    by_cases hother : other = task
    · subst hother
      simpa using hold
    · simp only [Function.update_of_ne hother]
      refine (hrep.list other).congr fun waiter hmem => hout waiter ?_
      rw [(hplaces.list other waiter).mp hmem]
      simpa using hother

omit [DecidableEq τ] [DecidableEq φ] [DecidableEq κ] [Fintype τ] in
theorem unlisted_queue (hplaces : Places lists handle place) {futex : φ}
    {queue : κ} {waiter : τ} (hplace : (place waiter).Unlisted) :
    waiter ∉ lists.queues futex queue := by
  intro hmem
  rw [(hplaces.queues futex queue waiter).mp hmem] at hplace
  exact hplace

omit [DecidableEq τ] [DecidableEq φ] [DecidableEq κ] [Fintype τ] in
theorem unlisted_list (hplaces : Places lists handle place) {task waiter : τ}
    (hplace : (place waiter).Unlisted) : waiter ∉ lists.list task := by
  intro hmem
  rw [(hplaces.list task waiter).mp hmem] at hplace
  exact hplace

theorem pop (hrep : Represents concrete lists before)
    (hplaces : Places lists handle place) (futex : φ) (queue : κ) :
    (FutexStore.pop concrete futex queue).1 = (FutexStore.pop lists futex queue).1 ∧
      Represents (FutexStore.pop concrete futex queue).2
        (FutexStore.pop lists futex queue).2 before ∧
      (∀ waiter, (FutexStore.pop lists futex queue).1 = some waiter →
        Loose (FutexStore.pop concrete futex queue).2.heap waiter) ∧
      ∀ waiter, (place waiter).Unlisted →
        (FutexStore.pop concrete futex queue).2.heap waiter =
          concrete.heap waiter := by
  have hqueue := hrep.queues futex queue
  cases hcase : lists.queues futex queue with
  | nil =>
      rw [hcase] at hqueue
      have hset := hrep.setQueue hplaces futex queue
        (SameOutside.refl concrete.heap _) hqueue
      simp only [FutexStore.pop, WaiterList.popFront_nil hqueue, hcase,
        List.head?_nil, List.tail_nil]
      exact ⟨trivial, hset, by simp, fun _ _ => trivial⟩
  | cons waiter rest =>
      rw [hcase] at hqueue
      obtain ⟨heap, list, hpop, hrest, hnext, hprev, hsame⟩ :=
        WaiterList.popFront_spec hqueue
      rw [← hcase] at hsame
      have hset := hrep.setQueue hplaces futex queue hsame hrest
      simp only [FutexStore.pop, hpop, hcase, List.head?_cons, List.tail_cons]
      refine ⟨trivial, hset, ?_, ?_⟩
      · rintro other ⟨⟩
        exact ⟨hnext, hprev⟩
      · exact fun other hplace =>
          hsame.outside other (unlisted_queue hplaces hplace)

theorem popMany (hrep : Represents concrete lists before)
    (hplaces : Places lists handle place) {task : τ}
    (hlist : lists.list task = []) (hbefore : before task = none) (futex : φ)
    (count : ℕ) (queue : κ) :
    Represents (FutexStore.popMany concrete task futex count queue)
        (FutexStore.popMany lists task futex count queue) before ∧
      ∀ waiter, (place waiter).Unlisted →
        (FutexStore.popMany concrete task futex count queue).heap waiter =
          concrete.heap waiter := by
  obtain ⟨heap, kept, popped, hpop, hkept, hpopped, hsame⟩ :=
    WaiterList.popFrontMany_spec (hrep.queues futex queue) count
  have hset := hrep.setQueue hplaces futex queue hsame hkept
  simp only [FutexStore.popMany, hpop]
  constructor
  · refine ⟨hset.data, hset.inbox, hset.queues, fun other => ?_⟩
    by_cases hother : other = task
    · subst hother
      simpa [hbefore] using HoldsHandles.of_contains hpopped
    · simpa [hother, HeapStore.setQueue, ListStore.setQueue] using hset.list other
  · exact fun other hplace =>
      hsame.outside other (unlisted_queue hplaces hplace)

theorem listPop (hrep : Represents concrete lists before)
    (hplaces : Places lists handle place) {task : τ}
    (hbefore : before task = none) :
    (FutexStore.listPop concrete task).1 = (FutexStore.listPop lists task).1 ∧
      Represents (FutexStore.listPop concrete task).2
        (FutexStore.listPop lists task).2 before ∧
      (∀ waiter, (FutexStore.listPop lists task).1 = some waiter →
        Loose (FutexStore.listPop concrete task).2.heap waiter) ∧
      ∀ waiter, (place waiter).Unlisted →
        (FutexStore.listPop concrete task).2.heap waiter =
          concrete.heap waiter := by
  have hlist := hrep.list task
  rw [hbefore] at hlist
  have hupdate : Function.update before task none = before := by
    rw [← hbefore, Function.update_eq_self]
  have hcontains := hlist.contains (hplaces.listNodup task)
  cases hcase : lists.list task with
  | nil =>
      rw [hcase] at hcontains
      have hset := hrep.setList hplaces task
        (SameOutside.refl concrete.heap _) (HoldsHandles.of_contains hcontains)
      rw [hupdate] at hset
      simp only [FutexStore.listPop, WaiterList.popFront_nil hcontains, hcase,
        List.head?_nil, List.tail_nil]
      exact ⟨trivial, hset, by simp, fun _ _ => trivial⟩
  | cons waiter rest =>
      rw [hcase] at hcontains
      obtain ⟨heap, list, hpop, hrest, hnext, hprev, hsame⟩ :=
        WaiterList.popFront_spec hcontains
      rw [← hcase] at hsame
      have hset := hrep.setList hplaces task hsame (HoldsHandles.of_contains hrest)
      rw [hupdate] at hset
      simp only [FutexStore.listPop, hpop, hcase, List.head?_cons, List.tail_cons]
      refine ⟨trivial, hset, ?_, ?_⟩
      · rintro other ⟨⟩
        exact ⟨hnext, hprev⟩
      · exact fun other hplace =>
          hsame.outside other (unlisted_list hplaces hplace)

theorem listLink (hrep : Represents concrete lists before)
    (hplaces : Places lists handle place) {task : τ}
    (hne : lists.list task ≠ []) (link : Option τ) :
    Represents (FutexStore.listLink concrete task link)
        (FutexStore.listLink lists task link)
        (Function.update before task link) ∧
      ∀ waiter, (place waiter).Unlisted →
        (FutexStore.listLink concrete task link).heap waiter =
          concrete.heap waiter := by
  obtain ⟨head, rest, hcase⟩ := List.exists_cons_of_ne_nil hne
  have hlist := hrep.list task
  have hnodup := hplaces.listNodup task
  rw [hcase] at hlist hnodup
  have hhead : (concrete.list task).head = some head := hlist.head_eq
  have hsame : SameOutside concrete.heap (concrete.heap.setPrev head link)
      {waiter | waiter ∈ lists.list task} :=
    SameOutside.setPrev _ (by simp [hcase]) link
  have hset := hrep.setList hplaces task hsame
    ⟨hlist.head_eq, hlist.tail_eq,
      hlist.segment.setPrev_head (List.nodup_cons.mp hnodup).1 link⟩
  rw [Function.update_eq_self, ← hcase, Function.update_eq_self] at hset
  simp only [FutexStore.listLink, hhead]
  exact ⟨hset, fun waiter hplace =>
    hsame.outside waiter (unlisted_list hplaces hplace)⟩

theorem listPush (hrep : Represents concrete lists before) {futex : φ} {task : τ}
    (hne : lists.list task ≠ [])
    (hbefore : before task = (lists.inbox futex).head?) :
    Represents (FutexStore.listPush concrete futex task)
      (FutexStore.listPush lists futex task)
      (Function.update before task none) := by
  have hlist := hrep.list task
  rw [hbefore] at hlist
  constructor
  case data => exact hrep.data
  case inbox =>
    intro other
    by_cases hother : other = futex
    · subst hother
      have hstack := hlist.segment.stack_append (hrep.inbox other).stack
      have hlast : ((lists.list task).reverse ++ lists.inbox other).head? =
          (lists.list task).getLast? := by
        obtain ⟨last, hlast⟩ : ∃ last, (lists.list task).getLast? = some last :=
          ⟨_, List.getLast?_eq_some_getLast hne⟩
        simp [hlast]
      simp only [FutexStore.listPush, Function.update_self]
      refine ⟨hlist.tail_eq.trans hlast.symm, hstack, fun waiter hhead => ?_⟩
      rw [hlast] at hhead
      obtain ⟨init, hinit⟩ := List.getLast?_eq_some_iff.mp hhead
      have hseg := hlist.segment
      rw [hinit, segment_append] at hseg
      simpa using hseg.2.2.1
    · simpa [FutexStore.listPush, hother] using hrep.inbox other
  case queues => exact hrep.queues
  case list =>
    intro other
    by_cases hother : other = task
    · subst hother
      simpa [FutexStore.listPush] using
        (⟨rfl, rfl, trivial⟩ : HoldsHandles concrete.heap WaiterList.new none [])
    · simpa [FutexStore.listPush, hother] using hrep.list other

/-- The waiter is in a queue of the futex, or it is in no list and its links
are null. -/
theorem cancel (hrep : Represents concrete lists before)
    (hplaces : Places lists handle place) {futex : φ} {waiter : τ}
    (hplace : place waiter = .queue futex (lists.queue waiter) ∨
      place waiter = .nowhere ∧ Loose concrete.heap waiter) :
    Represents (FutexStore.cancel concrete futex waiter)
        (FutexStore.cancel lists futex waiter) before ∧
      ∀ other, other ≠ waiter → (place other).Unlisted →
        (FutexStore.cancel concrete futex waiter).heap other =
          concrete.heap other := by
  have hqueue := hrep.queues futex (lists.queue waiter)
  have hnodup := hplaces.queuesNodup futex (lists.queue waiter)
  simp only [FutexStore.cancel, hrep.data]
  rcases hplace with hplace | ⟨hplace, hnext, hprev⟩
  · have hmem := (hplaces.queues futex (lists.queue waiter) waiter).mpr hplace
    obtain ⟨first, after, hsplit⟩ := List.append_of_mem hmem
    have hnot : waiter ∉ first := by
      rw [hsplit, List.nodup_append] at hnodup
      exact fun hin => hnodup.2.2 waiter hin waiter List.mem_cons_self rfl
    have herase : (lists.queues futex (lists.queue waiter)).erase waiter =
        first ++ after := by
      rw [hsplit, List.erase_append_right _ hnot, List.erase_cons_head]
    rw [hsplit] at hqueue
    obtain ⟨hremoved, hsame⟩ := WaiterList.remove_spec hqueue
    have hsame' : SameOutside concrete.heap (WaiterList.remove concrete.heap
        (concrete.queues futex (lists.queue waiter)) waiter).1
          {other | other ∈ lists.queues futex (lists.queue waiter)} := by
      refine hsame.mono fun other hin => ?_
      rw [Set.mem_ofPred_eq, hsplit]
      rcases List.mem_append.mp hin with hin | hin
      · exact List.mem_append_left _ hin
      · exact List.mem_append_right _ (List.mem_cons_of_mem waiter hin)
    rw [herase]
    exact ⟨hrep.setQueue hplaces futex _ hsame' hremoved, fun other _ hother =>
      hsame'.outside other (unlisted_queue hplaces hother)⟩
  · have hnot : waiter ∉ lists.queues futex (lists.queue waiter) :=
      unlisted_queue hplaces (by simp [hplace, Place.Unlisted])
    rw [List.erase_of_not_mem hnot,
      WaiterList.remove_of_null hqueue hnot hnext hprev]
    exact ⟨hrep.setQueue hplaces futex _ (SameOutside.refl _ _) hqueue, fun _ _ _ => rfl⟩

end Represents

end AsyncMutex
