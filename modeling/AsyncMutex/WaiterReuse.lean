import AsyncMutex.WaiterLife

/-!
# Used waiters

As long as a waiter with a forgotten future is left alone until it is woken,
and a waiter that is waited on again has lost its next link, the pointers keep
holding the lists.  Then used waiters are as good as new ones.
-/

namespace AsyncMutex

open DoublyLinked

/-- Where a popped waiter leads to the tail of its own queue, the loop of
`RawFutex::enqueue` pops and pushes two waiters in turn. -/
theorem WaiterList.enqueueLoop_circular {τ κ : Type} [DecidableEq τ] [DecidableEq κ]
    (fuel : ℕ) {heap : WaiterHeap τ κ} {queues : κ → WaiterList τ} {list : WaiterList τ}
    {first second : τ} (hne : first ≠ second) (hhead : list.head = some first)
    (htail : list.tail = none ∨ list.tail = some first)
    (hnext : (heap first).next = some second) (hlast : (heap second).next = none)
    (hdata : (heap second).data = (heap first).data)
    (hqueue : (queues (heap first).data).tail = some second) :
    WaiterList.enqueueLoop fuel heap queues list = none := by
  induction fuel generalizing heap queues list first second with
  | zero => rfl
  | succ fuel ih =>
      have hpop : WaiterList.popFront heap list =
          ((heap.setPrev second none).setNext first none, ⟨some second, none⟩,
            some first) := by
        rcases htail with htail | htail <;>
          simp [WaiterList.popFront, hhead, htail, hnext]
      simp only [WaiterList.enqueueLoop, hpop, Heap.setNext_data, Heap.setPrev_data,
        WaiterList.pushBack, hqueue, reduceCtorEq, and_false, if_false]
      refine ih hne.symm rfl (Or.inl rfl) ?_ ?_ ?_ ?_
      · simp
      · simp [Heap.setNext_of_ne _ _ hne]
      · simp [hdata]
      · simp [hdata]

theorem WaiterList.enqueue_circular {τ κ : Type} [DecidableEq τ] [DecidableEq κ]
    (fuel : ℕ) {heap : WaiterHeap τ κ} {queues : κ → WaiterList τ} {stack : Option τ}
    {first second : τ} (hne : first ≠ second) (hstack : stack = some first)
    (hprev : (heap first).prev = none) (hnext : (heap first).next = some second)
    (hlast : (heap second).next = none) (hdata : (heap second).data = (heap first).data)
    (hqueue : (queues (heap first).data).tail = some second) :
    WaiterList.enqueue fuel heap queues stack = none := by
  subst hstack
  cases fuel with
  | zero => rfl
  | succ fuel =>
      have hloop := WaiterList.enqueueLoop_circular (fuel + 1) hne
        (rfl : (⟨some first, some first⟩ : WaiterList τ).head = some first) (Or.inr rfl)
        hnext hlast hdata hqueue
      simpa [WaiterList.enqueue, WaiterList.fromStack, WaiterList.fromStackLoop, hprev] using hloop

namespace Lives

variable {τ φ κ α ω : Type}

/-! ## The pointers of the waiters -/

/-- The pointers of `store` instead of the lists. -/
def withStore (lives : Lives (ListStore τ φ κ) τ φ α ω) (store : HeapStore τ φ κ) :
    Lives (HeapStore τ φ κ) τ φ α ω :=
  ⟨lives.world.withStore store, lives.alive, lives.leaked⟩

/-- What a step on the lists returns, next to what the same step on the
pointers returns. -/
inductive Matched :
    Option (Lives (ListStore τ φ κ) τ φ α ω × Option (Resp τ α) × List (Event τ φ ω)) →
      Option (Lives (HeapStore τ φ κ) τ φ α ω × Option (Resp τ α) ×
        List (Event τ φ ω)) → Prop
  | blocked : Matched none none
  | stepped {lives : Lives (ListStore τ φ κ) τ φ α ω} {store : HeapStore τ φ κ}
      {resp : Option (Resp τ α)} {events : List (Event τ φ ω)}
      (hrep : lives.world.RepresentedBy store) :
      Matched (some (lives, resp, events)) (some (lives.withStore store, resp, events))

theorem Matched.guard {condition : Prop} [Decidable condition]
    {abstract : Option (Lives (ListStore τ φ κ) τ φ α ω × Option (Resp τ α) ×
      List (Event τ φ ω))}
    {concrete : Option (Lives (HeapStore τ φ κ) τ φ α ω × Option (Resp τ α) ×
      List (Event τ φ ω))}
    (htrue : condition → Matched abstract concrete) :
    Matched (if condition then abstract else none)
      (if condition then concrete else none) := by
  by_cases hcondition : condition
  · rw [if_pos hcondition, if_pos hcondition]
    exact htrue hcondition
  · rw [if_neg hcondition, if_neg hcondition]
    exact .blocked

variable [DecidableEq τ]

/-- `ready` makes a used waiter ready to be waited on again. -/
def Readies (ready : HeapWorld τ φ κ α ω → τ → HeapWorld τ φ κ α ω)
    (world : ListWorld τ φ κ α ω) (store : HeapStore τ φ κ) (task : τ) : Prop :=
  ∃ store', (reuse world task).RepresentedBy store' ∧
    ready (world.withStore store) task = (reuse world task).withStore store'

variable [DecidableEq φ] [DecidableEq κ] [DecidableEq α] [DecidableEq ω] [Fintype τ]

section Matches

variable {lives : Lives (ListStore τ φ κ) τ φ α ω} {store : HeapStore τ φ κ} {task : τ}

omit [DecidableEq φ] [DecidableEq κ] [DecidableEq α] [DecidableEq ω] [Fintype τ] in
theorem readies_reuse (hrep : lives.world.RepresentedBy store)
    (hnext : (store.heap task).next = none) :
    Readies reuse lives.world store task := by
  refine ⟨store, ⟨hrep.lists, fun other henter => ?_, hrep.hand, fun other hwaits => ?_⟩, rfl⟩
  · by_cases hother : other = task
    · exact hother ▸ hnext
    · exact hrep.fresh other (by simpa [reuse, hother] using henter)
  · by_cases hother : other = task
    · simp [reuse, hother, Phase.Waits] at hwaits
    · exact hrep.woken other (by simpa [reuse, hother] using hwaits)

omit [DecidableEq α] [DecidableEq ω] in
/-- A new waiter in the place of one that no list holds. -/
theorem represented_renew {world : ListWorld τ φ κ α ω} {store : HeapStore τ φ κ}
    {place : τ → Place τ φ κ} (hinv : World.Inv world place)
    (hrep : world.RepresentedBy store) {task : τ} (hfree : place task = .nowhere) :
    ((world.setWaker task .none).setPhase task .enter).RepresentedBy
      (FutexStore.renew store task (store.heap task).data) := by
  obtain ⟨before, hlists, hbefore⟩ := hrep.lists
  have hrenew := hlists.renew hinv.places hfree (world.store.queue task)
  have hsame : FutexStore.renew world.store task (world.store.queue task) = world.store := by
    simp [FutexStore.renew]
  rw [hsame, ← hlists.data] at hrenew
  refine ⟨⟨before, hrenew, hbefore⟩, fun other henter => ?_,
    fun notifier waiter hhandle => ?_, fun other hwaits hdone => ?_⟩
  · by_cases hother : other = task
    · simp [hother, FutexStore.renew]
    · simpa [hother, FutexStore.renew] using
        hrep.fresh other (by simpa [hother] using henter)
  · have hne : waiter ≠ task := by
      rintro rfl
      have hplace := (hinv.places.hand notifier waiter).mp hhandle
      rw [hfree] at hplace
      cases hplace
    simpa [Loose, hne, FutexStore.renew] using hrep.hand notifier waiter hhandle
  · by_cases hother : other = task
    · simp [hother] at hdone
    · simpa [Loose, hother, FutexStore.renew] using
        hrep.woken other (by simpa [hother] using hwaits) (by simpa [hother] using hdone)

omit [DecidableEq α] [DecidableEq ω] in
theorem readies_renew (hgood : lives.Good) (hrested : lives.Rested)
    (hrep : lives.world.RepresentedBy store)
    (hidle : lives.world.phase task = .idle) (hdone : lives.world.waker task ≠ .done) :
    Readies renew lives.world store task := by
  obtain ⟨place, hinv⟩ := hgood.placed
  have hfree : place task = .nowhere := hinv.nowhere (by simp [hidle, Phase.Waits])
  have hnone : lives.world.waker task = .none := by
    cases hwaker : lives.world.waker task with
    | none => rfl
    | waiting waker => exact absurd hwaker (hrested task hidle waker)
    | done => exact absurd hwaker hdone
  have hsame : (lives.world.setWaker task .none).setPhase task .enter =
      reuse lives.world task := by
    have hwaker : Function.update lives.world.waker task .none = lives.world.waker := by
      rw [← hnone, Function.update_eq_self]
    simp only [reuse, World.setWaker, World.setPhase, hwaker]
  have hrenew := represented_renew hinv hrep hfree
  rw [hsame] at hrenew
  refine ⟨_, hrenew, ?_⟩
  rw [← hsame]
  rfl

theorem stepWorld_refined (hgood : lives.Good) (hrep : lives.world.RepresentedBy store)
    (task : τ) (act : Act τ φ κ α ω) :
    World.Refined (lives.stepWorld task act) ((lives.withStore store).stepWorld task act) := by
  obtain ⟨place, hinv⟩ := hgood.placed
  refine .ite (fun _ => ?_) fun _ => hrep.step hinv task act
  cases act with
  | call op spurious waker =>
      exact .ite (fun hbusy => hrep.call hinv hbusy op spurious waker) fun _ => .blocked
  | step spurious => exact hrep.busyStep hinv task spurious
  | poll waker => exact .blocked
  | drop => exact .blocked

theorem wait_matched (hgood : lives.Good) (hrep : lives.world.RepresentedBy store)
    (task : τ) (act : Act τ φ κ α ω) :
    Matched (lives.wait task act) ((lives.withStore store).wait task act) := by
  have hrefined := stepWorld_refined hgood hrep task act
  unfold Lives.wait
  generalize lives.stepWorld task act = abstract at hrefined
  generalize (lives.withStore store).stepWorld task act = concrete at hrefined
  cases hrefined with
  | blocked => exact .blocked
  | stepped hrep' => exact .stepped hrep'

theorem create_matched (hgood : lives.Good) (hrep : lives.world.RepresentedBy store)
    (task : τ) (futex : φ) (queue : κ) (spurious : Bool) (waker : ω) :
    Matched (lives.create task futex queue spurious waker)
      ((lives.withStore store).create task futex queue spurious waker) := by
  obtain ⟨place, hinv⟩ := hgood.placed
  have hrefined := hrep.step hinv task (.call (.waiter futex queue) spurious waker)
  unfold Lives.create
  by_cases halive : lives.alive task
  · simp only [withStore, halive, if_true]
    exact .blocked
  · simp only [withStore, halive, if_false, Bool.false_eq_true]
    generalize lives.world.step task _ = abstract at hrefined ⊢
    generalize (lives.world.withStore store).step task _ = concrete at hrefined ⊢
    cases hrefined with
    | blocked => exact .blocked
    | stepped hrep' =>
        have hlives : (⟨_, Function.update lives.alive task true, lives.leaked⟩ :
            Lives (ListStore τ φ κ) τ φ α ω).world.RepresentedBy _ := hrep'
        exact .stepped hlives

theorem again_matched {ready : HeapWorld τ φ κ α ω → τ → HeapWorld τ φ κ α ω}
    (hgood : lives.Good) (hrep : lives.world.RepresentedBy store) (task : τ)
    (current : FutexAtom τ α)
    (hleaked : lives.leaked task = true → lives.world.waker task = .done)
    (hready : lives.world.phase task = .idle → lives.world.waker task ≠ .done →
      Readies ready lives.world store task) :
    Matched (lives.again reuse task current)
      ((lives.withStore store).again ready task current) := by
  obtain ⟨place, hinv⟩ := hgood.placed
  refine .guard fun hguard => ?_
  by_cases hdone : lives.world.waker task = .done
  · have hphase : lives.leaked task = true ∨ lives.world.phase task = .idle ∨
        lives.world.phase task = .enter := by
      rcases hguard.2.2 with hleak | hidle
      · exact Or.inl hleak
      · exact Or.inr (Or.inl hidle)
    obtain ⟨hnowhere, hwrites⟩ := hgood.nowhere hinv hphase hleaked
    have hidle : World.Inv (lives.world.setPhase task .idle) place := by
      refine hinv.setPhase hwrites.symm ?_
      rw [hnowhere]
      exact TaskInv.idle _ _
    have hset : (lives.world.setPhase task .idle).RepresentedBy store :=
      hrep.setPhase (by simp) (by simp [Phase.Waits])
    have hwaits : ¬ ((lives.world.setPhase task .idle).phase task).Waits := by
      simp [Phase.Waits]
    have hlives : (⟨lives.world.setPhase task .idle, lives.alive,
        Function.update lives.leaked task false⟩ :
          Lives (ListStore τ φ κ) τ φ α ω).world.RepresentedBy _ :=
      hset.setPrev hidle hwaits current.inbox
    simp only [withStore, World.withStore_waker, hdone]
    exact .stepped hlives
  · have hidle : lives.world.phase task = .idle :=
      hguard.2.2.resolve_left fun hleak => hdone (hleaked hleak)
    obtain ⟨store', hrep', heq⟩ := hready hidle hdone
    have hlives : (⟨reuse lives.world task, lives.alive,
        Function.update lives.leaked task false⟩ :
          Lives (ListStore τ φ κ) τ φ α ω).world.RepresentedBy _ := hrep'
    cases hwaker : lives.world.waker task with
    | done => exact absurd hwaker hdone
    | none =>
        simp only [withStore, World.withStore_waker, hwaker, heq]
        exact .stepped hlives
    | waiting waker =>
        simp only [withStore, World.withStore_waker, hwaker, heq]
        exact .stepped hlives

omit [DecidableEq κ] [Fintype τ] in
theorem forget_matched (hrep : lives.world.RepresentedBy store) (task : τ) :
    Matched (lives.forget task) ((lives.withStore store).forget task) := by
  refine .guard fun _ => ?_
  have hlives : (⟨lives.world, lives.alive, Function.update lives.leaked task true⟩ :
      Lives (ListStore τ φ κ) τ φ α ω).world.RepresentedBy store := hrep
  exact .stepped hlives

omit [DecidableEq κ] [Fintype τ] in
theorem dropWaiter_matched (hrep : lives.world.RepresentedBy store) (task : τ) :
    Matched (lives.dropWaiter task) ((lives.withStore store).dropWaiter task) := by
  refine .guard fun _ => ?_
  have hlives : (⟨(lives.world.setWaker task .none).setPhase task .idle,
      Function.update lives.alive task false, Function.update lives.leaked task false⟩ :
        Lives (ListStore τ φ κ) τ φ α ω).world.RepresentedBy store :=
    hrep.setFuture (by simp) (by simp)
  exact .stepped hlives

/-- Each step of the pointers is the same step of the lists. -/
theorem step_matched {ready : HeapWorld τ φ κ α ω → τ → HeapWorld τ φ κ α ω}
    (hgood : lives.Good) (hrep : lives.world.RepresentedBy store)
    (task : τ) (use : Use τ φ κ α ω)
    (hleaked : (∃ current, use = .again current) ∨ use = .dropWaiter →
      lives.leaked task = true → lives.world.waker task = .done)
    (hready : ∀ current, use = .again current → lives.world.phase task = .idle →
      lives.world.waker task ≠ .done → Readies ready lives.world store task) :
    Matched (lives.step reuse task use) ((lives.withStore store).step ready task use) := by
  unfold Lives.step
  split
  · exact create_matched hgood hrep task _ _ _ _
  · exact wait_matched hgood hrep task _
  · exact again_matched hgood hrep task _ (hleaked (Or.inl ⟨_, rfl⟩)) (hready _ rfl)
  · exact forget_matched hrep task
  · exact dropWaiter_matched hrep task

end Matches

variable {queue : κ} {atom : φ → α} {futex : φ}

omit [DecidableEq τ] [DecidableEq φ] [DecidableEq κ] [DecidableEq α] [DecidableEq ω] [Fintype τ] in
theorem Careful.of_leaked {lives : Lives (HeapStore τ φ κ) τ φ α ω} {task : τ}
    {use : Use τ φ κ α ω} (hcareful : lives.Careful (task, use))
    (huse : (∃ current, use = .again current) ∨ use = .dropWaiter)
    (hleaked : lives.leaked task = true) : lives.world.waker task = .done := by
  rcases huse with ⟨current, rfl⟩ | rfl
  · rcases hcareful with hdone | ⟨hnot, -⟩
    · exact hdone
    · exact absurd hleaked hnot
  · exact hcareful hleaked

/-- The lists that a run of the code holds are those of a run with new
waiters. -/
structure Mirrors (lives fresh : Lives (HeapStore τ φ κ) τ φ α ω)
    (lists : Lives (ListStore τ φ κ) τ φ α ω) : Prop where
  good : lists.Good
  rested : lists.Rested
  lives : ∃ store, lists.world.RepresentedBy store ∧ lives = lists.withStore store
  fresh : ∃ store, lists.world.RepresentedBy store ∧ fresh = lists.withStore store

theorem Mirrors.step {lives fresh : Lives (HeapStore τ φ κ) τ φ α ω}
    {lists : Lives (ListStore τ φ κ) τ φ α ω} (hmirrors : Mirrors lives fresh lists)
    {task : τ} {use : Use τ φ κ α ω} (hcareful : lives.Careful (task, use)) :
    Matched (lists.step reuse task use) (lives.step reuse task use) ∧
      Matched (lists.step reuse task use) (fresh.step renew task use) := by
  obtain ⟨hgood, hrested, ⟨store, hrep, rfl⟩, store', hrep', rfl⟩ := hmirrors
  refine ⟨step_matched hgood hrep task use hcareful.of_leaked ?_,
    step_matched hgood hrep' task use hcareful.of_leaked ?_⟩
  · rintro current rfl hidle hdone
    rcases hcareful with hwoken | ⟨-, hnext⟩
    · exact absurd hwoken hdone
    · exact readies_reuse hrep hnext
  · rintro current rfl hidle hdone
    exact readies_renew hgood hrested hrep' hidle hdone

theorem mirrors_of_trace {history : List (Report τ φ κ α ω)}
    {lives : Lives (HeapStore τ φ κ) τ φ α ω}
    (htrace : ((Reusing queue atom futex).restrict Careful).Trace history lives) :
    ∃ fresh lists, (Renewing queue atom futex).Trace history fresh ∧
      Mirrors lives fresh lists := by
  refine htrace.invariant
    (motive := fun history lives => ∃ fresh lists,
      (Renewing queue atom futex).Trace history fresh ∧ Mirrors lives fresh lists)
    ⟨_, _, Machine.trace_init _, Good.initial queue atom futex, Rested.initial queue atom futex,
      ⟨_, World.RepresentedBy.initial queue atom futex, rfl⟩,
      ⟨_, World.RepresentedBy.initial queue atom futex, rfl⟩⟩ ?_
  rintro history lives ⟨task, use⟩ next reports - ⟨fresh, lists, hfresh, hmirrors⟩ hnext
  rw [Machine.restrict_next] at hnext
  obtain ⟨hcareful, hnext⟩ := hnext
  obtain ⟨hlives, hrenewed⟩ := hmirrors.step hcareful
  simp only [machine, Option.map_eq_some_iff] at hnext
  obtain ⟨⟨lives', resp, events⟩, hstep, heq⟩ := hnext
  cases heq
  rw [hstep] at hlives
  generalize hlists : lists.step reuse task use = abstract at hlives hrenewed
  cases hlives with
  | stepped hrep =>
      generalize hrenew : fresh.step renew task use = concrete at hrenewed
      cases hrenewed with
      | stepped hrep' =>
          refine ⟨_, _, hfresh.step (machine_next hrenew),
            hmirrors.good.step (fun huse hleaked => ?_) hlists,
            hmirrors.rested.step hmirrors.good hlists, ⟨_, hrep, rfl⟩, ⟨_, hrep', rfl⟩⟩
          obtain ⟨-, -, ⟨store, -, rfl⟩, -⟩ := hmirrors
          exact hcareful.of_leaked huse hleaked

/-! ## Used waiters are as good as new ones -/

/-- The outcome of the first poll of a future, up to the ghost of the last
waker. -/
def seen (outcome : Outcome (HeapStore τ φ κ) τ φ α ω) (task : τ) :
    ListWorld τ φ κ α ω × Option (Resp τ α) :=
  (outcome.world.lists.setLastWaker task none, outcome.resp)

/-- Where `lives` comes from used waiters and `fresh` from new ones. -/
structure SameAsFresh (lives fresh : Lives (HeapStore τ φ κ) τ φ α ω) : Prop where
  lists : lives.world.lists = fresh.world.lists
  alive : lives.alive = fresh.alive
  leaked : lives.leaked = fresh.leaked
  /-- The same steps are enabled, with the same effects. -/
  step : ∀ task use, lives.Careful (task, use) →
    (lives.step reuse task use).map (fun result => (result.1.world.lists, result.2)) =
      (fresh.step renew task use).map fun result => (result.1.world.lists, result.2)
  /-- Every later `flip` or `cmpxchg_enqueue_weak` ends, with the same queues. -/
  enqueue : ∀ futex, ∃ store store',
    FutexStore.enqueue lives.world.store futex = some store ∧
      FutexStore.enqueue fresh.world.store futex = some store' ∧
      FutexStore.enqueue lives.world.store.lists futex = some store.lists ∧
      store.lists = store'.lists
  /-- Every waiter is in one place, and there once. -/
  once : ∃ place, Places lives.world.store.lists lives.world.handle place
  /-- A waiter whose attempts failed does what a new one does, for a poll that
  brings the registered waker. -/
  attempt : ∀ task futex current new spurious waker,
    lives.world.phase task = .enter → lives.world.owner task = futex →
      lives.world.waker task = .none ∨ lives.world.waker task = .waiting waker →
        (lives.world.pollEnter task futex current new spurious waker).map (seen · task) =
            ((renew lives.world task).pollEnter task futex current new spurious
              waker).map (seen · task) ∧
          ∀ outcome,
            lives.world.pollEnter task futex current new spurious waker = some outcome →
              outcome.resp = some .success → outcome.world.waker task = .waiting waker

omit [DecidableEq τ] [DecidableEq φ] [DecidableEq κ] [DecidableEq α] [DecidableEq ω] in
theorem Matched.map_lists
    {abstract : Option (Lives (ListStore τ φ κ) τ φ α ω × Option (Resp τ α) ×
      List (Event τ φ ω))}
    {concrete : Option (Lives (HeapStore τ φ κ) τ φ α ω × Option (Resp τ α) ×
      List (Event τ φ ω))}
    (hmatched : Matched abstract concrete)
    (hgood : ∀ result, abstract = some result → result.1.Good) :
    concrete.map (fun result => (result.1.world.lists, result.2)) =
      abstract.map fun result => (result.1.world, result.2) := by
  cases hmatched with
  | blocked => rfl
  | stepped hrep =>
      obtain ⟨place, hinv⟩ := (hgood _ rfl).placed
      simp only [Option.map_some, withStore, hrep.lists_eq hinv]

omit [DecidableEq α] [DecidableEq ω] in
theorem Mirrors.enqueue {lives fresh : Lives (HeapStore τ φ κ) τ φ α ω}
    {lists : Lives (ListStore τ φ κ) τ φ α ω} (hmirrors : Mirrors lives fresh lists)
    (futex : φ) : ∃ store store',
      FutexStore.enqueue lives.world.store futex = some store ∧
        FutexStore.enqueue fresh.world.store futex = some store' ∧
        FutexStore.enqueue lives.world.store.lists futex = some store.lists ∧
        store.lists = store'.lists := by
  obtain ⟨hgood, -, ⟨store, hrep, rfl⟩, store', hrep', rfl⟩ := hmirrors
  obtain ⟨place, hinv⟩ := hgood.placed
  obtain ⟨after, hafter⟩ : ∃ after, FutexStore.enqueue lists.world.store futex = some after :=
    ⟨_, rfl⟩
  have hplaces := (hinv.enqueue hafter).places
  obtain ⟨before, hlists, -⟩ := hrep.lists
  obtain ⟨before', hlists', -⟩ := hrep'.lists
  obtain ⟨heap, hheap, hrepresents, -⟩ := hlists.enqueue hinv.places hafter
  obtain ⟨heap', hheap', hrepresents', -⟩ := hlists'.enqueue hinv.places hafter
  refine ⟨heap, heap', hheap, hheap', ?_, ?_⟩
  · rw [hrepresents.lists_eq hplaces, ← hafter]
    exact congrArg (FutexStore.enqueue · futex) (hlists.lists_eq hinv.places)
  · rw [hrepresents.lists_eq hplaces, hrepresents'.lists_eq hplaces]

/-- A first poll with `waker`, up to the ghost of the last waker. -/
def attempted (world : ListWorld τ φ κ α ω) (task : τ) (futex : φ)
    (current : FutexAtom τ α) (new : α) (spurious : Bool) (waker : ω) :
    ListWorld τ φ κ α ω × Option (Resp τ α) :=
  let registered :=
    ((world.setWaker task (.waiting waker)).setPhase task .enter).setLastWaker task none
  if world.word futex = current ∧ spurious = false then
    ({ (registered.setAtom futex new).setPhase task .entered with
      store := FutexStore.push world.store futex task }, some .success)
  else (registered, some (.failure (world.word futex)))

omit [Fintype τ] in
theorem pollEnter_attempted {world : ListWorld τ φ κ α ω} {task : τ} {futex : φ} {waker : ω}
    (henter : world.phase task = .enter) (howner : world.owner task = futex)
    (hwaker : world.waker task = .none ∨ world.waker task = .waiting waker)
    (current : FutexAtom τ α) (new : α) (spurious : Bool) :
    (world.pollEnter task futex current new spurious waker).map (fun outcome =>
        (outcome.world.setLastWaker task none, outcome.resp)) =
      some (attempted world task futex current new spurious waker) := by
  have hphase : Function.update world.phase task .enter = world.phase := by
    rw [← henter, Function.update_eq_self]
  have hsetPrev : FutexStore.setPrev world.store task current.inbox = world.store := rfl
  unfold World.pollEnter attempted
  rw [if_neg (not_not.mpr henter), if_neg (not_not.mpr howner)]
  rcases hwaker with hnone | hwaiting
  · simp only [hnone, hsetPrev]
    by_cases hnow : world.word futex = current ∧ spurious = false
    · simp only [if_pos hnow, Option.map_some, World.setWaker, World.setPhase,
        World.setLastWaker, World.setAtom, Function.update_idem]
    · simp only [if_neg hnow, Option.map_some, World.setWaker, World.setPhase,
        World.setLastWaker, Function.update_idem, hphase]
  · have hself : Function.update world.waker task (.waiting waker) = world.waker := by
      rw [← hwaiting, Function.update_eq_self]
    simp only [hwaiting, hsetPrev]
    by_cases hnow : world.word futex = current ∧ spurious = false
    · simp only [if_pos hnow, Option.map_some, World.setWaker, World.setPhase,
        World.setLastWaker, World.setAtom, Function.update_idem, hself]
    · simp only [if_neg hnow, Option.map_some, World.setWaker, World.setPhase,
        World.setLastWaker, hphase, hself]

/-- The same first poll on the pointers. -/
theorem seen_pollEnter {world : ListWorld τ φ κ α ω} {store : HeapStore τ φ κ}
    {place : τ → Place τ φ κ} (hinv : World.Inv world place)
    (hrep : world.RepresentedBy store) {task : τ} {futex : φ} {waker : ω}
    (henter : world.phase task = .enter) (howner : world.owner task = futex)
    (hwaker : world.waker task = .none ∨ world.waker task = .waiting waker)
    (current : FutexAtom τ α) (new : α) (spurious : Bool) :
    ((world.withStore store).pollEnter task futex current new spurious waker).map
        (seen · task) =
      some (attempted world task futex current new spurious waker) := by
  have hlists := pollEnter_attempted henter howner hwaker current new spurious
  have hrefined := hrep.pollEnter hinv task futex current new spurious waker
  generalize habstract : world.pollEnter task futex current new spurious waker = abstract
    at hlists hrefined
  generalize (world.withStore store).pollEnter task futex current new spurious waker =
    concrete at hrefined ⊢
  cases hrefined with
  | blocked => cases hlists
  | stepped hrep' =>
      obtain ⟨place', hinv'⟩ := hinv.pollEnter habstract
      rw [← hlists]
      simp only [Option.map_some, seen, hrep'.lists_eq hinv']

omit [DecidableEq ω] [Fintype τ] in
theorem attempted_renewed (world : ListWorld τ φ κ α ω) (task : τ) (futex : φ)
    (current : FutexAtom τ α) (new : α) (spurious : Bool) (waker : ω) :
    attempted ((world.setWaker task .none).setPhase task .enter) task futex current new
        spurious waker =
      attempted world task futex current new spurious waker := by
  have hregistered :
      (((world.setWaker task .none).setPhase task .enter).setWaker task
          (.waiting waker)).setPhase task .enter =
        (world.setWaker task (.waiting waker)).setPhase task .enter := by
    simp only [World.setWaker, World.setPhase, Function.update_idem]
  unfold attempted
  rw [hregistered]
  rfl

omit [DecidableEq ω] [Fintype τ] in
theorem attempted_waker (world : ListWorld τ φ κ α ω) (task : τ) (futex : φ)
    (current : FutexAtom τ α) (new : α) (spurious : Bool) (waker : ω) :
    (attempted world task futex current new spurious waker).1.waker task =
      .waiting waker := by
  unfold attempted
  split <;> simp

theorem Mirrors.sameAsFresh {lives fresh : Lives (HeapStore τ φ κ) τ φ α ω}
    {lists : Lives (ListStore τ φ κ) τ φ α ω} (hmirrors : Mirrors lives fresh lists) :
    SameAsFresh lives fresh where
  lists := by
    obtain ⟨hgood, -, ⟨store, hrep, rfl⟩, store', hrep', rfl⟩ := hmirrors
    obtain ⟨place, hinv⟩ := hgood.placed
    exact (hrep.lists_eq hinv).trans (hrep'.lists_eq hinv).symm
  alive := by
    obtain ⟨-, -, ⟨store, -, rfl⟩, store', -, rfl⟩ := hmirrors
    rfl
  leaked := by
    obtain ⟨-, -, ⟨store, -, rfl⟩, store', -, rfl⟩ := hmirrors
    rfl
  step task use hcareful := by
    obtain ⟨hlives, hfresh⟩ := hmirrors.step hcareful
    have hgood (result) (hstep : lists.step reuse task use = some result) :
        result.1.Good := by
      refine hmirrors.good.step (fun huse hleaked => ?_) hstep
      obtain ⟨-, -, ⟨store, -, rfl⟩, -⟩ := hmirrors
      exact hcareful.of_leaked huse hleaked
    rw [hlives.map_lists hgood, hfresh.map_lists hgood]
  enqueue := hmirrors.enqueue
  once := by
    obtain ⟨hgood, -, ⟨store, hrep, rfl⟩, -⟩ := hmirrors
    obtain ⟨place, hinv⟩ := hgood.placed
    obtain ⟨before, hlists, -⟩ := hrep.lists
    refine ⟨place, ?_⟩
    have hplaces := hinv.places
    rw [← hlists.lists_eq hinv.places] at hplaces
    exact hplaces
  attempt task futex current new spurious waker henter howner hwaker := by
    obtain ⟨hgood, -, ⟨store, hrep, rfl⟩, -⟩ := hmirrors
    obtain ⟨place, hinv⟩ := hgood.placed
    have hfree : place task = .nowhere := by
      refine hinv.nowhere ?_
      have henter' : lists.world.phase task = .enter := henter
      simp [henter', Phase.Waits]
    have hinv' : World.Inv ((lists.world.setWaker task .none).setPhase task .enter) place := by
      refine hinv.setFuture ?_ ?_
      · have henter' : lists.world.phase task = .enter := henter
        rw [henter']
      · rw [hfree]
        constructor <;> simp [Phase.Waits, Phase.flips, Phase.Live]
    have hused := seen_pollEnter hinv hrep henter howner hwaker current new spurious
    have hnew : ((renew (lists.world.withStore store) task).pollEnter task futex current new
        spurious waker).map (seen · task) = some _ :=
      seen_pollEnter hinv' (represented_renew hinv hrep hfree) (by simp) howner (by simp)
        current new spurious
    refine ⟨?_, fun outcome houtcome _ => ?_⟩
    · rw [attempted_renewed, ← hused] at hnew
      exact hnew.symm
    · have hseen : seen outcome task = attempted lists.world task futex current new spurious
          waker := by
        rw [withStore] at houtcome
        rw [houtcome] at hused
        simpa using hused
      have hsame := attempted_waker lists.world task futex current new spurious waker
      rw [← hseen] at hsame
      exact hsame

/-- Every run that is careful with its used waiters is a run in which they are
new. -/
theorem sameAsFresh_of_trace {history : List (Report τ φ κ α ω)}
    {lives : Lives (HeapStore τ φ κ) τ φ α ω}
    (htrace : ((Reusing queue atom futex).restrict Careful).Trace history lives) :
    ∃ fresh, (Renewing queue atom futex).Trace history fresh ∧ SameAsFresh lives fresh := by
  obtain ⟨fresh, lists, hfresh, hmirrors⟩ := mirrors_of_trace htrace
  exact ⟨fresh, hfresh, hmirrors.sameAsFresh⟩

theorem sameAsFresh_of_cancel :
    ∃ lives fresh : Lives (HeapStore (Fin 2) Unit Unit) (Fin 2) Unit Unit Bool,
      lives.world.phase 0 = .pending ∧ lives.world.store.inbox () = some 0 ∧
        SameAsFresh lives fresh := by
  let machine : Machine (Lives (HeapStore (Fin 2) Unit Unit) (Fin 2) Unit Unit Bool)
      (Fin 2 × Use (Fin 2) Unit Unit Unit Bool) (Report (Fin 2) Unit Unit Unit Bool) :=
    (Reusing () (fun _ => ()) ()).restrict Careful
  have htrace : machine.Trace _ _ :=
    ⟨[(0, .act (.call (.waiter () ()) false false)),
      (0, .act (.call (.cmpxchgWaitWeak () ⟨(), none⟩ ()) false false)),
      (0, .act (.call .pending false false)), (0, .act .drop), (0, .act (.step false)),
      (0, .act (.step false)), (0, .act (.step false)), (0, .act (.step false)),
      (0, .act (.step false)), (0, .act (.step false)), (0, .act (.step false)),
      (0, .again ⟨(), none⟩),
      (0, .act (.call (.cmpxchgWaitWeak () ⟨(), none⟩ ()) false true)),
      (0, .act (.call .pending false false))], rfl⟩
  obtain ⟨fresh, -, hsame⟩ := sameAsFresh_of_trace htrace
  exact ⟨_, fresh, rfl, rfl, hsame⟩

/-- Two waiters wait; the first one is cancelled asleep and waits again: its
next link still leads to the second one, and the next enqueue does not end.
And a waiter keeps the waker of the poll whose attempt failed. -/
theorem endless_of_cancel :
    (∃ (history : List (Report (Fin 2) Unit Unit Unit Bool))
      (lives fresh : Lives (HeapStore (Fin 2) Unit Unit) (Fin 2) Unit Unit Bool),
      (Reusing () (fun _ => ()) ()).Trace history lives ∧
        (Renewing () (fun _ => ()) ()).Trace history fresh ∧
        history.flatMap Report.events =
          [.created 0, .created 1, .wakerCloned false, .entered 0 (), .wakerCloned false,
            .entered 1 (), .wakerDropped false, .cancelSleeping 0, .wakerCloned false,
            .entered 0 ()] ∧
        (∀ fuel, WaiterList.enqueue fuel lives.world.store.heap
          (lives.world.store.queues ()) (lives.world.store.inbox ()) = none) ∧
        (FutexStore.enqueue fresh.world.store ()).isSome) ∧
    ∃ (history : List (Report (Fin 2) Unit Unit Unit Bool))
      (lives : Lives (HeapStore (Fin 2) Unit Unit) (Fin 2) Unit Unit Bool),
      (Reusing () (fun _ => ()) ()).Trace history lives ∧
        history.map Report.use =
          [.act (.call (.waiter () ()) false false),
            .act (.call (.cmpxchgWaitWeak () ⟨(), none⟩ ()) true false),
            .act (.call (.cmpxchgWaitWeak () ⟨(), none⟩ ()) false true),
            .act (.call .pending false true)] ∧
        lives.world.phase 0 = .pending ∧ lives.world.waker 0 = .waiting false := by
  constructor
  · let labels : List (Fin 2 × Use (Fin 2) Unit Unit Unit Bool) :=
      [(0, .act (.call (.waiter () ()) false false)),
        (1, .act (.call (.waiter () ()) false false)),
        (0, .act (.call (.cmpxchgWaitWeak () ⟨(), none⟩ ()) false false)),
        (0, .act (.call .pending false false)),
        (1, .act (.call (.cmpxchgWaitWeak () ⟨(), some 0⟩ ()) false false)),
        (1, .act (.call .pending false false)), (0, .act .drop), (0, .act (.step false)),
        (0, .act (.step false)), (0, .act (.step false)), (0, .act (.step false)),
        (0, .act (.step false)), (0, .act (.step false)), (0, .act (.step false)),
        (0, .again ⟨(), none⟩),
        (0, .act (.call (.cmpxchgWaitWeak () ⟨(), none⟩ ()) false false)),
        (0, .act (.call .pending false false))]
    refine ⟨_, _, _, ⟨labels, rfl⟩, ⟨labels, rfl⟩, rfl, fun fuel => ?_, rfl⟩
    exact WaiterList.enqueue_circular fuel (by decide : (0 : Fin 2) ≠ 1) rfl rfl rfl rfl rfl
      rfl
  · exact ⟨_, _, ⟨[(0, .act (.call (.waiter () ()) false false)),
      (0, .act (.call (.cmpxchgWaitWeak () ⟨(), none⟩ ()) true false)),
      (0, .act (.call (.cmpxchgWaitWeak () ⟨(), none⟩ ()) false true)),
      (0, .act (.call .pending false true))], rfl⟩, rfl, rfl, rfl⟩

end Lives

end AsyncMutex
