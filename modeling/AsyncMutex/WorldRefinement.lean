import AsyncMutex.StoreRefinement
import AsyncMutex.WorldSteps

/-!
# The pointers refine the lists

A world of pointers steps exactly as the world of lists that it holds: the
same steps are enabled, with the same responses and the same history.  Every
invariant of the lists therefore holds of the pointers.
-/

namespace AsyncMutex

open DoublyLinked

abbrev HeapWorld (τ φ κ α ω : Type) := World (HeapStore τ φ κ) τ φ α ω

namespace World

variable {τ φ κ α ω : Type}

/-- The same world with its waiters kept in `store`. -/
@[simps] def withStore {S S' : Type} (world : World S τ φ α ω) (store : S') :
    World S' τ φ α ω where
  atom := world.atom
  store := store
  readers := world.readers
  writer := world.writer
  borrowed := world.borrowed
  owner := world.owner
  waker := world.waker
  phase := world.phase
  busy := world.busy
  handle := world.handle
  lastWaker := world.lastWaker

/-- The pointers of `store` hold the lists of `world`, and the links of every
waiter that was popped or woken are null. -/
structure RepresentedBy (world : ListWorld τ φ κ α ω)
    (store : HeapStore τ φ κ) : Prop where
  lists : ∃ before, Represents store world.store before ∧
    ∀ task, (∀ futex current, world.busy task ≠ .requeueLink futex current) →
      before task = none
  fresh : ∀ task, world.phase task = .enter → (store.heap task).next = none
  hand : ∀ task waiter, world.handle task = some waiter →
    Loose store.heap waiter
  woken : ∀ task, (world.phase task).Waits → world.waker task = .done →
    Loose store.heap task

/-- What a step on the lists returns, next to what the same step on the
pointers returns. -/
inductive Refined :
    Option (Outcome (ListStore τ φ κ) τ φ α ω) →
      Option (Outcome (HeapStore τ φ κ) τ φ α ω) → Prop
  | blocked : Refined none none
  | stepped {world : ListWorld τ φ κ α ω} {store : HeapStore τ φ κ}
      {resp : Option (Resp τ α)} {events : List (Event τ φ ω)}
      (hrep : world.RepresentedBy store) :
      Refined (some ⟨world, resp, events⟩)
        (some ⟨world.withStore store, resp, events⟩)

theorem Refined.ite {condition : Prop} [Decidable condition]
    {abstract abstract' : Option (Outcome (ListStore τ φ κ) τ φ α ω)}
    {concrete concrete' : Option (Outcome (HeapStore τ φ κ) τ φ α ω)}
    (htrue : condition → Refined abstract concrete)
    (hfalse : ¬ condition → Refined abstract' concrete') :
    Refined (if condition then abstract else abstract')
      (if condition then concrete else concrete') := by
  by_cases hcondition : condition
  · rw [if_pos hcondition, if_pos hcondition]
    exact htrue hcondition
  · rw [if_neg hcondition, if_neg hcondition]
    exact hfalse hcondition

namespace RepresentedBy

variable {world : ListWorld τ φ κ α ω}
  {store : HeapStore τ φ κ} {place : τ → Place τ φ κ}

/-- A step that leaves the lists and the handles alone. -/
theorem of_same (hrep : world.RepresentedBy store)
    {world' : ListWorld τ φ κ α ω} (hstore : world'.store = world.store)
    (hhandle : world'.handle = world.handle)
    (hfresh : ∀ task, world'.phase task = .enter → world.phase task = .enter)
    (hwoken : ∀ task, (world'.phase task).Waits → world'.waker task = .done →
      (world.phase task).Waits ∧ world.waker task = .done)
    (hbusy : ∀ task,
      (∀ futex current, world'.busy task ≠ .requeueLink futex current) →
        ∀ futex current, world.busy task ≠ .requeueLink futex current) :
    world'.RepresentedBy store := by
  obtain ⟨before, hlists, hbefore⟩ := hrep.lists
  refine ⟨⟨before, hstore ▸ hlists, fun task hnot => hbefore task (hbusy task hnot)⟩,
    fun task henter => hrep.fresh task (hfresh task henter), ?_, ?_⟩
  · rw [hhandle]
    exact hrep.hand
  · intro task hwaits hdone
    exact hrep.woken task (hwoken task hwaits hdone).1 (hwoken task hwaits hdone).2

variable [DecidableEq τ]

theorem setPhase (hrep : world.RepresentedBy store) {task : τ}
    {phase : Phase τ φ α ω} (henter : phase ≠ .enter)
    (hwaits : phase.Waits → (world.phase task).Waits) :
    (world.setPhase task phase).RepresentedBy store := by
  refine hrep.of_same rfl rfl ?_ ?_ fun _ => id <;>
    simp only [World.setPhase, Function.update_apply] <;> grind

theorem setFuture (hrep : world.RepresentedBy store) {task : τ}
    {phase : Phase τ φ α ω} {waker : WaiterWaker ω} (henter : phase ≠ .enter)
    (hwaker : waker ≠ .done) :
    ((world.setWaker task waker).setPhase task phase).RepresentedBy store := by
  refine hrep.of_same rfl rfl ?_ ?_ fun _ => id <;>
    simp only [World.setPhase, World.setWaker, Function.update_apply] <;> grind

theorem setWaker (hrep : world.RepresentedBy store) {task : τ}
    {waker : WaiterWaker ω} (hwaker : waker ≠ .done) :
    (world.setWaker task waker).RepresentedBy store := by
  refine hrep.of_same rfl rfl (fun _ => id) ?_ fun _ => id
  simp only [World.setWaker, Function.update_apply]
  grind

theorem setBusy (hrep : world.RepresentedBy store) {task : τ}
    {busy : Busy τ φ α ω}
    (hlink : ∀ futex current, world.busy task ≠ .requeueLink futex current) :
    (world.setBusy task busy).RepresentedBy store := by
  refine hrep.of_same rfl rfl (fun _ => id) (fun _ hwaits hdone => ⟨hwaits, hdone⟩) ?_
  simp only [World.setBusy, Function.update_apply]
  grind

variable [DecidableEq φ]

omit [DecidableEq τ] in
theorem setWriter (hrep : world.RepresentedBy store) (futex : φ)
    (writer : Option τ) : (world.setWriter futex writer).RepresentedBy store :=
  { hrep with lists := hrep.lists }

omit [DecidableEq φ] in
theorem setLastWaker (hrep : world.RepresentedBy store) (task : τ)
    (waker : Option ω) : (world.setLastWaker task waker).RepresentedBy store :=
  { hrep with lists := hrep.lists }

omit [DecidableEq τ] in
theorem setAtom (hrep : world.RepresentedBy store) (futex : φ) (new : α) :
    (world.setAtom futex new).RepresentedBy store :=
  { hrep with lists := hrep.lists }

variable [DecidableEq κ] [Fintype τ]

theorem word (hrep : world.RepresentedBy store) (futex : φ) :
    (world.withStore store).word futex = world.word futex := by
  obtain ⟨before, hlists, -⟩ := hrep.lists
  simp only [World.word, withStore, hlists.top]

omit [DecidableEq τ] [DecidableEq φ] [DecidableEq κ] [Fintype τ] in
theorem answer (hrep : world.RepresentedBy store) (resp : Resp τ α) :
    Refined (world.answer resp) ((world.withStore store).answer resp) :=
  .stepped hrep

omit [Fintype τ] in
/-- A change of the pointers that touches only waiters in lists. -/
theorem of_store (hrep : world.RepresentedBy store) (hinv : Inv world place)
    {lists : ListStore τ φ κ} {store' : HeapStore τ φ κ}
    {before : τ → Option τ} (hlists : Represents store' lists before)
    (hbefore : ∀ task,
      (∀ futex current, world.busy task ≠ .requeueLink futex current) →
        before task = none)
    (hsame : ∀ waiter, (place waiter).Unlisted →
      store'.heap waiter = store.heap waiter) :
    RepresentedBy { world with store := lists } store' := by
  refine ⟨⟨before, hlists, hbefore⟩, fun task henter => ?_,
    fun notifier waiter hhandle => ?_, fun task hwaits hdone => ?_⟩
  · have hphase : world.phase task = .enter := henter
    have hplace : place task = .nowhere :=
      hinv.nowhere (by simp [hphase, Phase.Waits])
    rw [hsame task (by simp [hplace, Place.Unlisted])]
    exact hrep.fresh task henter
  · have hplace := (hinv.places.hand notifier waiter).mp hhandle
    unfold Loose
    rw [hsame waiter (by simp [hplace, Place.Unlisted])]
    exact hrep.hand notifier waiter hhandle
  · have hplace := hinv.nowhere_of_done hdone
    unfold Loose
    rw [hsame task (by simp [hplace, Place.Unlisted])]
    exact hrep.woken task hwaits hdone

/-! ## Waiting -/

variable [DecidableEq α] [DecidableEq ω]

theorem newWaiter (hrep : world.RepresentedBy store) (hinv : Inv world place)
    (task : τ) (futex : φ) (queue : κ) :
    Refined (world.newWaiter task futex queue)
      ((world.withStore store).newWaiter task futex queue) := by
  unfold World.newWaiter
  refine .ite (fun hphase => ?_) fun _ => hrep.answer _
  have hfree : place task = .nowhere := by
    refine hinv.nowhere ?_
    rcases hphase with h | h <;> simp [h, Phase.Waits]
  obtain ⟨before, hlists, hbefore⟩ := hrep.lists
  refine .stepped ⟨⟨before, hlists.renew hinv.places hfree queue, hbefore⟩,
    ?_, ?_, ?_⟩
  · intro other
    by_cases hother : other = task
    · simp [hother, FutexStore.renew]
    · simpa [hother, FutexStore.renew] using hrep.fresh other
  · intro notifier waiter hhandle
    have hne : waiter ≠ task := by
      rintro rfl
      have hplace := (hinv.places.hand notifier waiter).mp hhandle
      rw [hfree] at hplace
      cases hplace
    simpa [Loose, hne, FutexStore.renew] using hrep.hand notifier waiter hhandle
  · intro other
    by_cases hother : other = task
    · simp [hother]
    · simpa [Loose, hother, FutexStore.renew] using hrep.woken other

omit [DecidableEq α] [DecidableEq ω] in
/-- The links of a waiter that no list holds. -/
theorem setPrev (hrep : world.RepresentedBy store) (hinv : Inv world place)
    {task : τ} (hphase : ¬ (world.phase task).Waits) (link : Option τ) :
    RepresentedBy { world with store := FutexStore.setPrev world.store task link }
      (FutexStore.setPrev store task link) := by
  have hfree : place task = .nowhere := hinv.nowhere hphase
  obtain ⟨before, hlists, hbefore⟩ := hrep.lists
  refine ⟨⟨before, hlists.setPrev hinv.places hfree link, hbefore⟩, ?_, ?_, ?_⟩
  · intro other henter
    simpa [FutexStore.setPrev] using hrep.fresh other henter
  · intro notifier waiter hhandle
    have hne : waiter ≠ task := by
      rintro rfl
      have hplace := (hinv.places.hand notifier waiter).mp hhandle
      rw [hfree] at hplace
      cases hplace
    simpa [Loose, FutexStore.setPrev, Heap.setPrev_of_ne _ link hne] using
      hrep.hand notifier waiter hhandle
  · intro other hwaits hdone
    have hne : other ≠ task := by
      rintro rfl
      exact hphase hwaits
    simpa [Loose, FutexStore.setPrev, Heap.setPrev_of_ne _ link hne] using
      hrep.woken other hwaits hdone

omit [DecidableEq α] [DecidableEq ω] in
theorem push (hrep : world.RepresentedBy store)
    {task : τ} (hphase : world.phase task = .enter)
    (hwaker : world.waker task ≠ .done) {futex : φ}
    (hprev : (store.heap task).prev = (world.store.inbox futex).head?) :
    RepresentedBy { world.setPhase task .entered with
        store := FutexStore.push world.store futex task }
      (FutexStore.push store futex task) := by
  obtain ⟨before, hlists, hbefore⟩ := hrep.lists
  refine ⟨⟨before, hlists.push (hrep.fresh task hphase) hprev, hbefore⟩, ?_,
    hrep.hand, ?_⟩ <;>
    simp only [World.setPhase, FutexStore.push, Function.update_apply] <;>
    grind [hrep.fresh, hrep.woken]

theorem pollEnter (hrep : world.RepresentedBy store) (hinv : Inv world place)
    (task : τ) (futex : φ) (current : FutexAtom τ α) (new : α)
    (spurious : Bool) (waker : ω) :
    Refined (world.pollEnter task futex current new spurious waker)
      ((world.withStore store).pollEnter task futex current new spurious waker) := by
  unfold World.pollEnter
  rw [hrep.word]
  refine .ite (fun _ => hrep.answer _) fun hphase => ?_
  rw [not_not] at hphase
  refine .ite (fun _ => hrep.answer _) fun _ => ?_
  have hwaits : ¬ (world.phase task).Waits := by simp [hphase, Phase.Waits]
  have hlinked := hrep.setPrev hinv hwaits current.inbox
  have hprev : ((FutexStore.setPrev store task current.inbox).heap task).prev =
      current.inbox := by
    simp [FutexStore.setPrev]
  simp only [withStore_waker]
  cases hwaker : world.waker task with
  | done => exact absurd hwaker ((hinv.task task).fresh hphase)
  | none =>
      refine .ite (fun hword => ?_) fun _ => ?_
      · have htop : (world.store.inbox futex).head? = current.inbox := by
          rw [← hword.1]
          rfl
        refine .stepped ?_
        have hwaiting : (WaiterWaker.waiting waker) ≠ .done := by simp
        exact (((hlinked.setWaker hwaiting).setLastWaker task (some waker)).push
          (by simpa using hphase) (by simp)
            (hprev.trans htop.symm)).setAtom futex new
      · exact .stepped ((hlinked.setWaker (by simp)).setLastWaker task (some waker))
  | waiting old =>
      refine .ite (fun hword => ?_) fun _ => ?_
      · have htop : (world.store.inbox futex).head? = current.inbox := by
          rw [← hword.1]
          rfl
        refine .stepped ?_
        exact (hlinked.push hphase (by simp [hwaker]) (hprev.trans htop.symm)).setAtom
          futex new
      · exact .stepped hlinked

omit [DecidableEq κ] [Fintype τ] in
theorem poll (hrep : world.RepresentedBy store) (task : τ) (waker : ω) :
    Refined (world.poll task waker) ((world.withStore store).poll task waker) := by
  unfold World.poll
  refine .ite (fun hphase => ?_) fun _ => .blocked
  refine .stepped ((hrep.setPhase (by simp) ?_).setLastWaker task (some waker))
  simp [hphase.1, Phase.Waits]

omit [DecidableEq φ] [DecidableEq κ] [DecidableEq α] [Fintype τ] in
theorem pollWaiting (hrep : world.RepresentedBy store) {task : τ} {newWaker : ω}
    {seen : WaiterWaker ω} (hphase : world.phase task = .polling newWaker seen)
    (spurious : Bool) :
    Refined (world.pollWaiting task newWaker seen spurious)
      ((world.withStore store).pollWaiting task newWaker seen spurious) := by
  have hwaits : (world.phase task).Waits := by simp [hphase, Phase.Waits]
  cases seen with
  | none => exact (hrep.setPhase (by simp) fun _ => hwaits).answer _
  | done => exact .stepped (hrep.setPhase (by simp) fun _ => hwaits)
  | waiting old =>
      refine .ite (fun _ => ?_) fun _ => ?_
      · exact .stepped (hrep.setFuture (by simp) (by simp))
      · exact .stepped (hrep.setPhase (by simp) fun _ => hwaits)

/-! ## Dropping a pending future -/

omit [DecidableEq κ] [Fintype τ] in
theorem drop (hrep : world.RepresentedBy store) (task : τ) :
    Refined (world.drop task) ((world.withStore store).drop task) := by
  unfold World.drop
  refine .ite (fun hphase => ?_) fun _ => .blocked
  exact .stepped (hrep.setPhase (by simp) (by simp [hphase.1, Phase.Waits]))

omit [DecidableEq φ] [DecidableEq κ] [DecidableEq α] [DecidableEq ω] [Fintype τ] in
theorem flipAt (hrep : world.RepresentedBy store) {task : τ} (futex : φ)
    (hwaits : (world.phase task).Waits) (current : FutexAtom τ α) :
    (world.flipAt task futex current).RepresentedBy store := by
  unfold World.flipAt
  split
  · exact hrep.setPhase (by simp) fun _ => hwaits
  · exact hrep.setPhase (by simp) fun _ => hwaits

omit [DecidableEq α] [DecidableEq ω] in
theorem enqueue (hrep : world.RepresentedBy store) (hinv : Inv world place)
    {futex : φ} {lists : ListStore τ φ κ}
    (hlists : FutexStore.enqueue world.store futex = some lists) :
    ∃ store', FutexStore.enqueue store futex = some store' ∧
      RepresentedBy { world with store := lists } store' := by
  obtain ⟨before, hrepresents, hbefore⟩ := hrep.lists
  obtain ⟨store', hstore, hrepresents', hsame⟩ :=
    hrepresents.enqueue hinv.places hlists
  exact ⟨store', hstore, hrep.of_store hinv hrepresents' hbefore hsame⟩

omit [DecidableEq α] [DecidableEq ω] in
theorem cancel (hrep : world.RepresentedBy store) (hinv : Inv world place)
    {task : τ} {futex : φ} (hphase : world.phase task = .dropCancel futex) :
    RepresentedBy { world.setPhase task (.dropUnlock futex) with
        store := FutexStore.cancel world.store futex task }
      (FutexStore.cancel store futex task) := by
  have hwaits : (world.phase task).Waits := by simp [hphase, Phase.Waits]
  obtain ⟨before, hlists, hbefore⟩ := hrep.lists
  have hplace : place task = .queue futex (world.store.queue task) ∨
      place task = .nowhere ∧ Loose store.heap task := by
    rcases hinv.place_of_cancel hphase with hplace | ⟨queue, hplace⟩
    · have hdone := (hinv.task task).woken hwaits hplace
      exact Or.inr ⟨hplace, hrep.woken task hwaits hdone⟩
    · rw [hinv.places.index futex queue task hplace]
      exact Or.inl hplace
  obtain ⟨hlists', hsame⟩ := hlists.cancel hinv.places hplace
  refine ⟨⟨before, hlists', hbefore⟩, fun other henter => ?_,
    fun notifier waiter hhandle => ?_, fun other hother hdone => ?_⟩
  · have hne : other ≠ task := by
      rintro rfl
      simp at henter
    have henter' : world.phase other = .enter := by simpa [hne] using henter
    have hfree : place other = .nowhere :=
      hinv.nowhere (by simp [henter', Phase.Waits])
    rw [hsame other hne (by simp [hfree, Place.Unlisted])]
    exact hrep.fresh other henter'
  · have hhand := (hinv.places.hand notifier waiter).mp hhandle
    have hne : waiter ≠ task := by
      rintro rfl
      rcases hplace with h | h
      · rw [hhand] at h
        cases h
      · rw [hhand] at h
        cases h.1
    unfold Loose
    rw [hsame waiter hne (by simp [hhand, Place.Unlisted])]
    exact hrep.hand notifier waiter hhandle
  · have hne : other ≠ task := by
      rintro rfl
      simp [Phase.Waits] at hother
    have hfree : place other = .nowhere := hinv.nowhere_of_done hdone
    unfold Loose
    rw [hsame other hne (by simp [hfree, Place.Unlisted])]
    exact hrep.woken other (by simpa [hne] using hother) hdone

omit [DecidableEq ω] in
theorem dropStep (hrep : world.RepresentedBy store) (hinv : Inv world place)
    (task : τ) (spurious : Bool) :
    Refined (world.dropStep task spurious)
      ((world.withStore store).dropStep task spurious) := by
  unfold World.dropStep
  simp only [withStore_phase, withStore_waker, hrep.word]
  cases hphase : world.phase task with
  | dropLock owner =>
      refine .ite (fun _ => .stepped ?_) fun _ => .blocked
      exact (hrep.setWriter owner (some task)).setPhase (by simp)
        (by simp [hphase, Phase.Waits])
  | dropCheck owner =>
      refine .stepped (hrep.setPhase ?_ (by simp [hphase, Phase.Waits]))
      split <;> simp
  | dropRetry owner owner2 =>
      refine .stepped ?_
      exact (hrep.setWriter owner none).setPhase (by simp)
        (by simp [hphase, Phase.Waits])
  | dropLoad owner =>
      exact .stepped (hrep.flipAt owner (by simp [hphase, Phase.Waits]) _)
  | dropFlip owner current =>
      refine .ite (fun _ => ?_) fun _ => ?_
      · cases hlists : FutexStore.enqueue world.store owner with
        | none => cases hlists
        | some lists =>
            obtain ⟨store', hstore, hrep'⟩ := hrep.enqueue hinv hlists
            rw [withStore_store, hstore]
            exact .stepped (hrep'.setPhase (by simp) (by simp [hphase, Phase.Waits]))
      · exact .stepped (hrep.flipAt owner (by simp [hphase, Phase.Waits]) _)
  | dropCancel owner => exact .stepped (hrep.cancel hinv hphase)
  | dropUnlock owner =>
      refine .stepped ?_
      exact (hrep.setWriter owner none).setPhase (by simp) (by simp [Phase.Waits])
  | dropFinish =>
      cases hwaker : world.waker task with
      | none => exact (hrep.setPhase (by simp) (by simp [Phase.Waits])).answer _
      | waiting waker => exact .stepped (hrep.setFuture (by simp) (by simp))
      | done => exact .stepped (hrep.setFuture (by simp) (by simp))
  | _ => exact .blocked

/-! ## Notifying -/

omit [DecidableEq ω] in
theorem cmpxchgEnqueueWeak (hrep : world.RepresentedBy store)
    (hinv : Inv world place) (task : τ) (futex : φ) (current : FutexAtom τ α)
    (new : α) (spurious : Bool) :
    Refined (world.cmpxchgEnqueueWeak task futex current new spurious)
      ((world.withStore store).cmpxchgEnqueueWeak task futex current new
        spurious) := by
  unfold World.cmpxchgEnqueueWeak
  rw [hrep.word]
  refine .ite (fun _ => hrep.answer _) fun _ => .ite (fun _ => ?_) fun _ =>
    hrep.answer _
  cases hlists : FutexStore.enqueue world.store futex with
  | none => cases hlists
  | some lists =>
      obtain ⟨store', hstore, hrep'⟩ := hrep.enqueue hinv hlists
      rw [withStore_store, hstore]
      exact .stepped (hrep'.setAtom futex new)

omit [DecidableEq φ] [DecidableEq κ] [DecidableEq α] [DecidableEq ω] [Fintype τ] in
/-- A task takes a waiter with null links in its hand. -/
theorem setHandle (hrep : world.RepresentedBy store) {task : τ}
    {handle : Option τ} (hloose : ∀ waiter, handle = some waiter →
      Loose store.heap waiter) :
    (world.setHandle task handle).RepresentedBy store := by
  refine { hrep with hand := fun other waiter hhandle => ?_ }
  by_cases hother : other = task
  · subst hother
    simp only [setHandle_handle, Function.update_self] at hhandle
    exact hloose waiter hhandle
  · simp only [setHandle_handle, Function.update_of_ne hother] at hhandle
    exact hrep.hand other waiter hhandle

omit [DecidableEq α] [DecidableEq ω] in
theorem pop (hrep : world.RepresentedBy store) (hinv : Inv world place)
    (task : τ) (futex : φ) (queue : κ) :
    Refined (world.pop task futex queue)
      ((world.withStore store).pop task futex queue) := by
  unfold World.pop
  refine .ite (fun _ => ?_) fun _ => hrep.answer _
  obtain ⟨before, hlists, hbefore⟩ := hrep.lists
  obtain ⟨hsame, hlists', hloose, hout⟩ := hlists.pop hinv.places futex queue
  simp only [withStore_store, hsame]
  exact .stepped ((hrep.of_store hinv hlists' hbefore hout).setHandle hloose)

omit [DecidableEq α] [DecidableEq ω] in
theorem popMany (hrep : world.RepresentedBy store) (hinv : Inv world place)
    {task : τ} (hbusy : world.busy task = .none) (futex : φ) (count : ℕ)
    (queue : κ) :
    Refined (world.popMany task futex count queue)
      ((world.withStore store).popMany task futex count queue) := by
  unfold World.popMany
  obtain ⟨before, hlists, hbefore⟩ := hrep.lists
  rw [withStore_store, hlists.listEmpty]
  refine .ite (fun hguard => ?_) fun _ => hrep.answer _
  have hlist : world.store.list task = [] := by
    simpa [FutexStore.listEmpty] using hguard.2
  obtain ⟨hlists', hout⟩ := hlists.popMany hinv.places hlist
    (hbefore task (by simp [hbusy])) futex count queue
  exact .stepped (hrep.of_store hinv hlists' hbefore hout)

omit [DecidableEq α] [DecidableEq ω] in
theorem next (hrep : world.RepresentedBy store) (hinv : Inv world place)
    {task : τ} (hbusy : world.busy task = .none) :
    Refined (world.next task) ((world.withStore store).next task) := by
  unfold World.next
  refine .ite (fun _ => ?_) fun _ => hrep.answer _
  obtain ⟨before, hlists, hbefore⟩ := hrep.lists
  obtain ⟨hsame, hlists', hloose, hout⟩ :=
    hlists.listPop hinv.places (hbefore task (by simp [hbusy]))
  simp only [withStore_store, hsame]
  exact .stepped ((hrep.of_store hinv hlists' hbefore hout).setHandle hloose)

omit [DecidableEq φ] [DecidableEq κ] [DecidableEq α] [DecidableEq ω] [Fintype τ] in
theorem wake (hrep : world.RepresentedBy store) (hinv : Inv world place)
    {task : τ} (hbusy : world.busy task = .none) :
    Refined (world.wake task) ((world.withStore store).wake task) := by
  unfold World.wake
  simp only [withStore_handle, withStore_waker]
  cases hhandle : world.handle task with
  | none => exact hrep.answer _
  | some waiter =>
      obtain ⟨waker, hwaker⟩ := hinv.asleep_of_handle hhandle
      simp only [hwaker]
      have hloose := hrep.hand task waiter hhandle
      have hset : (world.setWaker waiter .done).RepresentedBy store := by
        refine { hrep with woken := fun other hwaits hdone => ?_ }
        by_cases hother : other = waiter
        · exact hother ▸ hloose
        · simp only [setWaker_waker, Function.update_of_ne hother] at hdone
          exact hrep.woken other hwaits hdone
      exact .stepped ((hset.setHandle (by simp)).setBusy (by simp [hbusy]))

omit [DecidableEq α] [DecidableEq ω] in
theorem requeue (hrep : world.RepresentedBy store) {task : τ}
    (hbusy : world.busy task = .none) (futex : φ) :
    Refined (world.requeue task futex)
      ((world.withStore store).requeue task futex) := by
  obtain ⟨before, hlists, hbefore⟩ := hrep.lists
  unfold World.requeue
  rw [withStore_store, hlists.listEmpty, hlists.listHead]
  refine .ite (fun _ => hrep.answer _) fun _ => .ite (fun _ => hrep.answer _)
    fun _ => .stepped (hrep.setBusy (by simp [hbusy]))

theorem busyStep (hrep : world.RepresentedBy store) (hinv : Inv world place)
    (task : τ) (spurious : Bool) :
    Refined (world.busyStep task spurious)
      ((world.withStore store).busyStep task spurious) := by
  obtain ⟨before, hlists, hbefore⟩ := hrep.lists
  unfold World.busyStep
  simp only [withStore_busy, hrep.word]
  cases hbusy : world.busy task with
  | none => exact .blocked
  | waking waiter waker =>
      simp only [withStore_lastWaker]
      by_cases hlast : world.lastWaker waiter = some waker
      · simp only [if_pos hlast]
        exact .stepped ((hrep.setLastWaker waiter none).setBusy (by simp [hbusy]))
      · simp only [if_neg hlast]
        exact .stepped (hrep.setBusy (by simp [hbusy]))
  | requeueStore futex waiter =>
      cases waiter with
      | none => exact .stepped (hrep.setBusy (by simp [hbusy]))
      | some waiter =>
          obtain ⟨-, -, stored, rest, hsplit, hhead, -⟩ :=
            hinv.storing task futex (some waiter) hbusy
          have hmem : waiter ∈ world.store.list task := by
            rw [hsplit]
            exact List.mem_append_right _ (List.mem_of_mem_head? hhead)
          simp only [withStore_store, hlists.listNext hinv.places hmem]
          have hset : (world.setBusy task (.requeueStore futex
              (FutexStore.listNext world.store task waiter))).RepresentedBy store :=
            hrep.setBusy (by simp [hbusy])
          exact .stepped { hset with lists := hset.lists }
  | requeueLink futex current =>
      obtain ⟨-, hne, -⟩ := hinv.linking task futex current hbusy
      obtain ⟨hlinked, hout⟩ := hlists.listLink hinv.places hne current.inbox
      have hbefore' : ∀ other link, (other = task → link = none) →
          (∀ futex current, other ≠ task →
            world.busy other ≠ .requeueLink futex current) →
              Function.update before task link other = none := by
        intro other link hself hnot
        by_cases hother : other = task
        · simp [hother, hself hother]
        · rw [Function.update_of_ne hother]
          exact hbefore other fun futex current => hnot futex current hother
      have hrep' := hrep.of_store hinv hlinked (fun other hnot => hbefore' other _
        (fun heq => absurd hbusy (heq ▸ hnot futex current))
          fun futex current _ => hnot futex current) hout
      refine .ite (fun hword => .stepped ?_) fun _ => .stepped ?_
      · have htop : Function.update before task current.inbox task =
            (world.store.inbox futex).head? := by
          rw [Function.update_self, ← hword.1]
          rfl
        have hpushed := hlinked.listPush hne htop
        rw [Function.update_idem] at hpushed
        refine ⟨⟨_, hpushed, fun other hnot => hbefore' other _ (fun _ => rfl)
          fun futex current hother => ?_⟩, hrep'.fresh, hrep'.hand, hrep'.woken⟩
        simpa [hother] using hnot futex current
      · refine ⟨⟨_, hlinked, fun other hnot => hbefore' other _ (fun heq => ?_)
          fun futex current hother => ?_⟩, hrep'.fresh, hrep'.hand, hrep'.woken⟩
        · exact absurd (by simp [heq]) (hnot futex (world.word futex))
        · simpa [hother] using hnot futex current

/-! ## Steps -/

theorem call (hrep : world.RepresentedBy store) (hinv : Inv world place)
    {task : τ} (hbusy : world.busy task = .none) (op : Op τ φ κ α)
    (spurious : Bool) (waker : ω) :
    Refined (world.call task op spurious waker)
      ((world.withStore store).call task op spurious waker) := by
  obtain ⟨before, hlists, hbefore⟩ := hrep.lists
  cases op with
  | waiter futex queue => exact hrep.newWaiter hinv task futex queue
  | load futex =>
      simp only [World.call, hrep.word]
      exact hrep.answer _
  | cmpxchgWeak futex current new =>
      simp only [World.call, World.cmpxchgWeak, hrep.word]
      exact .ite (fun _ => (hrep.setAtom futex new).answer _) fun _ => hrep.answer _
  | cmpxchgWaitWeak futex current new =>
      exact hrep.pollEnter hinv task futex current new spurious waker
  | pending =>
      refine .ite (fun hphase => ?_) fun _ => hrep.answer _
      exact (hrep.setPhase (by simp) (by simp [hphase, Phase.Waits])).answer _
  | lock futex =>
      refine .ite (fun _ => hrep.answer _) fun _ => .ite (fun _ => ?_) fun _ => .blocked
      exact .stepped { hrep with lists := hrep.lists }
  | unlock futex =>
      simp only [World.call, World.unlock, withStore_store, hlists.listEmpty]
      refine .ite (fun _ => ?_) fun _ => hrep.answer _
      exact .stepped { hrep with lists := hrep.lists }
  | borrow futex =>
      refine .ite (fun _ => hrep.answer _) fun _ => .ite (fun _ => ?_) fun _ =>
        hrep.answer _
      exact .stepped { hrep with lists := hrep.lists }
  | release futex =>
      refine .ite (fun _ => ?_) fun _ => hrep.answer _
      exact .stepped { hrep with lists := hrep.lists }
  | cmpxchgEnqueueWeak futex current new =>
      exact hrep.cmpxchgEnqueueWeak hinv task futex current new spurious
  | isEmpty futex queue =>
      simp only [World.call, World.isEmpty, withStore_store, hlists.isEmpty]
      exact .ite (fun _ => hrep.answer _) fun _ => hrep.answer _
  | pop futex queue => exact hrep.pop hinv task futex queue
  | popMany futex count queue => exact hrep.popMany hinv hbusy futex count queue
  | count =>
      simp only [World.call, World.count, withStore_store,
        hlists.listCount hinv.places]
      exact .stepped hrep
  | next => exact hrep.next hinv hbusy
  | wake => exact hrep.wake hinv hbusy
  | requeue futex => exact hrep.requeue hbusy futex

theorem step (hrep : world.RepresentedBy store) (hinv : Inv world place)
    (task : τ) (act : Act τ φ κ α ω) :
    Refined (world.step task act) ((world.withStore store).step task act) := by
  cases act with
  | call op spurious waker =>
      exact .ite (fun hrunning => hrep.call hinv hrunning.1 op spurious waker)
        fun _ => .blocked
  | poll waker => exact hrep.poll task waker
  | drop => exact hrep.drop task
  | step spurious =>
      refine .ite (fun _ => hrep.busyStep hinv task spurious) fun _ => ?_
      simp only [withStore_phase]
      cases hphase : world.phase task with
      | polling newWaker seen => exact hrep.pollWaiting hphase spurious
      | _ => exact hrep.dropStep hinv task spurious

omit [DecidableEq τ] [DecidableEq φ] [DecidableEq κ] [DecidableEq α] [DecidableEq ω] [Fintype τ] in
theorem initial (queue : κ) (atom : φ → α) (futex : φ) :
    RepresentedBy (World.initial (ListStore.empty queue) atom futex :
      ListWorld τ φ κ α ω) (HeapStore.empty queue) := by
  refine ⟨⟨fun _ => none, Represents.empty queue, fun _ _ => rfl⟩, ?_, ?_, ?_⟩ <;>
    simp [World.initial, Phase.Waits]

end RepresentedBy

/-! ## Simulation -/

variable [Fintype τ]

/-- The world of lists that a world of pointers holds. -/
def lists (world : HeapWorld τ φ κ α ω) : ListWorld τ φ κ α ω :=
  world.withStore world.store.lists

theorem RepresentedBy.lists_eq {world : ListWorld τ φ κ α ω}
    {store : HeapStore τ φ κ} (hrep : world.RepresentedBy store)
    {place : τ → Place τ φ κ} (hinv : Inv world place) :
    (world.withStore store).lists = world := by
  obtain ⟨before, hlists, -⟩ := hrep.lists
  unfold World.lists
  rw [withStore_store, hlists.lists_eq hinv.places]
  rfl

variable [DecidableEq τ] [DecidableEq φ] [DecidableEq κ] [DecidableEq α] [DecidableEq ω]

/-- Each step of the pointers is the same step of the lists. -/
theorem simulation (queue : κ) (atom : φ → α) (futex : φ) :
    Machine.Simulation
      (World.machine (HeapStore.empty queue : HeapStore τ φ κ) atom futex :
        Machine (HeapWorld τ φ κ α ω) _ _)
      (World.machine (ListStore.empty queue) atom futex)
      fun concrete abstract => ∃ store,
        concrete = abstract.withStore store ∧ abstract.RepresentedBy store where
  init := ⟨_, rfl, RepresentedBy.initial queue atom futex⟩
  step := by
    rintro concrete abstract ⟨task, act⟩ next events hreach ⟨store, rfl, hrep⟩ hnext
    obtain ⟨place, hinv⟩ := Inv.of_reachable hreach
    have hrefined := hrep.step hinv task act
    simp only [World.machine, Option.map_eq_some_iff] at hnext ⊢
    obtain ⟨outcome, hstep, heq⟩ := hnext
    rw [hstep] at hrefined
    cases hcase : abstract.step task act with
    | none =>
        rw [hcase] at hrefined
        cases hrefined
    | some outcome' =>
        rw [hcase] at hrefined
        cases hrefined with
        | stepped hrep' =>
            cases heq
            exact ⟨_, ⟨_, rfl, rfl⟩, _, rfl, hrep'⟩

variable {queue : κ} {atom : φ → α} {futex : φ}

/-- The lists of a reachable world are reachable, and its pointers hold
them. -/
theorem lists_of_reachable {world : HeapWorld τ φ κ α ω}
    (hreach : (World.machine (HeapStore.empty queue) atom futex :
      Machine (HeapWorld τ φ κ α ω) _ _).Reachable world) :
    (World.machine (ListStore.empty queue) atom futex :
      Machine (ListWorld τ φ κ α ω) _ _).Reachable world.lists ∧
      world.lists.RepresentedBy world.store := by
  obtain ⟨abstract, habstract, store, rfl, hrep⟩ :=
    (simulation queue atom futex).reachable hreach
  obtain ⟨place, hinv⟩ := Inv.of_reachable habstract
  rw [hrep.lists_eq hinv]
  exact ⟨habstract, hrep⟩

/-- Steps of the pointers and of the lists are enabled together and return
the same. -/
theorem step_lists {world : HeapWorld τ φ κ α ω}
    (hreach : (World.machine (HeapStore.empty queue) atom futex :
      Machine (HeapWorld τ φ κ α ω) _ _).Reachable world)
    (task : τ) (act : Act τ φ κ α ω) :
    world.lists.step task act = (world.step task act).map fun outcome =>
      ⟨outcome.world.lists, outcome.resp, outcome.events⟩ := by
  obtain ⟨habstract, hrep⟩ := lists_of_reachable hreach
  obtain ⟨place, hinv⟩ := Inv.of_reachable habstract
  have hrefined := hrep.step hinv task act
  have hself : world.lists.withStore world.store = world := rfl
  rw [hself] at hrefined
  cases hcase : world.lists.step task act with
  | none =>
      rw [hcase] at hrefined
      generalize world.step task act = concrete at hrefined
      cases hrefined
      rfl
  | some outcome =>
      rw [hcase] at hrefined
      obtain ⟨place', hinv'⟩ := hinv.step hcase
      generalize world.step task act = concrete at hrefined
      cases hrefined with
      | stepped hrep' =>
          simp only [Option.map_some, Option.some.injEq, Outcome.mk.injEq, and_true]
          exact (hrep'.lists_eq hinv').symm

end World

end AsyncMutex
