import AsyncMutex.FifoRefinement

/-!
# Who owns a waiter

`requeue` changes the owner of one waiter after the other before it pushes
the batch on the other inbox, and a drop reads the owner before and after it
takes a write lock.  The lock order makes the two agree: a drop that passes
its check acts on the futex that holds the waiter.
-/

namespace AsyncMutex

namespace World

variable {τ φ κ α ω : Type}

/-- The lists and handles keep `waiter` at this place. -/
def At (world : ListWorld τ φ κ α ω) (waiter : τ) : Place τ φ κ → Prop
  | .nowhere => False
  | .inbox futex => waiter ∈ world.store.inbox futex
  | .queue futex queue => waiter ∈ world.store.queues futex queue
  | .list task => waiter ∈ world.store.list task
  | .hand task => world.handle task = some waiter

/-- Owners, drops and places agree. -/
structure Owned (world : ListWorld τ φ κ α ω) : Prop where
  /-- A waiter that sleeps is in exactly one inbox or queue of its owner, when
  no notifier has the read lock of the owner. -/
  settled : ∀ waiter, (world.phase waiter).Waits → world.waker waiter ≠ .done →
    world.readers (world.owner waiter) = ∅ →
      ∃ place, world.At waiter place ∧
        place.futex = some (world.owner waiter) ∧
        ∀ other, world.At waiter other → other = place
  /-- No list holds a waiter twice. -/
  nodup : (∀ futex, (world.store.inbox futex).Nodup) ∧
    (∀ futex queue, (world.store.queues futex queue).Nodup) ∧
    ∀ task, (world.store.list task).Nodup
  /-- A drop that flips or removes acts on the owner of its waiter.  The owner
  holds the waiter, or the waiter was woken. -/
  flips : ∀ waiter futex, (world.phase waiter).flips = some futex →
    world.owner waiter = futex ∧
      ((∃ place, world.At waiter place ∧ place.futex = some futex) ∨
        world.waker waiter = .done ∧ ∀ place, ¬ world.At waiter place)
  /-- A waiter that was removed, or never pushed, is in no list. -/
  gone : ∀ waiter, ¬ (world.phase waiter).Waits →
    ∀ place, ¬ world.At waiter place

/-- All waiters but `waiter` keep their places: the order in which they wait,
the handle lists and handles, and their owners. -/
structure KeepsOthers (world world' : ListWorld τ φ κ α ω) (waiter : τ)
    [DecidableEq τ] [DecidableEq κ] : Prop where
  waiting : ∀ futex queue,
    (world'.store.contents futex queue).filter (fun other => other ≠ waiter) =
      (world.store.contents futex queue).filter fun other => other ≠ waiter
  list : world'.store.list = world.store.list
  handle : world'.handle = world.handle
  owner : world'.owner = world.owner

variable [DecidableEq τ] [DecidableEq φ] [DecidableEq κ] {world : ListWorld τ φ κ α ω}
  {place : τ → Place τ φ κ}

namespace Inv

omit [DecidableEq τ] [DecidableEq φ] [DecidableEq κ] in
theorem at_iff (hinv : Inv world place) {waiter : τ} {at' : Place τ φ κ} :
    world.At waiter at' ↔ place waiter = at' ∧ at' ≠ .nowhere := by
  cases at' <;>
    simp [At, hinv.places.inbox, hinv.places.queues, hinv.places.list,
      hinv.places.hand]

omit [DecidableEq τ] [DecidableEq φ] [DecidableEq κ] in
theorem not_at (hinv : Inv world place) {waiter : τ}
    (hplace : place waiter = .nowhere) (at' : Place τ φ κ) :
    ¬ world.At waiter at' := by
  rw [hinv.at_iff, hplace]
  exact fun h => h.2 h.1.symm

theorem owned (hinv : Inv world place) : Owned world where
  settled := by
    intro waiter hwaits hwaker hreaders
    have htask := hinv.task waiter
    have hplace : place waiter ≠ .nowhere := fun hnowhere =>
      hwaker (htask.woken hwaits hnowhere)
    refine ⟨place waiter, hinv.at_iff.mpr ⟨rfl, hplace⟩, ?_, fun other hother =>
      (hinv.at_iff.mp hother).1.symm⟩
    have hpopped := hinv.popped waiter
    have howned := htask.owned
    rw [hreaders] at hpopped
    cases hcase : place waiter with
    | nowhere => exact absurd hcase hplace
    | inbox futex =>
        rw [hcase] at howned
        rw [howned futex rfl]
        rfl
    | queue futex queue =>
        rw [hcase] at howned
        rw [howned futex rfl]
        rfl
    | list task => simp [hcase] at hpopped
    | hand task => simp [hcase] at hpopped
  nodup := ⟨hinv.places.inboxNodup, hinv.places.queuesNodup,
    hinv.places.listNodup⟩
  flips := by
    intro waiter futex hflips
    have htask := hinv.task waiter
    have howner := htask.flips futex hflips
    have hwaits : (world.phase waiter).Waits := by
      cases hphase : world.phase waiter <;> simp [hphase, Phase.flips] at hflips <;>
        trivial
    have hwriter : world.writer (world.owner waiter) = some waiter := by
      rw [hinv.writer, howner]
      cases hphase : world.phase waiter <;> simp [hphase, Phase.flips] at hflips <;>
        simp [Phase.writes, hflips]
    have hholder := hinv.holder_of_writer hwriter
    have howned := htask.owned
    refine ⟨howner, ?_⟩
    cases hcase : place waiter with
    | nowhere =>
        exact Or.inr ⟨htask.woken hwaits hcase, fun at' => hinv.not_at hcase at'⟩
    | inbox futex' =>
        rw [hcase] at howned
        have heq : futex' = futex := (howned futex' rfl).symm.trans howner
        exact Or.inl ⟨.inbox futex', hinv.at_iff.mpr ⟨hcase, by simp⟩, by simp [heq]⟩
    | queue futex' queue =>
        rw [hcase] at howned
        have heq : futex' = futex := (howned futex' rfl).symm.trans howner
        exact Or.inl ⟨.queue futex' queue, hinv.at_iff.mpr ⟨hcase, by simp⟩,
          by simp [heq]⟩
    | list task => simp [hcase] at hholder
    | hand task => simp [hcase] at hholder
  gone := fun waiter hphase at' => hinv.not_at (hinv.nowhere hphase) at'

/-- Every step of a drop keeps the other waiters. -/
theorem keepsOthers [DecidableEq ω] [DecidableEq α] (hinv : Inv world place) {task : τ}
    {spurious : Bool}
    (hbusy : world.busy task = .none) (hdrops : (world.phase task).Drops)
    {outcome : Outcome (ListStore τ φ κ) τ φ α ω}
    (hstep : world.step task (.step spurious) = some outcome) :
    KeepsOthers world outcome.world task := by
  have hnext : world.dropStep task spurious = some outcome := by
    simp only [World.step, hbusy, ne_eq, not_true_eq_false, if_false] at hstep
    split at hstep
    case h_1 newWaker seen hphase =>
      simp [hphase, Phase.Drops, Phase.writes] at hdrops
    case h_2 => exact hstep
  have heffect := fun futex => hinv.dropStep_fifo hbusy hnext futex
  have hframe : outcome.world.store.list = world.store.list ∧
      outcome.world.handle = world.handle ∧ outcome.world.owner = world.owner := by
    unfold World.dropStep at hnext
    split at hnext
    case h_1 =>
      split at hnext
      · cases hnext
        exact ⟨rfl, rfl, rfl⟩
      · cases hnext
    case h_5 =>
      split at hnext
      · rw [Option.map_eq_some_iff] at hnext
        obtain ⟨store, hstore, rfl⟩ := hnext
        cases hstore
        exact ⟨rfl, rfl, rfl⟩
      · cases hnext
        exact ⟨rfl, rfl, rfl⟩
    case h_8 => split at hnext <;> cases hnext <;> exact ⟨rfl, rfl, rfl⟩
    case h_9 => cases hnext
    all_goals
      cases hnext
      exact ⟨rfl, rfl, rfl⟩
  refine ⟨fun futex queue => ?_, hframe.1, hframe.2.1, hframe.2.2⟩
  have hwaiting := congrArg (fun fifo => fifo.waiting queue) (heffect futex)
  have hskip : outcome.world.store.contents futex queue =
      world.store.contents futex queue ∨
      outcome.world.store.contents futex queue =
        (world.store.contents futex queue).filter fun other => other ≠ task := by
    simp only [fifoOp, hbusy] at hwaiting
    split at hwaiting
    case h_1 heq => cases heq
    case h_2 =>
      split at hwaiting
      · exact Or.inr hwaiting
      · exact Or.inl hwaiting
    case h_3 => exact Or.inl hwaiting
  rcases hskip with hsame | hleft
  · rw [hsame]
  · rw [hleft, List.filter_filter]
    simp

end Inv

/-! ## The pointers -/

variable [Fintype τ] {queue : κ} {atom : φ → α} {futex : φ}

/-- In every run, owners, drops and places agree, and a drop keeps all other
waiters where they are. -/
theorem owned_of_reachable [DecidableEq ω] [DecidableEq α] {world : HeapWorld τ φ κ α ω}
    (hreach : (World.machine (HeapStore.empty queue) atom futex :
      Machine (HeapWorld τ φ κ α ω) _ _).Reachable world) :
    Owned world.lists ∧
      ∀ task spurious outcome, world.busy task = .none →
        (world.phase task).Drops →
          world.step task (.step spurious) = some outcome →
            KeepsOthers world.lists outcome.world.lists task := by
  obtain ⟨habstract, -⟩ := lists_of_reachable hreach
  obtain ⟨place, hinv⟩ := Inv.of_reachable habstract
  refine ⟨hinv.owned, fun task spurious outcome hbusy hdrops hstep => ?_⟩
  have hlists : world.lists.step task (.step spurious) =
      some ⟨outcome.world.lists, outcome.resp, outcome.events⟩ := by
    rw [step_lists hreach, hstep]
    rfl
  exact hinv.keepsOthers hbusy hdrops hlists

/-- Two waiters wait on one futex, and the first one is dropped while a notifier
moves both to another futex.  The drop loaded the first owner; it removes the
waiter from the second one, and the other waiter stays. -/
theorem owned_of_requeue :
    ∃ (world : HeapWorld (Fin 3) Bool Unit Bool Unit)
      (outcome : Outcome (HeapStore (Fin 3) Bool Unit) (Fin 3) Bool Bool Unit),
      world.phase 0 = .dropCancel false ∧ world.owner 0 = false ∧ world.owner 1 = false ∧
        world.lists.store.queues false () = [0, 1] ∧
        world.step 0 (.step false) = some outcome ∧
        outcome.world.lists.store.queues false () = [1] ∧
        Owned world.lists ∧ KeepsOthers world.lists outcome.world.lists 0 := by
  let machine : Machine (HeapWorld (Fin 3) Bool Unit Bool Unit)
      (Fin 3 × Act (Fin 3) Bool Unit Bool Unit) (Event (Fin 3) Bool Unit) :=
    World.machine (HeapStore.empty ()) (fun _ => false) true
  let labels : List (Fin 3 × Act (Fin 3) Bool Unit Bool Unit) :=
    [(0, .call (.waiter true ()) false ()),
      (0, .call (.cmpxchgWaitWeak true ⟨false, none⟩ true) false ()),
      (0, .call .pending false ()), (1, .call (.waiter true ()) false ()),
      (1, .call (.cmpxchgWaitWeak true ⟨true, some 0⟩ true) false ()),
      -- the drop of 0 loads the owner before the notifier has the read locks
      (0, .drop),
      (2, .call (.lock true) false ()), (2, .call (.borrow true) false ()),
      (2, .call (.cmpxchgEnqueueWeak true ⟨true, some 1⟩ true) false ()),
      (2, .call (.popMany true 2 ()) false ()), (2, .call (.release true) false ()),
      (2, .call (.lock false) false ()), (2, .call (.requeue false) false ()),
      (2, .step false), (2, .step false), (2, .step false), (2, .step false),
      (2, .call (.unlock false) false ()), (2, .call (.unlock true) false ()),
      (0, .step false), (0, .step false), (0, .step false), (0, .step false),
      (0, .step false), (0, .step false), (0, .step false)]
  have hrun : ((machine.run labels).bind fun result =>
      (result.1.step 0 (.step false)).map fun outcome =>
        decide (result.1.phase 0 = .dropCancel false ∧ result.1.owner 0 = false ∧
          result.1.owner 1 = false ∧ result.1.busy 0 = .none ∧
          result.1.lists.store.queues false () = [0, 1] ∧
          outcome.world.lists.store.queues false () = [1])) = some true := by
    decide +kernel
  obtain ⟨⟨world, history⟩, hresult, hlast⟩ := Option.bind_eq_some_iff.mp hrun
  obtain ⟨outcome, hstep, hgood⟩ := Option.map_eq_some_iff.mp hlast
  obtain ⟨hphase, howner, hother, hbusy, hbefore, hafter⟩ := of_decide_eq_true hgood
  obtain ⟨howned, hkeeps⟩ := owned_of_reachable ⟨history, labels, hresult⟩
  have hdrops : (world.phase 0).Drops := by
    rw [hphase]
    exact Option.some_ne_none false
  exact ⟨world, outcome, hphase, howner, hother, hbefore, hstep, hafter, howned,
    hkeeps 0 false outcome hbusy hdrops hstep⟩

end World

end AsyncMutex
