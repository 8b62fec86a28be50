import AsyncMutex.Verified
import AsyncMutex.FifoRefinement
import Mathlib.Data.List.Dedup

/-!
# Waiters are popped in the order of their arrival

Of a client that never requeues, every queue together with the inbox is a part
of the list of the tasks that began to wait, each at the place of the last
time.  So whoever is popped has waited longest.
-/

namespace AsyncMutex

/-! ## The last arrivals of a history -/

/-- The tasks in the order in which they last arrived. -/
def lastArrivals {τ : Type} [DecidableEq τ] (arrivals : List τ) : List τ :=
  arrivals.dedup

section LastArrivals

variable {τ : Type} [DecidableEq τ] {arrivals waiting : List τ} {task : τ}

/-- A new arrival is last, wherever it was before. -/
theorem lastArrivals_append (arrivals : List τ) (task : τ) :
    lastArrivals (arrivals ++ [task]) =
      (lastArrivals arrivals).filter (fun other => other ≠ task) ++ [task] := by
  unfold lastArrivals
  induction arrivals with
  | nil => simp
  | cons other arrivals ih =>
      by_cases hmem : other ∈ arrivals
      · rw [List.cons_append, List.dedup_cons_of_mem (by simp [hmem]), ih,
          List.dedup_cons_of_mem hmem]
      · by_cases heq : other = task
        · subst heq
          rw [List.cons_append, List.dedup_cons_of_mem (by simp), ih,
            List.dedup_cons_of_notMem hmem, List.filter_cons_of_neg (by simp)]
        · rw [List.cons_append, List.dedup_cons_of_notMem (by simp [hmem, heq]), ih,
            List.dedup_cons_of_notMem hmem, List.filter_cons_of_pos (by simpa using heq),
            List.cons_append]

/-- Whoever arrives goes to the end of a line. -/
theorem sublist_arrive (hline : waiting.Sublist (lastArrivals arrivals))
    (hfresh : task ∉ waiting) :
    (waiting ++ [task]).Sublist (lastArrivals (arrivals ++ [task])) := by
  have hkept : waiting.filter (fun other => other ≠ task) = waiting := by
    refine List.filter_eq_self.mpr fun other hother => ?_
    have hne : other ≠ task := by
      rintro rfl
      exact hfresh hother
    simpa using hne
  rw [lastArrivals_append, ← hkept]
  exact (hline.filter _).append (List.Sublist.refl _)

/-- Whoever is first in a line arrived before the others in it. -/
theorem first_of_sublist {first other : τ} {rest : List τ}
    (hline : (first :: rest).Sublist (lastArrivals arrivals)) (hother : other ∈ rest) :
    [first, other].Sublist (lastArrivals arrivals) :=
  ((List.singleton_sublist.mpr hother).cons_cons first).trans hline

end LastArrivals

/-! ## The arrivals at the futexes -/

def Event.arrival {τ φ ω : Type} : Event τ φ ω → Option τ
  | .entered task _ => some task
  | _ => none

def Mark.arrival {τ φ α ω L C : Type} : Mark τ φ α ω L C → Option τ
  | .event item => item.arrival
  | _ => none

/-- The program point and the response of a mark. -/
def Mark.response {τ φ α ω L C : Type} : Mark τ φ α ω L C → Option (τ × L × Resp τ α)
  | .responded task pc resp => some (task, pc, resp)
  | _ => none

theorem Mark.mem_of_response {τ φ α ω L C : Type} {marks : List (Mark τ φ α ω L C)} {task : τ}
    {pc : L} {resp : Resp τ α} (hmem : (task, pc, resp) ∈ marks.filterMap Mark.response) :
    .responded task pc resp ∈ marks := by
  obtain ⟨mark, hmark, hresponse⟩ := List.mem_filterMap.mp hmem
  cases mark <;> cases hresponse
  exact hmark

/-- The tasks that began to wait, in the order of their compare-exchanges. -/
def arrivals {τ φ α ω L C : Type} (history : List (Mark τ φ α ω L C)) : List τ :=
  history.filterMap Mark.arrival

theorem arrivals_append {τ φ α ω L C : Type} (history marks : List (Mark τ φ α ω L C)) :
    arrivals (history ++ marks) = arrivals history ++ arrivals marks :=
  List.filterMap_append

/-- Only a wait and a requeue lengthen a queue. -/
theorem Fifo.apply_sublist {τ κ α : Type} [DecidableEq τ] [DecidableEq κ]
    {fifo : Fifo τ κ α} {op : FifoOp τ κ α}
    (hwait : ∀ waiter queue new, op ≠ .wait waiter queue new)
    (happend : ∀ batch, op ≠ .append batch) (queue : κ) :
    ((fifo.apply op).waiting queue).Sublist (fifo.waiting queue) := by
  cases op with
  | skip => exact List.Sublist.refl _
  | set new => exact List.Sublist.refl _
  | wait waiter queue new => exact absurd rfl (hwait waiter queue new)
  | take target count =>
      simp only [Fifo.apply, Function.update_apply]
      split
      · rename_i heq
        subst heq
        exact List.drop_sublist _ _
      · exact List.Sublist.refl _
  | leave waiter => exact List.filter_sublist
  | append batch => exact absurd rfl (happend batch)

namespace World

variable {τ φ κ α ω : Type} [DecidableEq τ] [DecidableEq φ] [DecidableEq κ]
  [DecidableEq α] [DecidableEq ω] {world : ListWorld τ φ κ α ω} {place : τ → Place τ φ κ}
  {task : τ} {act : Act τ φ κ α ω} {outcome : Outcome (ListStore τ φ κ) τ φ α ω}

/-- What a step says about arrivals. -/
inductive Arrives (world : ListWorld τ φ κ α ω) (task : τ) (act : Act τ φ κ α ω)
    (outcome : Outcome (ListStore τ φ κ) τ φ α ω) : Prop where
  /-- The task begins to wait. -/
  | wait (futex : φ) (current : FutexAtom τ α) (new : α) (spurious : Bool) (waker : ω)
      (hact : act = .call (.cmpxchgWaitWeak futex current new) spurious waker)
      (hresp : outcome.resp = some .success) (hphase : world.phase task = .enter)
      (hevents : outcome.events.filterMap Event.arrival = [task])
  | none (hresp : ∀ futex current new spurious waker,
        act = .call (.cmpxchgWaitWeak futex current new) spurious waker →
          outcome.resp ≠ some .success)
      (hevents : outcome.events.filterMap Event.arrival = [])

theorem pollEnter_arrives {futex : φ} {current : FutexAtom τ α} {new : α} {spurious : Bool}
    {waker : ω} (hact : act = .call (.cmpxchgWaitWeak futex current new) spurious waker)
    (hstep : world.pollEnter task futex current new spurious waker = some outcome) :
    Arrives world task act outcome := by
  unfold World.pollEnter at hstep
  split at hstep
  case isTrue =>
    cases hstep
    exact .none (fun _ _ _ _ _ _ => by simp) rfl
  case isFalse hphase =>
    rw [not_not] at hphase
    split at hstep
    case isTrue =>
      cases hstep
      exact .none (fun _ _ _ _ _ _ => by simp) rfl
    case isFalse =>
      simp only at hstep
      split at hstep
      case h_1 =>
        cases hstep
        exact .none (fun _ _ _ _ _ _ => by simp) rfl
      case h_2 old _ _ =>
        split at hstep
        case isTrue =>
          cases hstep
          refine .wait futex current new spurious waker hact rfl hphase ?_
          simp only [List.filterMap_append]
          split <;> rfl
        case isFalse =>
          cases hstep
          refine .none (fun _ _ _ _ _ _ => by simp) ?_
          simp only [List.filterMap_append]
          split <;> rfl

theorem step_arrives (hstep : world.step task act = some outcome) :
    Arrives world task act outcome := by
  cases act with
  | call op spurious waker =>
      simp only [World.step] at hstep
      split at hstep
      case isFalse => cases hstep
      cases op with
      | cmpxchgWaitWeak futex current new => exact pollEnter_arrives rfl hstep
      | waiter futex queue =>
          refine .none (fun _ _ _ _ _ h => by cases h) ?_
          simp only [World.call, World.newWaiter] at hstep
          split at hstep <;> cases hstep
          · simp only [List.filterMap_append]
            split <;> rfl
          · rfl
      | pending =>
          refine .none (fun _ _ _ _ _ h => by cases h) ?_
          simp only [World.call] at hstep
          split at hstep <;> cases hstep <;> rfl
      | wake =>
          refine .none (fun _ _ _ _ _ h => by cases h) ?_
          simp only [World.call, World.wake] at hstep
          split at hstep
          · cases hstep
            rfl
          · split at hstep <;> cases hstep <;> rfl
      | requeue futex =>
          refine .none (fun _ _ _ _ _ h => by cases h) ?_
          simp only [World.call, World.requeue] at hstep
          split at hstep
          · cases hstep
            rfl
          · split at hstep <;> cases hstep <;> rfl
      | _ =>
          refine .none (fun _ _ _ _ _ h => by cases h) ?_
          have huntouched := untouched_call hstep
          simp only [reduceCtorEq, exists_false, or_false] at huntouched
          rw [huntouched.events]
          rfl
  | poll waker =>
      refine .none (fun _ _ _ _ _ h => by cases h) ?_
      simp only [World.step, World.poll] at hstep
      split at hstep <;> cases hstep
      rfl
  | drop =>
      refine .none (fun _ _ _ _ _ h => by cases h) ?_
      simp only [World.step, World.drop] at hstep
      split at hstep <;> cases hstep
      rfl
  | step spurious =>
      refine .none (fun _ _ _ _ _ h => by cases h) ?_
      simp only [World.step] at hstep
      split at hstep
      case isTrue =>
        unfold World.busyStep at hstep
        split at hstep
        · cases hstep
        · cases hstep
          rfl
        · cases hstep
          rfl
        · cases hstep
          rfl
        · simp only at hstep
          split at hstep <;> cases hstep <;> rfl
      case isFalse =>
        split at hstep
        case h_1 =>
          unfold World.pollWaiting at hstep
          split at hstep
          · cases hstep
            rfl
          · split at hstep <;> cases hstep <;> rfl
          · cases hstep
            rfl
        case h_2 =>
          unfold World.dropStep at hstep
          split at hstep
          · split at hstep <;> cases hstep
            rfl
          · cases hstep
            rfl
          · cases hstep
            rfl
          · cases hstep
            rfl
          · split at hstep
            · rw [Option.map_eq_some_iff] at hstep
              obtain ⟨store, -, rfl⟩ := hstep
              rfl
            · cases hstep
              rfl
          · cases hstep
            rfl
          · cases hstep
            rfl
          · split at hstep <;> cases hstep <;> rfl
          · cases hstep

/-- Outside a requeue only an arrival lengthens a queue. -/
theorem Inv.step_contents (hinv : Inv world place) (hstep : world.step task act = some outcome)
    (hbusy : ∀ futex current, world.busy task ≠ .requeueLink futex current) (futex : φ)
    (queue : κ) :
    (outcome.world.store.contents futex queue).Sublist
      (world.store.contents futex queue ++ outcome.events.filterMap Event.arrival) := by
  have heffect := congrArg (fun fifo => fifo.waiting queue) (hinv.step_fifo hstep futex)
  simp only [fifo] at heffect
  rw [heffect]
  cases step_arrives hstep with
  | wait target current new spurious waker hact hresp hphase hevents =>
      subst hact
      rw [hevents]
      simp only [hresp, fifoOp]
      split
      · simp only [Fifo.apply, Function.update_apply]
        split
        · rename_i heq
          rw [← heq]
        · exact List.sublist_append_left _ _
      · exact List.sublist_append_left _ _
  | none hresp hevents =>
      rw [hevents, List.append_nil]
      refine Fifo.apply_sublist ?_ ?_ queue
      · intro waiter queue' new heq
        simp only [fifoOp] at heq
        split at heq
        · rename_i target current new' spurious waker hresp'
          exact hresp target current new' spurious waker rfl hresp'
        all_goals grind
      · intro batch heq
        simp only [fifoOp] at heq
        split at heq
        case h_6 =>
          split at heq
          · rename_i target current hrequeue
            exact hbusy target current hrequeue
          all_goals grind
        all_goals grind

/-- Whoever arrives waited nowhere. -/
theorem Inv.fresh_of_arrival (hinv : Inv world place)
    (hstep : world.step task act = some outcome) :
    outcome.events.filterMap Event.arrival = [] ∨
      outcome.events.filterMap Event.arrival = [task] ∧
        ∀ futex queue, task ∉ world.store.contents futex queue := by
  cases step_arrives hstep with
  | wait target current new spurious waker hact hresp hphase hevents =>
      refine Or.inr ⟨hevents, fun futex queue hmem => ?_⟩
      have hnowhere : place task = .nowhere := by
        refine hinv.nowhere ?_
        rw [hphase]
        simp [Phase.Waits]
      have hfutex := hinv.places.mem_contents hmem
      rw [hnowhere] at hfutex
      cases hfutex
  | none hresp hevents => exact Or.inl hevents

end World

/-! ## The runs of a client -/

namespace System

variable {τ φ κ α ω M L C : Type} [DecidableEq τ]
  {client : Client τ φ κ α M L C} {holds : L → Holding φ κ} {usage : Usage τ L}
  {inv : Board τ φ κ α → M → (τ → L) → Prop} {queue : κ} {atom : φ → α}
  {futex : φ} {memory : M}

theorem arrivals_settle (client : Client τ φ κ α M L C) (sys : ListSystem τ φ κ α ω M L)
    (task : τ) (outcome : Outcome (ListStore τ φ κ) τ φ α ω) :
    arrivals (sys.settle client task outcome).2 = outcome.events.filterMap Event.arrival := by
  have hevents : arrivals (outcome.events.map (.event : _ → Mark τ φ α ω L C)) =
      outcome.events.filterMap Event.arrival := by
    simp only [arrivals, List.filterMap_map]
    rfl
  unfold settle
  split
  · exact hevents
  · split <;> rw [arrivals_append, hevents] <;> exact List.append_nil _

variable [DecidableEq κ]

/-- Every queue, with the waiters on the inbox, is in the order of arrival. -/
def InLine (history : List (Mark τ φ α ω L C)) (sys : ListSystem τ φ κ α ω M L) : Prop :=
  ∀ futex queue,
    (sys.world.store.contents futex queue).Sublist (lastArrivals (arrivals history))

variable [DecidableEq φ] [DecidableEq α] [DecidableEq ω]

/-- Of a client that never requeues, only arrivals lengthen the queues, and
whoever arrives waited nowhere. -/
theorem Verified.arrivals_next {sys : ListSystem τ φ κ α ω M L}
    (hsys : sys.Verified client holds inv)
    (hrequeue : ∀ pc futex, client.code pc ≠ .call (.requeue futex)) {task : τ}
    {label : Label C ω} {result : ListSystem τ φ κ α ω M L × List (Mark τ φ α ω L C)}
    (hnext : sys.next client task label = some result) (futex : φ) (queue : κ) :
    (result.1.world.store.contents futex queue).Sublist
        (sys.world.store.contents futex queue ++ arrivals result.2) ∧
      (arrivals result.2 = [] ∨
        arrivals result.2 = [task] ∧ task ∉ sys.world.store.contents futex queue) := by
  have hsame (mark : Mark τ φ α ω L C) (hmark : mark.arrival = none) :
      (sys.world.store.contents futex queue).Sublist
          (sys.world.store.contents futex queue ++ arrivals [mark]) ∧
        (arrivals [mark] = [] ∨
          arrivals [mark] = [task] ∧ task ∉ sys.world.store.contents futex queue) := by
    have hnone : arrivals [mark] = [] := by simp [arrivals, hmark]
    rw [hnone, List.append_nil]
    exact ⟨List.Sublist.refl _, Or.inl rfl⟩
  have hbusy : ∀ target current, sys.world.busy task ≠ .requeueLink target current := by
    intro target current hbusy
    refine hrequeue _ target ((hsys.fits task).requeueing target ?_)
    simp [World.board, hbusy, Busy.activity]
  obtain ⟨place, hplace⟩ := hsys.placed
  obtain ⟨-, hstep⟩ := next_spec hnext
  cases hstep with
  | start => exact hsame _ rfl
  | act => exact hsame _ rfl
  | fail => exact hsame _ rfl
  | move hrequest hstep =>
      rw [settle_world, arrivals_settle]
      refine ⟨hplace.step_contents hstep hbusy futex queue, ?_⟩
      exact (hplace.fresh_of_arrival hstep).imp_right fun h => ⟨h.1, h.2 futex queue⟩

/-- Whoever is in a queue was there, or has just arrived. -/
theorem Verified.contents_next {sys : ListSystem τ φ κ α ω M L}
    (hsys : sys.Verified client holds inv)
    (hrequeue : ∀ pc futex, client.code pc ≠ .call (.requeue futex)) {task waiter : τ}
    {label : Label C ω} {result : ListSystem τ φ κ α ω M L × List (Mark τ φ α ω L C)}
    (hnext : sys.next client task label = some result) {futex : φ} {queue : κ}
    (hmem : waiter ∈ result.1.world.store.contents futex queue) :
    waiter ∈ sys.world.store.contents futex queue ∨ waiter ∈ arrivals result.2 :=
  List.mem_append.mp ((hsys.arrivals_next hrequeue hnext futex queue).1.subset hmem)

theorem InLine.next {history : List (Mark τ φ α ω L C)} {sys : ListSystem τ φ κ α ω M L}
    (hline : InLine history sys) (hsys : sys.Verified client holds inv)
    (hrequeue : ∀ pc futex, client.code pc ≠ .call (.requeue futex)) {task : τ}
    {label : Label C ω} {result : ListSystem τ φ κ α ω M L × List (Mark τ φ α ω L C)}
    (hnext : sys.next client task label = some result) :
    InLine (history ++ result.2) result.1 := by
  intro futex queue
  obtain ⟨hcontents, harrivals⟩ := hsys.arrivals_next hrequeue hnext futex queue
  refine hcontents.trans ?_
  rw [arrivals_append]
  rcases harrivals with hnone | ⟨hone, hfresh⟩
  · rw [hnone, List.append_nil, List.append_nil]
    exact hline futex queue
  · rw [hone]
    exact sublist_arrive (hline futex queue) hfresh

/-- A client that never requeues keeps its waiters in the order of arrival. -/
theorem inLine_of_trace (htyped : client.Typed holds)
    (hinv : client.Invariant holds usage inv)
    (hinit : inv (World.initial (ListStore.empty queue) atom futex :
      ListWorld τ φ κ α ω).board memory fun _ => client.idle)
    (hrequeue : ∀ pc futex, client.code pc ≠ .call (.requeue futex))
    {history : List (Mark τ φ α ω L C)} {sys : ListSystem τ φ κ α ω M L}
    (htrace : (machine client usage (ListStore.empty queue) atom futex memory :
      Machine (ListSystem τ φ κ α ω M L) _ _).Trace history sys) : InLine history sys := by
  refine htrace.invariant (motive := InLine) (fun futex queue => ?_) ?_
  · exact List.nil_sublist _
  · rintro history sys ⟨task, label⟩ next marks htrace hline hnext
    obtain ⟨hnext, -⟩ := machine_next.mp hnext
    exact hline.next (Verified.of_reachable htyped hinv hinit htrace.reachable) hrequeue hnext

theorem inLine_of_traceWithin [Fintype τ] {region : HeapSystem τ φ κ α ω M L → Prop}
    (hverified : ∀ (history : List (Mark τ φ α ω L C)) (sys : HeapSystem τ φ κ α ω M L),
      (machine client usage (HeapStore.empty queue) atom futex memory :
        Machine (HeapSystem τ φ κ α ω M L) _ _).TraceWithin region history sys →
          sys.lists.Verified client holds inv)
    (hrequeue : ∀ pc futex, client.code pc ≠ .call (.requeue futex))
    {history : List (Mark τ φ α ω L C)} {sys : HeapSystem τ φ κ α ω M L}
    (htrace : (machine client usage (HeapStore.empty queue) atom futex memory :
      Machine (HeapSystem τ φ κ α ω M L) _ _).TraceWithin region history sys) :
    InLine history sys.lists := by
  induction htrace with
  | init =>
      rw [lists_init]
      exact fun _ _ => List.nil_sublist _
  | step hbefore hnext hafter hline =>
      obtain ⟨hnext', -⟩ := machine_next.mp (next_lists hbefore.trace hnext)
      exact hline.next (hverified _ _ hbefore) hrequeue hnext'

omit [DecidableEq φ] [DecidableEq α] [DecidableEq ω] in
/-- Whoever is popped arrived before all others in the queue and the inbox. -/
theorem InLine.first {history : List (Mark τ φ α ω L C)} {sys : ListSystem τ φ κ α ω M L}
    (hline : InLine history sys) {waiter : τ} {futex : φ} {queue : κ}
    (hpopped : (sys.world.store.queues futex queue).head? = some waiter) :
    waiter ∈ sys.world.store.contents futex queue ∧
      ∀ other ∈ sys.world.store.contents futex queue, other ≠ waiter →
        [waiter, other].Sublist (lastArrivals (arrivals history)) := by
  obtain ⟨rest, hrest⟩ := List.head?_eq_some_iff.mp hpopped
  have hcontents : sys.world.store.contents futex queue =
      waiter :: (rest ++ sys.world.store.arrivals futex queue) := by
    simp [ListStore.contents, hrest]
  have hall := hline futex queue
  rw [hcontents] at hall ⊢
  refine ⟨List.mem_cons_self, fun other hother hne => ?_⟩
  exact first_of_sublist hall ((List.mem_cons.mp hother).resolve_left hne)

end System

end AsyncMutex
