import AsyncMutex.Client

/-!
# Wakers that are not lost

`World.lastWaker` is the waker that the last poll of a future brought, until
somebody wakes it.  A future that waits keeps this waker in its waiter; and once
the waiter is woken, either the waker was woken too or a task is about to.
-/

namespace AsyncMutex

namespace World

variable {S τ φ κ α ω : Type}

/-- What is known about the waker of the future of `task`. -/
structure Notified (world : World S τ φ α ω) (task : τ) : Prop where
  kept : ∀ waker last, world.phase task = .enter ∨ world.phase task = .entered ∨
    world.phase task = .pending → world.waker task = .waiting waker →
      world.lastWaker task = some last → last = waker
  polled : ∀ new seen last, world.phase task = .polling new seen →
    world.lastWaker task = some last → last = new
  woken : ∀ last, world.phase task = .entered ∨ world.phase task = .pending →
    world.waker task = .done → world.lastWaker task = some last →
      ∃ other, world.busy other = .waking task last

namespace Notified

variable [FutexStore S τ φ κ] {world world' : World S τ φ α ω} {task other : τ}

/-- Nothing changed for the task. -/
theorem frame (hworld : world.Notified task) (hphase : world'.phase task = world.phase task)
    (hwaker : world'.waker task = world.waker task)
    (hlast : world'.lastWaker task = world.lastWaker task)
    (hbusy : ∀ other waker, world.busy other = .waking task waker →
      world'.busy other = .waking task waker) : world'.Notified task := by
  constructor
  case kept =>
    rw [hphase, hwaker, hlast]
    exact hworld.kept
  case polled =>
    rw [hphase, hlast]
    exact hworld.polled
  case woken =>
    rw [hphase, hwaker, hlast]
    intro last hwaits hdone hsome
    obtain ⟨other, hother⟩ := hworld.woken last hwaits hdone hsome
    exact ⟨other, hbusy other last hother⟩

/-- Nothing that matters here changed. -/
theorem same (hworld : ∀ task, world.Notified task) (hphase : world'.phase = world.phase)
    (hwaker : world'.waker = world.waker) (hlast : world'.lastWaker = world.lastWaker)
    (hbusy : world'.busy = world.busy) (task : τ) : world'.Notified task := by
  refine (hworld task).frame (by rw [hphase]) (by rw [hwaker]) (by rw [hlast]) ?_
  rw [hbusy]
  exact fun _ _ => id

/-- The waiter has the waker of the last poll. -/
theorem of_waiting (waker : ω) (hphase : ∀ new seen, world.phase task ≠ .polling new seen)
    (hwaker : world.waker task = .waiting waker)
    (hlast : ∀ last, world.lastWaker task = some last → last = waker) :
    world.Notified task := by
  constructor
  case kept =>
    intro waker' last _ hwaker' hsome
    rw [hwaker] at hwaker'
    cases hwaker'
    exact hlast last hsome
  case polled => exact fun new seen last hpolling => absurd hpolling (hphase new seen)
  case woken =>
    intro last _ hdone
    rw [hwaker] at hdone
    cases hdone

theorem of_polling {new : ω} {seen : WaiterWaker ω}
    (hphase : world.phase task = .polling new seen)
    (hlast : ∀ last, world.lastWaker task = some last → last = new) :
    world.Notified task := by
  constructor
  case kept =>
    intro waker last hwaits
    rw [hphase] at hwaits
    simp at hwaits
  case polled =>
    intro new' seen' last hpolling hsome
    rw [hphase] at hpolling
    cases hpolling
    exact hlast last hsome
  case woken =>
    intro last hwaits
    rw [hphase] at hwaits
    simp at hwaits

variable [DecidableEq τ]

/-- The future of `actor` changes, and its waker does not. -/
theorem setPhase (hworld : ∀ task, world.Notified task) {actor : τ} {phase : Phase τ φ α ω}
    (hphase : world'.phase = Function.update world.phase actor phase)
    (hwaker : world'.waker = world.waker) (hlast : world'.lastWaker = world.lastWaker)
    (hbusy : world'.busy = world.busy) (hpolling : ∀ new seen, phase ≠ .polling new seen)
    (hwaits : phase = .enter ∨ phase = .entered ∨ phase = .pending →
      phase = .pending ∧ world.phase actor = .entered) (task : τ) :
    world'.Notified task := by
  by_cases htask : task = actor
  · subst htask
    have hself : world'.phase task = phase := by
      rw [hphase, Function.update_self]
    constructor
    case kept =>
      rw [hself, hwaker, hlast]
      intro waker last hstage
      obtain ⟨-, hentered⟩ := hwaits hstage
      exact (hworld task).kept waker last (Or.inr (Or.inl hentered))
    case polled =>
      rw [hself]
      exact fun new seen last hpoll => absurd hpoll (hpolling new seen)
    case woken =>
      rw [hself, hwaker, hlast, hbusy]
      intro last hstage
      obtain ⟨-, hentered⟩ := hwaits (Or.inr hstage)
      exact (hworld task).woken last (Or.inl hentered)
  · refine (hworld task).frame ?_ (by rw [hwaker]) (by rw [hlast]) ?_
    · rw [hphase, Function.update_of_ne htask]
    · rw [hbusy]
      exact fun _ _ => id

/-- A longer operation of `actor` goes on. -/
theorem setBusy (hworld : ∀ task, world.Notified task) {actor : τ} {busy : Busy τ φ α ω}
    (hbusy : world'.busy = Function.update world.busy actor busy)
    (hphase : world'.phase = world.phase) (hwaker : world'.waker = world.waker)
    (hlast : world'.lastWaker = world.lastWaker)
    (hwaking : ∀ waiter waker, world.busy actor ≠ .waking waiter waker) (task : τ) :
    world'.Notified task := by
  refine (hworld task).frame (by rw [hphase]) (by rw [hwaker]) (by rw [hlast]) ?_
  intro other waker hother
  have hne : other ≠ actor := by
    rintro rfl
    exact hwaking _ _ hother
  rw [hbusy, Function.update_of_ne hne, hother]

variable [DecidableEq φ] [DecidableEq α] [DecidableEq ω]

theorem newWaiter (hworld : ∀ task, world.Notified task) {actor : τ} {futex : φ} {queue : κ}
    {outcome : Outcome S τ φ α ω} (hstep : world.newWaiter actor futex queue = some outcome)
    (task : τ) : outcome.world.Notified task := by
  unfold World.newWaiter at hstep
  split at hstep <;> cases hstep
  case isTrue.refl =>
    by_cases htask : task = actor
    · subst htask
      constructor <;> simp
    · refine (hworld task).frame ?_ ?_ rfl fun _ _ => id <;>
        exact Function.update_of_ne htask _ _
  case isFalse.refl => exact hworld task

theorem pollEnter (hworld : ∀ task, world.Notified task) {actor : τ} {futex : φ}
    {current : FutexAtom τ α} {new : α} {spurious : Bool} {waker : ω}
    {outcome : Outcome S τ φ α ω}
    (hstep : world.pollEnter actor futex current new spurious waker = some outcome)
    (task : τ) : outcome.world.Notified task := by
  unfold World.pollEnter at hstep
  split at hstep
  case isTrue =>
    cases hstep
    exact hworld task
  case isFalse hphase =>
    rw [Ne, not_not] at hphase
    split at hstep
    case isTrue =>
      cases hstep
      exact hworld task
    case isFalse =>
      split at hstep
      case h_1 =>
        cases hstep
        refine same hworld ?_ ?_ ?_ ?_ task <;> rfl
      case h_2 hdone =>
        cases hold : world.waker actor with
        | none =>
            simp only [hold] at hstep
            split at hstep <;> cases hstep
            all_goals
              by_cases htask : task = actor
              · subst htask
                refine of_waiting waker ?_ ?_ ?_ <;> simp [hphase]
              · exact (hworld task).frame (by simp [htask]) (by simp [htask])
                  (by simp [htask]) fun _ _ => id
        | waiting old =>
            have hkept := (hworld actor).kept old
            simp only [hold] at hstep
            split at hstep <;> cases hstep
            all_goals
              by_cases htask : task = actor
              · subst htask
                refine of_waiting old ?_ ?_ ?_
                · simp [hphase]
                · exact hold
                · exact fun last hsome => hkept last (Or.inl hphase) hold hsome
              · refine (hworld task).frame ?_ rfl rfl fun _ _ => id
                simp [htask]
        | done => exact absurd hold hdone

omit [DecidableEq φ] [DecidableEq α] in
theorem pollWaiting (hworld : ∀ task, world.Notified task) {actor : τ} {newWaker : ω}
    {seen : WaiterWaker ω} {spurious : Bool} {outcome : Outcome S τ φ α ω}
    (hphase : world.phase actor = .polling newWaker seen)
    (hstep : world.pollWaiting actor newWaker seen spurious = some outcome) (task : τ) :
    outcome.world.Notified task := by
  have hpolled (last : ω) := (hworld actor).polled newWaker seen last hphase
  unfold World.pollWaiting at hstep
  cases seen with
  | none =>
      cases hstep
      apply setPhase hworld <;> first | rfl | simp
  | done =>
      cases hstep
      apply setPhase hworld <;> first | rfl | simp
  | waiting oldWaker =>
      simp only at hstep
      split at hstep <;> cases hstep
      case isTrue.refl =>
        by_cases htask : task = actor
        · subst htask
          refine of_waiting newWaker ?_ ?_ hpolled <;> simp
        · exact (hworld task).frame (Function.update_of_ne htask _ _)
            (Function.update_of_ne htask _ _) rfl fun _ _ => id
      case isFalse.refl =>
        by_cases htask : task = actor
        · subst htask
          exact of_polling (Function.update_self _ _ _) hpolled
        · exact (hworld task).frame (Function.update_of_ne htask _ _) rfl rfl fun _ _ => id

omit [DecidableEq φ] [DecidableEq α] [DecidableEq ω] in
theorem wake (hworld : ∀ task, world.Notified task) {actor : τ}
    (hidle : world.busy actor = .none) {outcome : Outcome S τ φ α ω}
    (hstep : world.wake actor = some outcome) (task : τ) :
    outcome.world.Notified task := by
  unfold World.wake at hstep
  split at hstep
  case h_1 =>
    cases hstep
    exact hworld task
  case h_2 waiter hhandle =>
    split at hstep <;> cases hstep
    case h_1.refl waker hwaker =>
      by_cases htask : task = waiter
      · subst htask
        constructor
        case kept => simp
        case polled => exact (hworld task).polled
        case woken =>
          intro last hstage _ hsome
          -- the waker that was just taken is the one of the last poll
          have hlast := (hworld task).kept waker last (Or.inr hstage) hwaker hsome
          refine ⟨actor, ?_⟩
          rw [hlast]
          exact Function.update_self _ _ _
      · refine (hworld task).frame rfl (Function.update_of_ne htask _ _) rfl ?_
        intro other waker' hother
        have hne : other ≠ actor := by
          rintro rfl
          rw [hidle] at hother
          cases hother
        exact (Function.update_of_ne hne _ _).trans hother
    case h_2.refl => exact hworld task

omit [DecidableEq φ] in
theorem busyStep (hworld : ∀ task, world.Notified task) {actor : τ} {spurious : Bool}
    {outcome : Outcome S τ φ α ω} (hstep : world.busyStep actor spurious = some outcome)
    (task : τ) : outcome.world.Notified task := by
  unfold World.busyStep at hstep
  split at hstep
  case h_1 => cases hstep
  case h_2 waiter waker hbusy =>
    cases hstep
    have hkeep (last : ω) (hlast : last ≠ waker ∨ task ≠ waiter) (other : τ)
        (hother : world.busy other = .waking task last) :
        Function.update world.busy actor .none other = .waking task last := by
      have hne : other ≠ actor := by
        rintro rfl
        rw [hbusy] at hother
        cases hother
        simp at hlast
      rw [Function.update_of_ne hne, hother]
    by_cases htask : task = waiter
    · subst htask
      by_cases hsame : world.lastWaker task = some waker
      · rw [if_pos hsame]
        constructor <;> simp
      · rw [if_neg hsame]
        refine ⟨(hworld task).kept, (hworld task).polled, fun last hstage hdone hsome => ?_⟩
        obtain ⟨other, hother⟩ := (hworld task).woken last hstage hdone hsome
        have hlast : last ≠ waker := by
          rintro rfl
          exact hsame hsome
        exact ⟨other, hkeep last (Or.inl hlast) other hother⟩
    · have hsame : ((if world.lastWaker waiter = some waker then
          world.setLastWaker waiter none else world).setBusy actor .none).lastWaker task =
            world.lastWaker task := by
        split
        · exact Function.update_of_ne htask _ _
        · rfl
      have hbusy' : ((if world.lastWaker waiter = some waker then
          world.setLastWaker waiter none else world).setBusy actor .none).busy =
            Function.update world.busy actor .none := by
        split <;> rfl
      refine (hworld task).frame ?_ ?_ hsame fun other last hother => ?_
      · split <;> rfl
      · split <;> rfl
      · rw [hbusy']
        exact hkeep last (Or.inr htask) other hother
  case h_3 futex waiter hbusy =>
    cases hstep
    apply setBusy hworld <;> first | rfl | simp [hbusy]
  case h_4 futex hbusy =>
    cases hstep
    apply setBusy hworld <;> first | rfl | simp [hbusy]
  case h_5 futex current hbusy =>
    simp only at hstep
    split at hstep <;> cases hstep
    · apply setBusy hworld <;> first | rfl | simp [hbusy]
    · apply setBusy hworld <;> first | rfl | simp [hbusy]

omit [DecidableEq φ] [DecidableEq α] [DecidableEq ω] in
theorem flipAt (hworld : ∀ task, world.Notified task) {actor : τ} (owner : φ)
    (current : FutexAtom τ α) (task : τ) : (world.flipAt actor owner current).Notified task := by
  unfold World.flipAt
  split
  · apply setPhase hworld <;> first | rfl | simp
  · apply setPhase hworld <;> first | rfl | simp

omit [DecidableEq ω] in
theorem dropStep (hworld : ∀ task, world.Notified task) {actor : τ} {spurious : Bool}
    {outcome : Outcome S τ φ α ω} (hstep : world.dropStep actor spurious = some outcome)
    (task : τ) : outcome.world.Notified task := by
  unfold World.dropStep at hstep
  split at hstep
  case h_1 owner _ =>
    split at hstep <;> cases hstep
    apply setPhase hworld <;> first | rfl | simp
  case h_2 owner _ =>
    cases hstep
    split
    · apply setPhase hworld <;> first | rfl | simp
    · apply setPhase hworld <;> first | rfl | simp
  case h_3 owner owner2 _ =>
    cases hstep
    apply setPhase hworld <;> first | rfl | simp
  case h_4 owner _ =>
    cases hstep
    exact flipAt hworld owner _ task
  case h_5 owner current _ =>
    split at hstep
    · obtain ⟨store, -, rfl⟩ := Option.map_eq_some_iff.mp hstep
      apply setPhase hworld <;> first | rfl | simp
    · cases hstep
      exact flipAt hworld owner _ task
  case h_6 owner _ =>
    cases hstep
    apply setPhase hworld <;> first | rfl | simp
  case h_7 owner _ =>
    cases hstep
    apply setPhase hworld <;> first | rfl | simp
  case h_8 =>
    have hfree (waker : WaiterWaker ω) (task : τ) :
        ((world.setWaker actor waker).setPhase actor .idle).Notified task := by
      by_cases htask : task = actor
      · subst htask
        constructor <;> simp
      · exact (hworld task).frame (Function.update_of_ne htask _ _)
          (Function.update_of_ne htask _ _) rfl fun _ _ => id
    split at hstep <;> cases hstep
    · apply setPhase hworld <;> first | rfl | simp
    · exact hfree .none task
    · exact hfree .none task
  case h_9 => cases hstep

theorem call (hworld : ∀ task, world.Notified task) {actor : τ} {op : Op τ φ κ α}
    {spurious : Bool} {waker : ω} (hrunning : world.Running actor)
    {outcome : Outcome S τ φ α ω}
    (hstep : world.call actor op spurious waker = some outcome) (task : τ) :
    outcome.world.Notified task := by
  have hquiet (hphase : outcome.world.phase = world.phase)
      (hwaker : outcome.world.waker = world.waker)
      (hlast : outcome.world.lastWaker = world.lastWaker)
      (hbusy : outcome.world.busy = world.busy) : outcome.world.Notified task :=
    same hworld hphase hwaker hlast hbusy task
  cases op with
  | waiter futex queue => exact newWaiter hworld hstep task
  | cmpxchgWaitWeak futex current new => exact pollEnter hworld hstep task
  | pending =>
      simp only [World.call] at hstep
      split at hstep <;> cases hstep
      case isTrue.refl hentered =>
        apply setPhase hworld <;> first | rfl | simp [hentered]
      case isFalse.refl => exact hworld task
  | wake => exact wake hworld hrunning.1 hstep task
  | requeue futex =>
      simp only [World.call, World.requeue] at hstep
      split at hstep
      · cases hstep
        exact hworld task
      · split at hstep <;> cases hstep
        · exact hworld task
        · apply setBusy hworld <;> first | rfl | simp [hrunning.1]
  | load futex =>
      cases hstep
      exact hworld task
  | cmpxchgWeak futex current new =>
      simp only [World.call, World.cmpxchgWeak] at hstep
      split at hstep <;> cases hstep <;> exact hquiet rfl rfl rfl rfl
  | lock futex =>
      simp only [World.call, World.lock] at hstep
      split at hstep
      · cases hstep
        exact hworld task
      · split at hstep <;> cases hstep
        exact hquiet rfl rfl rfl rfl
  | unlock futex =>
      simp only [World.call, World.unlock] at hstep
      split at hstep <;> cases hstep <;> exact hquiet rfl rfl rfl rfl
  | borrow futex =>
      simp only [World.call, World.borrow] at hstep
      split at hstep
      · cases hstep
        exact hworld task
      · split at hstep <;> cases hstep <;> exact hquiet rfl rfl rfl rfl
  | release futex =>
      simp only [World.call, World.release] at hstep
      split at hstep <;> cases hstep <;> exact hquiet rfl rfl rfl rfl
  | cmpxchgEnqueueWeak futex current new =>
      simp only [World.call, World.cmpxchgEnqueueWeak] at hstep
      split at hstep
      · cases hstep
        exact hworld task
      · split at hstep
        · obtain ⟨store, -, rfl⟩ := Option.map_eq_some_iff.mp hstep
          exact hquiet rfl rfl rfl rfl
        · cases hstep
          exact hworld task
  | isEmpty futex queue =>
      simp only [World.call, World.isEmpty] at hstep
      split at hstep <;> cases hstep <;> exact hquiet rfl rfl rfl rfl
  | pop futex queue =>
      simp only [World.call, World.pop] at hstep
      split at hstep <;> cases hstep <;> exact hquiet rfl rfl rfl rfl
  | popMany futex count queue =>
      simp only [World.call, World.popMany] at hstep
      split at hstep <;> cases hstep <;> exact hquiet rfl rfl rfl rfl
  | count =>
      obtain ⟨count, -, rfl⟩ := Option.map_eq_some_iff.mp hstep
      exact hworld task
  | next =>
      simp only [World.call, World.next] at hstep
      split at hstep <;> cases hstep <;> exact hquiet rfl rfl rfl rfl

theorem step (hworld : ∀ task, world.Notified task) {actor : τ} {act : Act τ φ κ α ω}
    {outcome : Outcome S τ φ α ω} (hstep : world.step actor act = some outcome) (task : τ) :
    outcome.world.Notified task := by
  cases act with
  | call op spurious waker =>
      simp only [World.step] at hstep
      split at hstep
      case isTrue hrunning => exact call hworld hrunning hstep task
      case isFalse => cases hstep
  | poll waker =>
      simp only [World.step, World.poll] at hstep
      split at hstep <;> cases hstep
      by_cases htask : task = actor
      · subst htask
        constructor <;> simp
      · exact (hworld task).frame (Function.update_of_ne htask _ _) rfl
          (Function.update_of_ne htask _ _) fun _ _ => id
  | drop =>
      simp only [World.step, World.drop] at hstep
      split at hstep <;> cases hstep
      apply setPhase hworld <;> first | rfl | simp
  | step spurious =>
      simp only [World.step] at hstep
      split at hstep
      · exact busyStep hworld hstep task
      · split at hstep
        case h_1 newWaker seen hphase => exact pollWaiting hworld hphase hstep task
        case h_2 => exact dropStep hworld hstep task

end Notified

end World

namespace System

variable {S τ φ κ α ω M L C : Type} [DecidableEq τ] [DecidableEq φ] [DecidableEq α]
  [DecidableEq ω] [FutexStore S τ φ κ] {client : Client τ φ κ α M L C} {usage : Usage τ L}
  {store : S} {atom : φ → α} {futex : φ} {memory : M} {sys : System S τ φ α ω M L}

theorem notified_of_reachable
    (hreach : (machine client usage store atom futex memory :
      Machine (System S τ φ α ω M L) _ (Mark τ φ α ω L C)).Reachable sys) (task : τ) :
    sys.world.Notified task := by
  revert task
  refine hreach.invariant (motive := fun sys => ∀ task, sys.world.Notified task) ?_ ?_
  · intro task
    constructor <;> simp [machine, World.initial]
  · rintro sys ⟨actor, label⟩ next marks - hsys hnext task
    obtain ⟨hnext, -⟩ := machine_next.mp hnext
    obtain ⟨-, hstep⟩ := next_spec hnext
    generalize hresult : (next, marks) = result at hstep
    have hworld : next.world = result.1.world := by rw [← hresult]
    rw [hworld]
    cases hstep with
    | start => exact hsys task
    | act => exact hsys task
    | fail => exact hsys task
    | move hrequest hstep =>
        rw [settle_world]
        exact World.Notified.step hsys hstep task

/-- While nobody is about to wake a waker, a future whose waker was not woken
since its last poll is asleep. -/
theorem asleep_of_lastWaker
    (hreach : (machine client usage store atom futex memory :
      Machine (System S τ φ α ω M L) _ (Mark τ φ α ω L C)).Reachable sys) {task : τ}
    (hpending : sys.world.phase task = .pending) (hlast : sys.world.lastWaker task ≠ none)
    (hidle : ∀ other, sys.world.busy other = .none) : sys.world.awake task = false := by
  obtain ⟨last, hlast⟩ := Option.ne_none_iff_exists'.mp hlast
  unfold World.awake
  cases hwaker : sys.world.waker task with
  | none => rfl
  | waiting waker => rfl
  | done =>
      obtain ⟨other, hother⟩ := (notified_of_reachable hreach task).woken last
        (Or.inr hpending) hwaker hlast
      rw [hidle] at hother
      cases hother

end System

end AsyncMutex
