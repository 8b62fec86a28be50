import AsyncMutex.WorldRefinement

/-!
# The lives of the pinned waiters

A `Waiter` belongs to its task.  Safe code may wait on it again after a future
on it ended, leak a pending future with `mem::forget`, and drop the waiter as
soon as no future borrows it.

`Reusing` runs these operations as the code does.  `Renewing` builds a new
waiter of the same queue in place of waiting again.
-/

namespace AsyncMutex

open DoublyLinked

/-- What safe code can do with a futex and its pinned waiters. -/
inductive Use (τ φ κ α ω : Type) where
  | act (act : Act τ φ κ α ω)
  /-- Build another future on a waiter that was waited on before, up to the
  compare-exchange of its first poll. -/
  | again (current : FutexAtom τ α)
  /-- `mem::forget` the pending future. -/
  | forget
  | dropWaiter

structure Lives (S τ φ α ω : Type) where
  world : World S τ φ α ω
  /-- The waiter of the task exists. -/
  alive : τ → Bool
  /-- The pending future of the task was forgotten. -/
  leaked : τ → Bool

/-- One step in the history of the waiters. -/
structure Report (τ φ κ α ω : Type) where
  task : τ
  use : Use τ φ κ α ω
  resp : Option (Resp τ α)
  events : List (Event τ φ ω)

namespace Lives

variable {S τ φ κ α ω : Type} [DecidableEq τ] [DecidableEq φ] [DecidableEq α]
  [DecidableEq ω] [FutexStore S τ φ κ]

/-- A step of the world.  A task that forgot its future goes on with anything
but this future. -/
def stepWorld (lives : Lives S τ φ α ω) (task : τ) (act : Act τ φ κ α ω) :
    Option (Outcome S τ φ α ω) :=
  if lives.leaked task then
    match act with
    | .call op spurious waker =>
        if lives.world.busy task = .none then
          lives.world.call task op spurious waker
        else none
    | .step spurious => lives.world.busyStep task spurious
    | _ => none
  else lives.world.step task act

def wait (lives : Lives S τ φ α ω) (task : τ) (act : Act τ φ κ α ω) :
    Option (Lives S τ φ α ω × Option (Resp τ α) × List (Event τ φ ω)) :=
  (lives.stepWorld task act).map fun outcome =>
    ({ lives with world := outcome.world }, outcome.resp, outcome.events)

/-- `Futex::waiter`, in a task that has no waiter. -/
def create (lives : Lives S τ φ α ω) (task : τ) (futex : φ) (queue : κ)
    (spurious : Bool) (waker : ω) :
    Option (Lives S τ φ α ω × Option (Resp τ α) × List (Event τ φ ω)) :=
  if lives.alive task then none
  else
    (lives.world.step task (.call (.waiter futex queue) spurious waker)).map fun outcome =>
      ({ lives with
          world := outcome.world
          alive := Function.update lives.alive task true },
        outcome.resp, outcome.events)

/-- Wait again on the waiter of the task, which `ready` makes ready for it. -/
def again (ready : World S τ φ α ω → τ → World S τ φ α ω) (lives : Lives S τ φ α ω)
    (task : τ) (current : FutexAtom τ α) :
    Option (Lives S τ φ α ω × Option (Resp τ α) × List (Event τ φ ω)) :=
  if lives.alive task ∧ lives.world.busy task = .none ∧
      (lives.leaked task ∨ lives.world.phase task = .idle) then
    match lives.world.waker task with
    | .done =>
        -- `panic!("Reusing waiter")`, after `set_prev`
        some ({ lives with
            world := { lives.world.setPhase task .idle with
              store := FutexStore.setPrev lives.world.store task current.inbox }
            leaked := Function.update lives.leaked task false },
          some .panic, [])
    | _ =>
        some ({ lives with
            world := ready lives.world task
            leaked := Function.update lives.leaked task false },
          some .unit, [])
  else none

def forget (lives : Lives S τ φ α ω) (task : τ) :
    Option (Lives S τ φ α ω × Option (Resp τ α) × List (Event τ φ ω)) :=
  if lives.world.phase task = .pending ∧ lives.world.busy task = .none ∧
      ¬ lives.leaked task then
    some ({ lives with leaked := Function.update lives.leaked task true }, none, [])
  else none

/-- `Drop for Waiter`.  The links stay as they are. -/
def dropWaiter (lives : Lives S τ φ α ω) (task : τ) :
    Option (Lives S τ φ α ω × Option (Resp τ α) × List (Event τ φ ω)) :=
  if lives.alive task ∧ lives.world.busy task = .none ∧
      (lives.leaked task ∨ lives.world.phase task = .idle ∨
        lives.world.phase task = .enter) then
    some (⟨(lives.world.setWaker task .none).setPhase task .idle,
        Function.update lives.alive task false,
        Function.update lives.leaked task false⟩, none,
      match lives.world.waker task with
      | .waiting waker => [.wakerDropped waker]
      | _ => [])
  else none

def step (ready : World S τ φ α ω → τ → World S τ φ α ω) (lives : Lives S τ φ α ω)
    (task : τ) (use : Use τ φ κ α ω) :
    Option (Lives S τ φ α ω × Option (Resp τ α) × List (Event τ φ ω)) :=
  match use with
  | .act (.call (.waiter futex queue) spurious waker) =>
      lives.create task futex queue spurious waker
  | .act act => lives.wait task act
  | .again current => lives.again ready task current
  | .forget => lives.forget task
  | .dropWaiter => lives.dropWaiter task

/-- The runs of any number of tasks that have no waiters in the beginning. -/
def machine (ready : World S τ φ α ω → τ → World S τ φ α ω) (store : S) (atom : φ → α)
    (futex : φ) : Machine (Lives S τ φ α ω) (τ × Use τ φ κ α ω) (Report τ φ κ α ω) where
  init := ⟨World.initial store atom futex, fun _ => false, fun _ => false⟩
  next lives label :=
    (lives.step ready label.1 label.2).map fun result =>
      (result.1, [⟨label.1, label.2, result.2.1, result.2.2⟩])

theorem machine_next {ready : World S τ φ α ω → τ → World S τ φ α ω} {store : S}
    {atom : φ → α} {futex : φ} {lives lives' : Lives S τ φ α ω} {task : τ}
    {use : Use τ φ κ α ω} {resp : Option (Resp τ α)} {events : List (Event τ φ ω)}
    (hstep : lives.step ready task use = some (lives', resp, events)) :
    (machine ready store atom futex).next lives (task, use) =
      some (lives', [⟨task, use, resp, events⟩]) := by
  simp only [machine, hstep, Option.map_some]

/-- `poll_enter` takes the waiter as it is. -/
def reuse (world : World S τ φ α ω) (task : τ) : World S τ φ α ω :=
  world.setPhase task .enter

end Lives

namespace Lives

variable {τ φ κ α ω : Type} [DecidableEq τ] [DecidableEq φ] [DecidableEq κ]
  [DecidableEq α] [DecidableEq ω] [Fintype τ]

/-- A new waiter of the same futex and queue. -/
def renew (world : HeapWorld τ φ κ α ω) (task : τ) : HeapWorld τ φ κ α ω :=
  { (world.setWaker task .none).setPhase task .enter with
    store := FutexStore.renew world.store task (world.store.heap task).data }

/-- The runs of the code. -/
abbrev Reusing (queue : κ) (atom : φ → α) (futex : φ) :
    Machine (Lives (HeapStore τ φ κ) τ φ α ω) (τ × Use τ φ κ α ω) (Report τ φ κ α ω) :=
  machine reuse (HeapStore.empty queue) atom futex

/-- The same runs with a new waiter in place of each used one. -/
abbrev Renewing (queue : κ) (atom : φ → α) (futex : φ) :
    Machine (Lives (HeapStore τ φ κ) τ φ α ω) (τ × Use τ φ κ α ω) (Report τ φ κ α ω) :=
  machine renew (HeapStore.empty queue) atom futex

/-- A waiter with a forgotten future is left alone until it is woken, and a
waiter has lost its next link when it is waited on again. -/
def Careful (lives : Lives (HeapStore τ φ κ) τ φ α ω) (label : τ × Use τ φ κ α ω) : Prop :=
  match label.2 with
  | .again _ =>
      lives.world.waker label.1 = .done ∨
        ¬ lives.leaked label.1 ∧ (lives.world.store.heap label.1).next = none
  | .dropWaiter => lives.leaked label.1 → lives.world.waker label.1 = .done
  | _ => True

instance (lives : Lives (HeapStore τ φ κ) τ φ α ω) (label : τ × Use τ φ κ α ω) :
    Decidable (lives.Careful label) := by
  unfold Careful
  split <;> infer_instance

end Lives

/-! ## Tasks without a future -/

namespace World

variable {τ φ κ α ω : Type} {world : ListWorld τ φ κ α ω}
  {place : τ → Place τ φ κ}

/-- A future of `task` ends only with a waker word that is used up, and begins
only with a new waiter. -/
structure Rests (world world' : ListWorld τ φ κ α ω) (actor task : τ) : Prop where
  ends : world'.phase task = .idle → (∀ waker, world'.waker task ≠ .waiting waker) ∨
    world.phase task = .idle ∧ world'.waker task = world.waker task
  begins : world.phase task = .idle → world'.phase task = .idle
  others : task ≠ actor → world'.phase task = world.phase task

theorem Rests.same {world' : ListWorld τ φ κ α ω} {actor task : τ}
    (hphase : world'.phase task = world.phase task)
    (hwaker : world'.waker task = world.waker task) : Rests world world' actor task :=
  ⟨fun hidle => Or.inr ⟨hphase ▸ hidle, hwaker⟩, fun hidle => hphase.trans hidle,
    fun _ => hphase⟩

variable [DecidableEq τ]

/-- The future of the actor goes on. -/
theorem Rests.setPhase {world' : ListWorld τ φ κ α ω} {actor task : τ}
    {phase : Phase τ φ α ω} (hphase : world'.phase = Function.update world.phase actor phase)
    (hnew : phase ≠ .idle) (hold : world.phase actor ≠ .idle)
    (hwaker : world'.waker task = world.waker task ∨ task = actor) :
    Rests world world' actor task := by
  by_cases htask : task = actor
  · subst htask
    exact ⟨fun hidle => absurd (by simpa [hphase] using hidle) hnew,
      fun hidle => absurd hidle hold, fun hne => absurd rfl hne⟩
  · refine .same ?_ (hwaker.resolve_right htask)
    rw [hphase, Function.update_of_ne htask]

variable [DecidableEq φ] [DecidableEq κ] [DecidableEq α] [DecidableEq ω]

/-- Only these operations touch the futures. -/
theorem futures_call {task : τ} {op : Op τ φ κ α} {spurious : Bool} {waker : ω}
    {outcome : Outcome (ListStore τ φ κ) τ φ α ω}
    (hstep : world.call task op spurious waker = some outcome) :
    (outcome.world.phase = world.phase ∧ outcome.world.waker = world.waker) ∨
      (∃ futex queue, op = .waiter futex queue) ∨
      (∃ futex current new, op = .cmpxchgWaitWeak futex current new) ∨
      op = .pending ∨ op = .wake := by
  rcases untouched_call hstep with hsame | hwaiter | hwait | hpending | hwake | ⟨futex, rfl⟩
  · exact Or.inl ⟨hsame.phase, hsame.waker⟩
  · exact Or.inr (Or.inl hwaiter)
  · exact Or.inr (Or.inr (Or.inl hwait))
  · exact Or.inr (Or.inr (Or.inr (Or.inl hpending)))
  · exact Or.inr (Or.inr (Or.inr (Or.inr hwake)))
  · simp only [World.call, World.requeue] at hstep
    split at hstep
    · cases hstep
      exact Or.inl ⟨rfl, rfl⟩
    · split at hstep <;> cases hstep <;> exact Or.inl ⟨rfl, rfl⟩

/-- A pending future stays pending while other code of its task runs. -/
theorem pending_call {task : τ} {op : Op τ φ κ α} {spurious : Bool} {waker : ω}
    {outcome : Outcome (ListStore τ φ κ) τ φ α ω}
    (hpending : world.phase task = .pending)
    (hstep : world.call task op spurious waker = some outcome) :
    outcome.world.phase task = .pending := by
  rcases futures_call hstep with ⟨hphase, -⟩ | ⟨_, _, rfl⟩ | ⟨_, _, _, rfl⟩ | rfl | rfl
  · rw [hphase, hpending]
  · simp only [World.call, World.newWaiter, hpending] at hstep
    cases hstep
    exact hpending
  · simp only [World.call, World.pollEnter, hpending] at hstep
    cases hstep
    exact hpending
  · simp only [World.call, hpending] at hstep
    cases hstep
    exact hpending
  · simp only [World.call, World.wake] at hstep
    split at hstep
    · cases hstep
      exact hpending
    · split at hstep <;> cases hstep <;> exact hpending

theorem rests_pollEnter (hinv : Inv world place) {task : τ} {futex : φ}
    {current : FutexAtom τ α} {new : α} {spurious : Bool} {waker : ω}
    {outcome : Outcome (ListStore τ φ κ) τ φ α ω}
    (hstep : world.pollEnter task futex current new spurious waker = some outcome)
    (other : τ) : Rests world outcome.world task other := by
  unfold World.pollEnter at hstep
  split at hstep
  case isTrue =>
    cases hstep
    exact .same rfl rfl
  case isFalse henter =>
    rw [not_not] at henter
    have hold : world.phase task ≠ .idle := by simp [henter]
    split at hstep
    case isTrue =>
      cases hstep
      exact .same rfl rfl
    case isFalse =>
      cases hword : world.waker task with
      | done => exact absurd hword ((hinv.task task).fresh henter)
      | none =>
          simp only [hword] at hstep
          have hwaker (word : WaiterWaker ω) :
              Function.update world.waker task word other = world.waker other ∨
                other = task := by
            by_cases hother : other = task
            · exact Or.inr hother
            · exact Or.inl (Function.update_of_ne hother _ _)
          split at hstep <;> cases hstep
          · exact .setPhase rfl (by simp) hold (hwaker _)
          · have hsame : world.phase = Function.update world.phase task .enter := by
              rw [← henter, Function.update_eq_self]
            exact .setPhase hsame (by simp) hold (hwaker _)
      | waiting old =>
          simp only [hword] at hstep
          split at hstep <;> cases hstep
          · exact .setPhase rfl (by simp) hold (Or.inl rfl)
          · exact .same rfl rfl

omit [DecidableEq φ] [DecidableEq κ] [DecidableEq α] [DecidableEq ω] in
theorem rests_wake {task : τ} {outcome : Outcome (ListStore τ φ κ) τ φ α ω}
    (hstep : world.wake task = some outcome) (other : τ) :
    Rests world outcome.world task other := by
  unfold World.wake at hstep
  split at hstep
  case h_1 =>
    cases hstep
    exact .same rfl rfl
  case h_2 waiter _ =>
    split at hstep <;> cases hstep
    · refine ⟨fun hidle => ?_, id, fun _ => rfl⟩
      by_cases hother : other = waiter
      · exact Or.inl (by simp [hother])
      · exact Or.inr ⟨hidle, by simp [hother]⟩
    · exact .same rfl rfl

theorem rests_call (hinv : Inv world place) {task : τ} {op : Op τ φ κ α}
    {spurious : Bool} {waker : ω} {outcome : Outcome (ListStore τ φ κ) τ φ α ω}
    (hstep : world.call task op spurious waker = some outcome)
    (hnot : ∀ futex queue, op ≠ .waiter futex queue) (other : τ) :
    Rests world outcome.world task other := by
  rcases futures_call hstep with ⟨hphase, hwaker⟩ | ⟨futex, queue, rfl⟩ | ⟨_, _, _, rfl⟩ |
    rfl | rfl
  · exact .same (congrFun hphase other) (congrFun hwaker other)
  · exact absurd rfl (hnot futex queue)
  · exact rests_pollEnter hinv hstep other
  · simp only [World.call] at hstep
    split at hstep <;> cases hstep
    · exact .setPhase rfl (by simp) (by simp [*]) (Or.inl rfl)
    · exact .same rfl rfl
  · exact rests_wake hstep other

omit [DecidableEq κ] in
theorem rests_poll {task : τ} {waker : ω}
    {outcome : Outcome (ListStore τ φ κ) τ φ α ω}
    (hstep : world.poll task waker = some outcome) (other : τ) :
    Rests world outcome.world task other := by
  unfold World.poll at hstep
  split at hstep <;> cases hstep
  case isTrue.refl hpending =>
    exact .setPhase rfl (by simp) (by simp [hpending.1]) (Or.inl rfl)

omit [DecidableEq φ] [DecidableEq κ] [DecidableEq α] in
theorem rests_pollWaiting (hinv : Inv world place) {task : τ} {newWaker : ω}
    {seen : WaiterWaker ω} {spurious : Bool}
    (hphase : world.phase task = .polling newWaker seen)
    {outcome : Outcome (ListStore τ φ κ) τ φ α ω}
    (hstep : world.pollWaiting task newWaker seen spurious = some outcome)
    (other : τ) : Rests world outcome.world task other := by
  have hold : world.phase task ≠ .idle := by simp [hphase]
  obtain ⟨hseen, hdone⟩ := (hinv.task task).polling newWaker seen hphase
  cases seen with
  | none => exact absurd rfl hseen
  | waiting old =>
      simp only [World.pollWaiting] at hstep
      split at hstep <;> cases hstep
      · refine .setPhase rfl (by simp) hold ?_
        by_cases hother : other = task
        · exact Or.inr hother
        · exact Or.inl (Function.update_of_ne hother _ _)
      · exact .setPhase rfl (by simp) hold (Or.inl rfl)
  | done =>
      cases hstep
      by_cases hother : other = task
      · subst hother
        exact ⟨fun _ => Or.inl (by simp [hdone rfl]), fun hidle => absurd hidle hold,
          fun hne => absurd rfl hne⟩
      · exact .same (by simp [hother]) rfl

omit [DecidableEq κ] in
theorem rests_drop {task : τ} {outcome : Outcome (ListStore τ φ κ) τ φ α ω}
    (hstep : world.drop task = some outcome) (other : τ) :
    Rests world outcome.world task other := by
  unfold World.drop at hstep
  split at hstep <;> cases hstep
  case isTrue.refl hpending =>
    exact .setPhase rfl (by simp) (by simp [hpending.1]) (Or.inl rfl)

omit [DecidableEq φ] [DecidableEq κ] [DecidableEq α] [DecidableEq ω] in
/-- The future was dropped. -/
theorem Rests.cleared {task : τ} (hold : world.phase task ≠ .idle) (other : τ) :
    Rests world ((world.setWaker task .none).setPhase task .idle) task other := by
  by_cases hother : other = task
  · subst hother
    exact ⟨fun _ => Or.inl (by simp), fun hidle => absurd hidle hold,
      fun hne => absurd rfl hne⟩
  · exact .same (by simp [hother]) (by simp [hother])

omit [DecidableEq ω] in
theorem rests_dropStep (hinv : Inv world place) {task : τ} {spurious : Bool}
    {outcome : Outcome (ListStore τ φ κ) τ φ α ω}
    (hstep : world.dropStep task spurious = some outcome) (other : τ) :
    Rests world outcome.world task other := by
  unfold World.dropStep at hstep
  split at hstep
  case h_1 owner hphase =>
    split at hstep <;> cases hstep
    exact .setPhase rfl (by simp) (by simp [hphase]) (Or.inl rfl)
  case h_2 owner hphase =>
    cases hstep
    exact .setPhase rfl (by split <;> simp) (by simp [hphase]) (Or.inl rfl)
  case h_3 owner owner2 hphase =>
    cases hstep
    exact .setPhase rfl (by simp) (by simp [hphase]) (Or.inl rfl)
  case h_4 owner hphase =>
    cases hstep
    exact .setPhase rfl (by split <;> simp) (by simp [hphase]) (Or.inl rfl)
  case h_5 owner current hphase =>
    split at hstep
    · rw [Option.map_eq_some_iff] at hstep
      obtain ⟨store, -, rfl⟩ := hstep
      exact .setPhase rfl (by simp) (by simp [hphase]) (Or.inl rfl)
    · cases hstep
      exact .setPhase rfl (by split <;> simp) (by simp [hphase]) (Or.inl rfl)
  case h_6 owner hphase =>
    cases hstep
    exact .setPhase rfl (by simp) (by simp [hphase]) (Or.inl rfl)
  case h_7 owner hphase =>
    cases hstep
    exact .setPhase rfl (by simp) (by simp [hphase]) (Or.inl rfl)
  case h_8 hphase =>
    have hregistered := (hinv.task task).registered (by simp [hphase, Phase.Live])
    have hold : world.phase task ≠ .idle := by simp [hphase]
    split at hstep
    case h_1 hwaker => exact absurd hwaker hregistered
    case h_2 => cases hstep; exact .cleared hold other
    case h_3 => cases hstep; exact .cleared hold other
  case h_9 => cases hstep

theorem futures_busyStep {task : τ} {spurious : Bool}
    {outcome : Outcome (ListStore τ φ κ) τ φ α ω}
    (hstep : world.busyStep task spurious = some outcome) :
    outcome.world.phase = world.phase ∧ outcome.world.waker = world.waker := by
  unfold World.busyStep at hstep
  split at hstep
  case h_1 => cases hstep
  case h_2 =>
    cases hstep
    dsimp only
    split <;> exact ⟨rfl, rfl⟩
  case h_3 =>
    cases hstep
    exact ⟨rfl, rfl⟩
  case h_4 =>
    cases hstep
    exact ⟨rfl, rfl⟩
  case h_5 => split at hstep <;> cases hstep <;> exact ⟨rfl, rfl⟩

theorem rests_busyStep {task : τ} {spurious : Bool}
    {outcome : Outcome (ListStore τ φ κ) τ φ α ω}
    (hstep : world.busyStep task spurious = some outcome) (other : τ) :
    Rests world outcome.world task other := by
  obtain ⟨hphase, hwaker⟩ := futures_busyStep hstep
  exact .same (congrFun hphase other) (congrFun hwaker other)

theorem rests_step (hinv : Inv world place) {task : τ} {act : Act τ φ κ α ω}
    {outcome : Outcome (ListStore τ φ κ) τ φ α ω}
    (hstep : world.step task act = some outcome)
    (hnot : ∀ futex queue spurious waker,
      act ≠ .call (.waiter futex queue) spurious waker) (other : τ) :
    Rests world outcome.world task other := by
  cases act with
  | call op spurious waker =>
      simp only [World.step] at hstep
      split at hstep
      case isFalse => cases hstep
      case isTrue =>
        exact rests_call hinv hstep
          (fun futex queue heq => hnot futex queue spurious waker (by rw [heq])) other
  | poll waker => exact rests_poll hstep other
  | drop => exact rests_drop hstep other
  | step spurious =>
      simp only [World.step] at hstep
      split at hstep
      · exact rests_busyStep hstep other
      · split at hstep
        case h_1 hphase => exact rests_pollWaiting hinv hphase hstep other
        case h_2 => exact rests_dropStep hinv hstep other

end World

/-! ## The lists of the waiters -/

namespace Lives

variable {τ φ κ α ω : Type} [DecidableEq τ] [DecidableEq φ] [DecidableEq κ]
  [DecidableEq α] [DecidableEq ω]

/-- What holds of the lists as long as no forgotten waiter is used. -/
structure Good (lives : Lives (ListStore τ φ κ) τ φ α ω) : Prop where
  placed : ∃ place, World.Inv lives.world place
  alive : ∀ task, lives.world.phase task ≠ .idle → lives.alive task = true
  leaked : ∀ task, lives.leaked task = true → lives.world.phase task = .pending

/-- The waiters that nobody waits on have no waker. -/
def Rested (lives : Lives (ListStore τ φ κ) τ φ α ω) : Prop :=
  ∀ task, lives.world.phase task = .idle →
    ∀ waker, lives.world.waker task ≠ .waiting waker

/-- The machine of the lists. -/
abbrev Listing (queue : κ) (atom : φ → α) (futex : φ) :
    Machine (Lives (ListStore τ φ κ) τ φ α ω) (τ × Use τ φ κ α ω) (Report τ φ κ α ω) :=
  machine reuse (ListStore.empty queue) atom futex

theorem Good.initial (queue : κ) (atom : φ → α) (futex : φ) :
    Good (Listing queue atom futex : Machine (Lives (ListStore τ φ κ) τ φ α ω) _ _).init where
  placed := ⟨_, World.Inv.initial queue atom futex⟩
  alive := by simp [machine, World.initial]
  leaked := by simp [machine]

theorem Rested.initial (queue : κ) (atom : φ → α) (futex : φ) :
    Rested (Listing queue atom futex :
      Machine (Lives (ListStore τ φ κ) τ φ α ω) _ _).init := by
  intro _ _ _
  simp [machine, World.initial]

omit [DecidableEq φ] [DecidableEq κ] [DecidableEq α] [DecidableEq ω] in
/-- A step of the world that builds no waiter. -/
theorem Good.of_rests {lives : Lives (ListStore τ φ κ) τ φ α ω} (hgood : lives.Good)
    {world : ListWorld τ φ κ α ω} {actor : τ} (hplaced : ∃ place, World.Inv world place)
    (hrests : ∀ task, World.Rests lives.world world actor task)
    (hleaked : lives.leaked actor = true → world.phase actor = .pending) :
    Good { lives with world := world } where
  placed := hplaced
  alive task hphase :=
    hgood.alive task fun hidle => hphase ((hrests task).begins hidle)
  leaked task hleak := by
    by_cases htask : task = actor
    · subst htask
      exact hleaked hleak
    · exact ((hrests task).others htask).trans (hgood.leaked task hleak)

omit [DecidableEq φ] [DecidableEq κ] [DecidableEq α] [DecidableEq ω] in
/-- The future of one task ends or begins, and its waiter is nowhere. -/
theorem Good.of_task {lives lives' : Lives (ListStore τ φ κ) τ φ α ω}
    (hgood : lives.Good) (task : τ) (hplaced : ∃ place, World.Inv lives'.world place)
    (hothers : ∀ other, other ≠ task → lives'.world.phase other = lives.world.phase other ∧
      lives'.alive other = lives.alive other ∧ lives'.leaked other = lives.leaked other)
    (halive : lives'.world.phase task ≠ .idle → lives'.alive task = true)
    (hleaked : lives'.leaked task = false) : lives'.Good where
  placed := hplaced
  alive other := by
    by_cases hother : other = task
    · exact hother ▸ halive
    · obtain ⟨hphase, hsame, -⟩ := hothers other hother
      rw [hphase, hsame]
      exact hgood.alive other
  leaked other hleak := by
    by_cases hother : other = task
    · rw [hother, hleaked] at hleak
      cases hleak
    · obtain ⟨hphase, -, hsame⟩ := hothers other hother
      rw [hphase]
      exact hgood.leaked other (hsame ▸ hleak)

section Steps

variable {lives lives' : Lives (ListStore τ φ κ) τ φ α ω} {task : τ}
  {resp : Option (Resp τ α)} {events : List (Event τ φ ω)}

theorem Good.wait (hgood : lives.Good) {act : Act τ φ κ α ω}
    (hnot : ∀ futex queue spurious waker,
      act ≠ .call (.waiter futex queue) spurious waker)
    (hstep : lives.wait task act = some (lives', resp, events)) : lives'.Good := by
  obtain ⟨place, hinv⟩ := hgood.placed
  unfold Lives.wait at hstep
  rw [Option.map_eq_some_iff] at hstep
  obtain ⟨outcome, hworld, heq⟩ := hstep
  cases heq
  unfold stepWorld at hworld
  split at hworld
  case isFalse hleaked =>
    exact hgood.of_rests (hinv.step hworld) (World.rests_step hinv hworld hnot)
      fun hleak => absurd hleak hleaked
  case isTrue hleaked =>
    have hpending := hgood.leaked task hleaked
    split at hworld
    case h_1 op spurious waker =>
      split at hworld
      case isFalse => cases hworld
      case isTrue hbusy =>
        refine hgood.of_rests (hinv.call hbusy hworld)
          (World.rests_call hinv hworld fun futex queue heq => ?_)
          fun _ => World.pending_call hpending hworld
        exact hnot futex queue spurious waker (by rw [heq])
    case h_2 spurious =>
      refine hgood.of_rests (hinv.busyStep hworld) (World.rests_busyStep hworld) fun _ => ?_
      rw [(World.futures_busyStep hworld).1, hpending]
    case h_3 => cases hworld

theorem Good.create (hgood : lives.Good) {futex : φ} {queue : κ} {spurious : Bool}
    {waker : ω}
    (hstep : lives.create task futex queue spurious waker = some (lives', resp, events)) :
    lives'.Good := by
  obtain ⟨place, hinv⟩ := hgood.placed
  unfold Lives.create at hstep
  split at hstep
  case isTrue => cases hstep
  case isFalse halive =>
    rw [Option.map_eq_some_iff] at hstep
    obtain ⟨outcome, hworld, heq⟩ := hstep
    cases heq
    have hinv' := hinv.step hworld
    have hidle : lives.world.phase task = .idle := by
      by_contra hphase
      exact halive (hgood.alive task hphase)
    simp only [World.step, World.call, World.newWaiter, hidle, true_or, if_true] at hworld
    split at hworld <;> cases hworld
    refine hgood.of_task task hinv' ?_ (by simp) ?_
    · intro other hother
      simp [hother]
    · rw [Bool.eq_false_iff]
      intro hleak
      have hpending := hgood.leaked task hleak
      simp [hidle] at hpending

omit [DecidableEq α] [DecidableEq ω] in
/-- The waiter of a task whose future is over or was woken is nowhere. -/
theorem Good.nowhere (hgood : lives.Good) {place : τ → Place τ φ κ}
    (hinv : World.Inv lives.world place)
    (hphase : lives.leaked task = true ∨ lives.world.phase task = .idle ∨
      lives.world.phase task = .enter)
    (hleaked : lives.leaked task = true → lives.world.waker task = .done) :
    place task = .nowhere ∧ (lives.world.phase task).writes = none := by
  rcases hphase with hleak | hidle | henter
  · refine ⟨hinv.nowhere_of_done (hleaked hleak), ?_⟩
    rw [hgood.leaked task hleak]
    rfl
  · exact ⟨hinv.nowhere (by simp [hidle, Phase.Waits]), by rw [hidle]; rfl⟩
  · exact ⟨hinv.nowhere (by simp [henter, Phase.Waits]), by rw [henter]; rfl⟩

theorem Good.again (hgood : lives.Good) {current : FutexAtom τ α}
    (hleaked : lives.leaked task = true → lives.world.waker task = .done)
    (hstep : lives.again reuse task current = some (lives', resp, events)) :
    lives'.Good := by
  obtain ⟨place, hinv⟩ := hgood.placed
  unfold Lives.again at hstep
  split at hstep
  case isFalse => cases hstep
  case isTrue hguard =>
    obtain ⟨halive, -, hphase⟩ := hguard
    have hphase' : lives.leaked task = true ∨ lives.world.phase task = .idle ∨
        lives.world.phase task = .enter := by
      rcases hphase with hleak | hidle
      · exact Or.inl hleak
      · exact Or.inr (Or.inl hidle)
    obtain ⟨hnowhere, hwrites⟩ := hgood.nowhere hinv hphase' hleaked
    split at hstep
    case h_1 hdone =>
      cases hstep
      have hidle : World.Inv (lives.world.setPhase task .idle) place := by
        refine hinv.setPhase hwrites.symm ?_
        rw [hnowhere]
        exact TaskInv.idle _ _
      refine hgood.of_task task ⟨place, hidle⟩ ?_ (by simp) (by simp)
      intro other hother
      simp [hother]
    case h_2 hdone =>
      cases hstep
      have henter : World.Inv (reuse lives.world task) place := by
        refine hinv.setPhase hwrites.symm ?_
        rw [hnowhere]
        constructor <;> simp [Phase.Waits, Phase.flips, Phase.Live]
        exact hdone
      refine hgood.of_task task ⟨place, henter⟩ ?_ (by simp [reuse, halive]) (by simp)
      intro other hother
      simp [reuse, hother]

omit [DecidableEq κ] in
theorem Good.forget (hgood : lives.Good)
    (hstep : lives.forget task = some (lives', resp, events)) : lives'.Good := by
  unfold Lives.forget at hstep
  split at hstep <;> cases hstep
  case isTrue.refl hguard =>
    refine { hgood with leaked := fun other => ?_ }
    by_cases hother : other = task
    · intro _
      exact hother ▸ hguard.1
    · simpa [hother] using hgood.leaked other

theorem Good.dropWaiter (hgood : lives.Good)
    (hleaked : lives.leaked task = true → lives.world.waker task = .done)
    (hstep : lives.dropWaiter task = some (lives', resp, events)) : lives'.Good := by
  obtain ⟨place, hinv⟩ := hgood.placed
  unfold Lives.dropWaiter at hstep
  split at hstep
  case isFalse => cases hstep
  case isTrue hguard =>
    cases hstep
    obtain ⟨hnowhere, hwrites⟩ := hgood.nowhere hinv hguard.2.2 hleaked
    have hidle : World.Inv ((lives.world.setWaker task .none).setPhase task .idle) place := by
      refine hinv.setFuture hwrites.symm ?_
      rw [hnowhere]
      exact TaskInv.idle _ _
    refine hgood.of_task task ⟨place, hidle⟩ ?_ (by simp) (by simp)
    intro other hother
    simp [hother]

/-- A task with a forgotten future neither waits again nor drops its waiter
before it is woken. -/
theorem Good.step (hgood : lives.Good) {use : Use τ φ κ α ω}
    (hleaked : (∃ current, use = .again current) ∨ use = .dropWaiter →
      lives.leaked task = true → lives.world.waker task = .done)
    (hstep : lives.step reuse task use = some (lives', resp, events)) : lives'.Good := by
  unfold Lives.step at hstep
  split at hstep
  case h_1 => exact hgood.create hstep
  case h_2 act hact =>
    refine hgood.wait (fun futex queue spurious waker heq => ?_) hstep
    exact hact futex queue spurious waker (by rw [heq])
  case h_3 current => exact hgood.again (hleaked (Or.inl ⟨current, rfl⟩)) hstep
  case h_4 => exact hgood.forget hstep
  case h_5 => exact hgood.dropWaiter (hleaked (Or.inr rfl)) hstep

/-! ## The wakers of the waiters that nobody waits on -/

omit [DecidableEq τ] [DecidableEq φ] [DecidableEq κ] [DecidableEq α] [DecidableEq ω] in
theorem Rested.of_rests (hrested : lives.Rested) {world : ListWorld τ φ κ α ω} {actor : τ}
    (hrests : ∀ task, World.Rests lives.world world actor task) :
    Rested { lives with world := world } := by
  intro task hidle
  rcases (hrests task).ends hidle with hwaker | ⟨hold, hsame⟩
  · exact hwaker
  · rw [hsame]
    exact hrested task hold

omit [DecidableEq φ] [DecidableEq κ] [DecidableEq α] [DecidableEq ω] in
theorem Rested.of_task (hrested : lives.Rested) (task : τ)
    (hothers : ∀ other, other ≠ task → lives'.world.phase other = lives.world.phase other ∧
      lives'.world.waker other = lives.world.waker other)
    (hmine : lives'.world.phase task = .idle →
      ∀ waker, lives'.world.waker task ≠ .waiting waker) : lives'.Rested := by
  intro other
  by_cases hother : other = task
  · exact hother ▸ hmine
  · obtain ⟨hphase, hwaker⟩ := hothers other hother
    rw [hphase, hwaker]
    exact hrested other

theorem Rested.wait (hgood : lives.Good) (hrested : lives.Rested) {act : Act τ φ κ α ω}
    (hnot : ∀ futex queue spurious waker,
      act ≠ .call (.waiter futex queue) spurious waker)
    (hstep : lives.wait task act = some (lives', resp, events)) : lives'.Rested := by
  obtain ⟨place, hinv⟩ := hgood.placed
  unfold Lives.wait at hstep
  rw [Option.map_eq_some_iff] at hstep
  obtain ⟨outcome, hworld, heq⟩ := hstep
  cases heq
  unfold stepWorld at hworld
  split at hworld
  case isFalse => exact hrested.of_rests (World.rests_step hinv hworld hnot)
  case isTrue =>
    split at hworld
    case h_1 op spurious waker =>
      split at hworld
      case isFalse => cases hworld
      case isTrue =>
        refine hrested.of_rests (World.rests_call hinv hworld fun futex queue heq => ?_)
        exact hnot futex queue spurious waker (by rw [heq])
    case h_2 => exact hrested.of_rests (World.rests_busyStep hworld)
    case h_3 => cases hworld

theorem Rested.step (hgood : lives.Good) (hrested : lives.Rested) {use : Use τ φ κ α ω}
    (hstep : lives.step reuse task use = some (lives', resp, events)) : lives'.Rested := by
  unfold Lives.step at hstep
  split at hstep
  case h_1 =>
    unfold Lives.create at hstep
    split at hstep
    · cases hstep
    · rw [Option.map_eq_some_iff] at hstep
      obtain ⟨outcome, hworld, heq⟩ := hstep
      cases heq
      simp only [World.step, World.call, World.newWaiter] at hworld
      split at hworld
      case isFalse => cases hworld
      case isTrue =>
        split at hworld <;> cases hworld
        · refine hrested.of_task task (fun other hother => ?_) ?_
          · simp [hother]
          · simp
        · exact hrested
  case h_2 act hact =>
    refine hrested.wait hgood (fun futex queue spurious waker heq => ?_) hstep
    exact hact futex queue spurious waker (by rw [heq])
  case h_3 current =>
    unfold Lives.again at hstep
    split at hstep
    case isFalse => cases hstep
    case isTrue =>
      split at hstep
      case h_1 hdone =>
        cases hstep
        refine hrested.of_task task (fun other hother => ?_) ?_
        · simp [hother]
        · simp [hdone]
      case h_2 =>
        cases hstep
        refine hrested.of_task task (fun other hother => ?_) ?_
        · simp [reuse, hother]
        · simp [reuse]
  case h_4 =>
    unfold Lives.forget at hstep
    split at hstep <;> cases hstep
    exact hrested
  case h_5 =>
    unfold Lives.dropWaiter at hstep
    split at hstep <;> cases hstep
    refine hrested.of_task task (fun other hother => ?_) ?_
    · simp [hother]
    · simp

end Steps

end Lives

end AsyncMutex
