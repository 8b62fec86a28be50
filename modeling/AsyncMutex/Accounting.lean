import AsyncMutex.Ownership

/-!
# Every wake is accounted for

The history of a task falls into lives, one for each `Waiter` that it made.
A life is a number of refused compare-exchanges, and after a successful one
exactly one of three endings.
-/

namespace AsyncMutex

/-- What happens to the waiter of a task and to the future that waits on it.
`entered` is the successful compare-exchange, which runs `on_pending`. -/
inductive Fate (φ : Type) where
  | refused
  | entered (futex : φ)
  | woken
  | ready
  | cancelWoken
  | cancelSleeping
deriving DecidableEq

/-- Add to the current life. -/
def extend {φ : Type} (fate : Fate φ) : List (List (Fate φ)) → List (List (Fate φ))
  | [] => [[fate]]
  | life :: past => (life ++ [fate]) :: past

/-- What an event adds to the lives of `task`, newest life first. -/
def record {τ φ ω : Type} [DecidableEq τ] (task : τ)
    (lives : List (List (Fate φ))) (event : Event τ φ ω) :
    List (List (Fate φ)) :=
  match event with
  | .created other => if other = task then [] :: lives else lives
  | .refused other => if other = task then extend .refused lives else lives
  | .entered other futex =>
      if other = task then extend (.entered futex) lives else lives
  | .requeued _ _ => lives
  | .woken other => if other = task then extend .woken lives else lives
  | .ready other => if other = task then extend .ready lives else lives
  | .cancelWoken other =>
      if other = task then extend .cancelWoken lives else lives
  | .cancelSleeping other =>
      if other = task then extend .cancelSleeping lives else lives
  | .wakerCloned _ => lives
  | .wakerWoken _ => lives
  | .wakerDropped _ => lives

/-- The lives of `task` in a history, newest first. -/
def lives {τ φ ω : Type} [DecidableEq τ] (task : τ)
    (history : List (Event τ φ ω)) : List (List (Fate φ)) :=
  history.foldl (record task) []

/-- A life whose last compare-exchange succeeded, up to `fates`. -/
def Entered {φ : Type} (fates : List (Fate φ)) (life : List (Fate φ)) : Prop :=
  ∃ attempts futex,
    life = List.replicate attempts .refused ++ .entered futex :: fates

/-- How a future ends after its compare-exchange succeeded. -/
inductive Ending where
  /-- It returned `Ready(true)`. -/
  | ready
  /-- It was dropped and `on_cancel_woken` ran. -/
  | cancelWoken
  /-- It was dropped and `on_cancel_sleeping` ran. -/
  | cancelSleeping

def Ending.fates {φ : Type} : Ending → List (Fate φ)
  | .ready => [.woken, .ready]
  | .cancelWoken => [.woken, .cancelWoken]
  | .cancelSleeping => [.cancelSleeping]

theorem Entered.unique {φ : Type} {fates fates' life : List (Fate φ)}
    (hfates : Entered fates life) (hfates' : Entered fates' life) :
    fates = fates' := by
  obtain ⟨attempts, futex, rfl⟩ := hfates
  obtain ⟨attempts', futex', heq⟩ := hfates'
  induction attempts generalizing attempts' with
  | zero =>
      cases attempts' with
      | zero => simp_all
      | succ attempts' => simp [List.replicate_succ] at heq
  | succ attempts ih =>
      cases attempts' with
      | zero => simp [List.replicate_succ] at heq
      | succ attempts' =>
          refine ih attempts' ?_
          simpa [List.replicate_succ] using heq

/-- The future ended in exactly one of the three ways. -/
def Complete {φ : Type} (life : List (Fate φ)) : Prop :=
  ∃! ending : Ending, Entered ending.fates life

theorem Complete.of_entered {φ : Type} {life : List (Fate φ)} (ending : Ending)
    (hlife : Entered ending.fates life) : Complete life := by
  refine ⟨ending, hlife, fun other hother => ?_⟩
  have heq := hother.unique hlife
  cases ending <;> cases other <;> simp [Ending.fates] at heq ⊢

/-- No compare-exchange succeeded. -/
def Refused {φ : Type} (life : List (Fate φ)) : Prop :=
  ∃ attempts, life = List.replicate attempts .refused

/-- The lives of a task whose future stands at `phase`. -/
structure Accounted {τ φ α ω : Type} (lives : List (List (Fate φ)))
    (phase : Phase τ φ α ω) (waker : WaiterWaker ω) : Prop where
  past : ∀ life ∈ lives.tail, Complete life ∨ Refused life
  idle : phase = .idle → ∀ life ∈ lives.head?, Complete life
  enter : phase = .enter → ∃ life, lives.head? = some life ∧ Refused life
  asleep : phase.Live → waker ≠ .done →
    ∃ life, lives.head? = some life ∧ Entered [] life
  woken : phase.Live → waker = .done →
    ∃ life, lives.head? = some life ∧ Entered [.woken] life

namespace Accounted

variable {τ φ α ω : Type} {lives : List (List (Fate φ))}
  {phase : Phase τ φ α ω} {waker : WaiterWaker ω}

/-- A new waiter. -/
theorem create (haccount : Accounted lives phase waker)
    (hphase : phase = .idle ∨ phase = .enter) :
    Accounted ([] :: lives) (.enter : Phase τ φ α ω) (.none : WaiterWaker ω) := by
  refine ⟨fun life hlife => ?_, by simp, fun _ => ⟨[], rfl, 0, rfl⟩, ?_, ?_⟩
  · cases lives with
    | nil => simp at hlife
    | cons current past =>
        rcases List.mem_cons.mp hlife with rfl | hpast
        · rcases hphase with hidle | henter
          · exact Or.inl (haccount.idle hidle life rfl)
          · obtain ⟨life', hhead, hrefused⟩ := haccount.enter henter
            cases hhead
            exact Or.inr hrefused
        · exact haccount.past life hpast
  · exact fun hlive => hlive.elim
  · exact fun hlive => hlive.elim

theorem refuse (haccount : Accounted lives phase waker) (hphase : phase = .enter)
    (waker' : WaiterWaker ω) :
    Accounted (extend .refused lives) phase waker' := by
  obtain ⟨life, hhead, attempts, rfl⟩ := haccount.enter hphase
  obtain ⟨past, rfl⟩ := List.head?_eq_some_iff.mp hhead
  subst hphase
  refine ⟨haccount.past, by simp, fun _ => ⟨_, rfl, attempts + 1, ?_⟩, ?_, ?_⟩
  · rw [List.replicate_succ']
  · exact fun hlive => hlive.elim
  · exact fun hlive => hlive.elim

theorem enterWait (haccount : Accounted lives phase waker)
    (hphase : phase = .enter) (futex : φ) {waker' : WaiterWaker ω}
    (hwaker : waker' ≠ .done) :
    Accounted (extend (.entered futex) lives) (.entered : Phase τ φ α ω)
      waker' := by
  obtain ⟨life, hhead, attempts, rfl⟩ := haccount.enter hphase
  obtain ⟨past, rfl⟩ := List.head?_eq_some_iff.mp hhead
  exact ⟨haccount.past, by simp, by simp,
    fun _ _ => ⟨_, rfl, attempts, futex, rfl⟩, fun _ h => absurd h hwaker⟩

/-- The waiter is woken while a future waits on it. -/
theorem wake (haccount : Accounted lives phase waker) (hlive : phase.Live)
    (hwaker : waker ≠ .done) :
    Accounted (extend .woken lives) phase .done := by
  obtain ⟨life, hhead, attempts, futex, rfl⟩ := haccount.asleep hlive hwaker
  obtain ⟨past, rfl⟩ := List.head?_eq_some_iff.mp hhead
  refine ⟨haccount.past, ?_, ?_, fun _ h => absurd rfl h,
    fun _ _ => ⟨_, rfl, attempts, futex, by simp⟩⟩
  · rintro rfl
    exact hlive.elim
  · rintro rfl
    exact hlive.elim

/-- The future goes on. -/
theorem live (haccount : Accounted lives phase waker) (hlive : phase.Live)
    {phase' : Phase τ φ α ω} (hlive' : phase'.Live) {waker' : WaiterWaker ω}
    (hwaker : waker' = .done ↔ waker = .done) :
    Accounted lives phase' waker' := by
  refine ⟨haccount.past, ?_, ?_,
    fun _ hnot => haccount.asleep hlive fun h => hnot (hwaker.mpr h),
    fun _ hdone => haccount.woken hlive (hwaker.mp hdone)⟩
  · rintro rfl
    exact hlive'.elim
  · rintro rfl
    exact hlive'.elim

/-- The future ends. -/
theorem finish (haccount : Accounted lives phase waker) (hlive : phase.Live)
    (fate : Fate φ) (hfate : waker = .done ∧ (fate = .ready ∨ fate = .cancelWoken) ∨
      waker ≠ .done ∧ fate = .cancelSleeping) (waker' : WaiterWaker ω) :
    Accounted (extend fate lives) (.idle : Phase τ φ α ω) waker' := by
  have hcomplete : ∃ life past, lives = life :: past ∧ Complete (life ++ [fate]) := by
    rcases hfate with ⟨hdone, hfate⟩ | ⟨hnot, rfl⟩
    · obtain ⟨life, hhead, attempts, futex, rfl⟩ := haccount.woken hlive hdone
      obtain ⟨past, rfl⟩ := List.head?_eq_some_iff.mp hhead
      refine ⟨_, past, rfl, ?_⟩
      rcases hfate with rfl | rfl
      · exact .of_entered .ready ⟨attempts, futex, by simp [Ending.fates]⟩
      · exact .of_entered .cancelWoken ⟨attempts, futex, by simp [Ending.fates]⟩
    · obtain ⟨life, hhead, attempts, futex, rfl⟩ := haccount.asleep hlive hnot
      obtain ⟨past, rfl⟩ := List.head?_eq_some_iff.mp hhead
      exact ⟨_, past, rfl, .of_entered .cancelSleeping
        ⟨attempts, futex, by simp [Ending.fates]⟩⟩
  obtain ⟨life, past, rfl, hcomplete⟩ := hcomplete
  refine ⟨haccount.past, ?_, by simp, fun h => h.elim, fun h => h.elim⟩
  rintro - life' hlife'
  cases hlife'
  exact hcomplete

end Accounted

theorem lives_append {τ φ ω : Type} [DecidableEq τ] (task : τ)
    (history events : List (Event τ φ ω)) :
    lives task (history ++ events) = events.foldl (record task) (lives task history) :=
  List.foldl_append

namespace World

variable {τ φ κ α ω : Type} [DecidableEq τ]

/-- All lives of all tasks are accounted for. -/
def Accounts {S : Type} (world : World S τ φ α ω)
    (history : List (Event τ φ ω)) : Prop :=
  ∀ task, Accounted (lives task history) (world.phase task) (world.waker task)

variable {world : ListWorld τ φ κ α ω} {place : τ → Place τ φ κ}
  {history : List (Event τ φ ω)}

/-- A step that changes the future of one task at most. -/
theorem Accounts.of_task (haccounts : world.Accounts history) (task : τ)
    {world' : ListWorld τ φ κ α ω} {events : List (Event τ φ ω)}
    (hphase : ∀ other, other ≠ task → world'.phase other = world.phase other)
    (hwaker : ∀ other, other ≠ task → world'.waker other = world.waker other)
    (hevents : ∀ other, other ≠ task → ∀ past,
      events.foldl (record other) past = past)
    (hself : Accounted (events.foldl (record task) (lives task history))
      (world'.phase task) (world'.waker task)) :
    world'.Accounts (history ++ events) := by
  intro other
  rw [lives_append]
  by_cases hother : other = task
  · exact hother ▸ hself
  · rw [hevents other hother, hphase other hother, hwaker other hother]
    exact haccounts other

/-- A step that changes no future. -/
theorem Accounts.same (haccounts : world.Accounts history)
    {world' : ListWorld τ φ κ α ω} (hphase : world'.phase = world.phase)
    (hwaker : world'.waker = world.waker) : world'.Accounts (history ++ []) := by
  intro other
  rw [List.append_nil, hphase, hwaker]
  exact haccounts other

variable [DecidableEq φ] [DecidableEq κ] [DecidableEq α] [DecidableEq ω]

namespace Inv

theorem newWaiter_accounts (haccounts : world.Accounts history) {task : τ}
    {futex : φ} {queue : κ} {outcome : Outcome (ListStore τ φ κ) τ φ α ω}
    (hnext : world.newWaiter task futex queue = some outcome) :
    outcome.world.Accounts (history ++ outcome.events) := by
  unfold World.newWaiter at hnext
  split at hnext <;> cases hnext
  case isFalse.refl => exact haccounts.same rfl rfl
  case isTrue.refl hphase =>
    have hself := (haccounts task).create hphase
    refine haccounts.of_task task ?_ ?_ ?_ ?_
    · intro other hother
      simp [hother]
    · intro other hother
      simp [hother]
    · intro other hother past
      have hother' : ¬ task = other := fun heq => hother heq.symm
      cases world.waker task <;> simp [record, hother']
    · cases world.waker task <;> simpa [record] using hself

theorem pollEnter_accounts (hinv : Inv world place)
    (haccounts : world.Accounts history) {task : τ} {futex : φ}
    {current : FutexAtom τ α} {new : α} {spurious : Bool} {waker : ω}
    {outcome : Outcome (ListStore τ φ κ) τ φ α ω}
    (hnext : world.pollEnter task futex current new spurious waker =
      some outcome) : outcome.world.Accounts (history ++ outcome.events) := by
  unfold World.pollEnter at hnext
  split at hnext
  · cases hnext
    exact haccounts.same rfl rfl
  case isFalse hphase =>
    rw [not_not] at hphase
    split at hnext
    · cases hnext
      exact haccounts.same rfl rfl
    · cases hwaker : world.waker task with
      | done => exact absurd hwaker ((hinv.task task).fresh hphase)
      | none =>
          simp only [hwaker] at hnext
          split at hnext <;> cases hnext
          · have hself := (haccounts task).enterWait hphase futex
              (show WaiterWaker.waiting waker ≠ .done by simp)
            refine haccounts.of_task task ?_ ?_ ?_ ?_ <;>
              simp +contextual [record, Ne.symm, hself]
          · have hself := (haccounts task).refuse hphase (.waiting waker)
            refine haccounts.of_task task ?_ ?_ ?_ ?_ <;>
              simp +contextual [record, Ne.symm, hself]
      | waiting old =>
          simp only [hwaker] at hnext
          split at hnext <;> cases hnext
          · have hself := (haccounts task).enterWait hphase futex
              (show WaiterWaker.waiting old ≠ .done by simp)
            refine haccounts.of_task task ?_ ?_ ?_ ?_ <;>
              simp +contextual [record, Ne.symm, hwaker, hself]
          · have hself := (haccounts task).refuse hphase (.waiting old)
            refine haccounts.of_task task ?_ ?_ ?_ ?_ <;>
              simp +contextual [record, Ne.symm, hwaker, hself]

omit [DecidableEq φ] [DecidableEq κ] [DecidableEq α] [DecidableEq ω] in
/-- A step of a live future that leaves its waker waiting or done. -/
theorem setPhase_accounts (haccounts : world.Accounts history) {task : τ}
    (hlive : (world.phase task).Live) {world' : ListWorld τ φ κ α ω}
    (phase : Phase τ φ α ω) (hlive' : phase.Live)
    (waker : WaiterWaker ω) (hdone : waker = .done ↔ world.waker task = .done)
    (hphase : world'.phase = Function.update world.phase task phase)
    (hwaker : world'.waker = Function.update world.waker task waker)
    {events : List (Event τ φ ω)}
    (hevents : ∀ other past, events.foldl (record other) past = past) :
    world'.Accounts (history ++ events) := by
  have hself := (haccounts task).live hlive hlive' hdone
  refine haccounts.of_task task ?_ ?_ (fun other _ => hevents other) ?_
  · simp +contextual [hphase]
  · simp +contextual [hwaker]
  · simpa [hphase, hwaker, hevents] using hself

omit [DecidableEq φ] [DecidableEq κ] [DecidableEq α] [DecidableEq ω] in
/-- A step of a live future that leaves its waker alone. -/
theorem goes_accounts (haccounts : world.Accounts history) {task : τ}
    (hlive : (world.phase task).Live) {world' : ListWorld τ φ κ α ω}
    (phase : Phase τ φ α ω) (hlive' : phase.Live) {events : List (Event τ φ ω)}
    (hphase : world'.phase = Function.update world.phase task phase := by rfl)
    (hwaker : world'.waker = world.waker := by rfl)
    (hevents : ∀ other past, events.foldl (record other) past = past := by
      simp [record]) : world'.Accounts (history ++ events) :=
  setPhase_accounts haccounts hlive phase hlive' _ Iff.rfl hphase
    (by rw [hwaker, Function.update_eq_self]) hevents

omit [DecidableEq φ] [DecidableEq κ] [DecidableEq α] in
theorem pollWaiting_accounts (hinv : Inv world place)
    (haccounts : world.Accounts history) {task : τ} {newWaker : ω}
    {seen : WaiterWaker ω} {spurious : Bool}
    (hphase : world.phase task = .polling newWaker seen)
    {outcome : Outcome (ListStore τ φ κ) τ φ α ω}
    (hnext : world.pollWaiting task newWaker seen spurious = some outcome) :
    outcome.world.Accounts (history ++ outcome.events) := by
  have hlive : (world.phase task).Live := by
    rw [hphase]
    trivial
  obtain ⟨hseen, hdone⟩ := (hinv.task task).polling newWaker seen hphase
  cases seen with
  | none => exact absurd rfl hseen
  | waiting old =>
      simp only [World.pollWaiting] at hnext
      split at hnext
      case isTrue heq =>
        cases hnext
        exact setPhase_accounts haccounts hlive .pending trivial
          (.waiting newWaker) (by simp [heq.1]) rfl rfl
          (by simp [record])
      case isFalse =>
        cases hnext
        exact goes_accounts haccounts hlive (.polling newWaker (world.waker task))
          trivial
  | done =>
      cases hnext
      have hself := (haccounts task).finish hlive .ready
        (Or.inl ⟨hdone rfl, Or.inl rfl⟩) (world.waker task)
      refine haccounts.of_task task ?_ ?_ ?_ ?_ <;>
        simp +contextual [record, Ne.symm, hself]

omit [DecidableEq ω] in
theorem dropStep_accounts (hinv : Inv world place)
    (haccounts : world.Accounts history) {task : τ} {spurious : Bool}
    {outcome : Outcome (ListStore τ φ κ) τ φ α ω}
    (hnext : world.dropStep task spurious = some outcome) :
    outcome.world.Accounts (history ++ outcome.events) := by
  unfold World.dropStep at hnext
  cases hphase : world.phase task with
  | dropLock owner =>
      simp only [hphase] at hnext
      split at hnext <;> cases hnext
      exact goes_accounts haccounts (by rw [hphase]; trivial) (.dropCheck owner) trivial
  | dropCheck owner =>
      simp only [hphase] at hnext
      cases hnext
      refine goes_accounts haccounts (by rw [hphase]; trivial) _ ?_
      split <;> trivial
  | dropRetry owner owner2 =>
      simp only [hphase] at hnext
      cases hnext
      exact goes_accounts haccounts (by rw [hphase]; trivial) (.dropLock owner2) trivial
  | dropLoad owner =>
      simp only [hphase] at hnext
      cases hnext
      refine goes_accounts haccounts (by rw [hphase]; trivial) _ ?_
      split <;> trivial
  | dropFlip owner current =>
      simp only [hphase] at hnext
      split at hnext
      · rw [Option.map_eq_some_iff] at hnext
        obtain ⟨store, hstore, rfl⟩ := hnext
        exact goes_accounts haccounts (by rw [hphase]; trivial) (.dropCancel owner) trivial
      · cases hnext
        refine goes_accounts haccounts (by rw [hphase]; trivial) _ ?_
        split <;> trivial
  | dropCancel owner =>
      simp only [hphase] at hnext
      cases hnext
      exact goes_accounts haccounts (by rw [hphase]; trivial) (.dropUnlock owner) trivial
  | dropUnlock owner =>
      simp only [hphase] at hnext
      cases hnext
      exact goes_accounts haccounts (by rw [hphase]; trivial) .dropFinish trivial
  | dropFinish =>
      have hlive : (world.phase task).Live := by
        rw [hphase]
        trivial
      simp only [hphase] at hnext
      cases hwaker : world.waker task with
      | none => exact absurd hwaker ((hinv.task task).registered hlive)
      | waiting waker =>
          simp only [hwaker] at hnext
          cases hnext
          have hself := (haccounts task).finish hlive .cancelSleeping
            (Or.inr ⟨by simp [hwaker], rfl⟩) .none
          refine haccounts.of_task task ?_ ?_ ?_ ?_ <;>
            simp +contextual [record, Ne.symm, hself]
      | done =>
          simp only [hwaker] at hnext
          cases hnext
          have hself := (haccounts task).finish hlive .cancelWoken
            (Or.inl ⟨hwaker, Or.inr rfl⟩) .none
          refine haccounts.of_task task ?_ ?_ ?_ ?_ <;>
            simp +contextual [record, Ne.symm, hself]
  | _ =>
      simp only [hphase] at hnext
      cases hnext

omit [DecidableEq φ] [DecidableEq κ] [DecidableEq α] [DecidableEq ω] in
theorem wake_accounts (hinv : Inv world place)
    (haccounts : world.Accounts history) {task : τ}
    {outcome : Outcome (ListStore τ φ κ) τ φ α ω}
    (hnext : world.wake task = some outcome) :
    outcome.world.Accounts (history ++ outcome.events) := by
  unfold World.wake at hnext
  split at hnext
  case h_1 =>
    cases hnext
    exact haccounts.same rfl rfl
  case h_2 waiter hhandle =>
    obtain ⟨waker, hwaker⟩ := hinv.asleep_of_handle hhandle
    rw [hwaker] at hnext
    cases hnext
    have hplace := (hinv.places.hand task waiter).mp hhandle
    have hwaits : (world.phase waiter).Waits :=
      (hinv.task waiter).waits (by simp [hplace])
    have hlive : (world.phase waiter).Live := by
      cases hphase : world.phase waiter <;> simp [hphase, Phase.Waits] at hwaits <;>
        trivial
    have hself := (haccounts waiter).wake hlive (by simp [hwaker])
    refine haccounts.of_task waiter ?_ ?_ ?_ ?_ <;>
      simp +contextual [record, Ne.symm, hself]

theorem call_accounts (hinv : Inv world place)
    (haccounts : world.Accounts history) {task : τ} {op : Op τ φ κ α}
    {spurious : Bool} {waker : ω}
    {outcome : Outcome (ListStore τ φ κ) τ φ α ω}
    (hnext : world.call task op spurious waker = some outcome) :
    outcome.world.Accounts (history ++ outcome.events) := by
  cases op with
  | waiter futex queue => exact newWaiter_accounts haccounts hnext
  | cmpxchgWaitWeak futex current new => exact hinv.pollEnter_accounts haccounts hnext
  | wake => exact hinv.wake_accounts haccounts hnext
  | pending =>
      simp only [World.call] at hnext
      split at hnext
      case isTrue hphase =>
        cases hnext
        exact goes_accounts haccounts (by rw [hphase]; trivial) .pending trivial
      case isFalse =>
        cases hnext
        exact haccounts.same rfl rfl
  | load futex =>
      cases hnext
      exact haccounts.same rfl rfl
  | cmpxchgWeak futex current new =>
      simp only [World.call, World.cmpxchgWeak] at hnext
      split at hnext <;> cases hnext <;> exact haccounts.same rfl rfl
  | lock futex =>
      simp only [World.call, World.lock] at hnext
      split at hnext
      · cases hnext
        exact haccounts.same rfl rfl
      · split at hnext <;> cases hnext
        exact haccounts.same rfl rfl
  | unlock futex =>
      simp only [World.call, World.unlock] at hnext
      split at hnext <;> cases hnext <;> exact haccounts.same rfl rfl
  | borrow futex =>
      simp only [World.call, World.borrow] at hnext
      split at hnext
      · cases hnext
        exact haccounts.same rfl rfl
      · split at hnext <;> cases hnext <;> exact haccounts.same rfl rfl
  | release futex =>
      simp only [World.call, World.release] at hnext
      split at hnext <;> cases hnext <;> exact haccounts.same rfl rfl
  | cmpxchgEnqueueWeak futex current new =>
      simp only [World.call, World.cmpxchgEnqueueWeak] at hnext
      split at hnext
      · cases hnext
        exact haccounts.same rfl rfl
      · split at hnext
        · rw [Option.map_eq_some_iff] at hnext
          obtain ⟨store, hstore, rfl⟩ := hnext
          exact haccounts.same rfl rfl
        · cases hnext
          exact haccounts.same rfl rfl
  | isEmpty futex queue =>
      simp only [World.call, World.isEmpty] at hnext
      split at hnext <;> cases hnext <;> exact haccounts.same rfl rfl
  | pop futex queue =>
      simp only [World.call, World.pop] at hnext
      split at hnext <;> cases hnext <;> exact haccounts.same rfl rfl
  | popMany futex count queue =>
      simp only [World.call, World.popMany] at hnext
      split at hnext <;> cases hnext <;> exact haccounts.same rfl rfl
  | count =>
      cases hnext
      exact haccounts.same rfl rfl
  | next =>
      simp only [World.call, World.next] at hnext
      split at hnext <;> cases hnext <;> exact haccounts.same rfl rfl
  | requeue futex =>
      simp only [World.call, World.requeue] at hnext
      split at hnext
      · cases hnext
        exact haccounts.same rfl rfl
      · split at hnext <;> cases hnext <;> exact haccounts.same rfl rfl

theorem busyStep_accounts (haccounts : world.Accounts history) {task : τ}
    {spurious : Bool} {outcome : Outcome (ListStore τ φ κ) τ φ α ω}
    (hnext : world.busyStep task spurious = some outcome) :
    outcome.world.Accounts (history ++ outcome.events) := by
  unfold World.busyStep at hnext
  split at hnext
  case h_1 => cases hnext
  case h_2 waiter waker hbusy =>
    cases hnext
    intro other
    rw [lives_append]
    simp only [setBusy_phase, setBusy_waker]
    split <;> exact haccounts other
  case h_3 =>
    cases hnext
    intro other
    rw [lives_append]
    exact haccounts other
  case h_4 =>
    cases hnext
    exact haccounts.same rfl rfl
  case h_5 => split at hnext <;> cases hnext <;> exact haccounts.same rfl rfl

theorem step_accounts (hinv : Inv world place)
    (haccounts : world.Accounts history) {task : τ} {act : Act τ φ κ α ω}
    {outcome : Outcome (ListStore τ φ κ) τ φ α ω}
    (hnext : world.step task act = some outcome) :
    outcome.world.Accounts (history ++ outcome.events) := by
  cases act with
  | call op spurious waker =>
      simp only [World.step] at hnext
      split at hnext
      · exact hinv.call_accounts haccounts hnext
      · cases hnext
  | poll waker =>
      simp only [World.step, World.poll] at hnext
      split at hnext <;> cases hnext
      case isTrue.refl hphase =>
        exact goes_accounts haccounts (by rw [hphase.1]; trivial)
          (.polling waker (world.waker task)) trivial
  | drop =>
      simp only [World.step, World.drop] at hnext
      split at hnext <;> cases hnext
      case isTrue.refl hphase =>
        exact goes_accounts haccounts (by rw [hphase.1]; trivial)
          (.dropLock (world.owner task)) trivial
  | step spurious =>
      simp only [World.step] at hnext
      split at hnext
      · exact busyStep_accounts haccounts hnext
      · split at hnext
        case h_1 newWaker seen hphase =>
          exact hinv.pollWaiting_accounts haccounts hphase hnext
        case h_2 => exact hinv.dropStep_accounts haccounts hnext

end Inv

omit [DecidableEq φ] [DecidableEq α] [DecidableEq ω] in
theorem Accounts.initial {S : Type} (store : S) (atom : φ → α) (futex : φ) :
    (World.initial store atom futex : World S τ φ α ω).Accounts [] := by
  intro task
  constructor <;> simp [lives, World.initial, Phase.Live]

theorem accounts_of_trace {queue : κ} {atom : φ → α} {futex : φ}
    {world : ListWorld τ φ κ α ω} {history : List (Event τ φ ω)}
    (htrace : (World.machine (ListStore.empty queue) atom futex :
      Machine (ListWorld τ φ κ α ω) _ _).Trace history world) :
    world.Accounts history := by
  refine htrace.invariant (motive := fun history world => world.Accounts history)
    (Accounts.initial _ _ _) ?_
  rintro history world ⟨task, act⟩ next events hpast haccounts hnext
  obtain ⟨place, hinv⟩ := Inv.of_reachable hpast.reachable
  simp only [World.machine, Option.map_eq_some_iff] at hnext
  obtain ⟨outcome, hstep, heq⟩ := hnext
  cases heq
  exact hinv.step_accounts haccounts hstep

/-! ## The pointers -/

variable [Fintype τ] {queue : κ} {atom : φ → α} {futex : φ}

/-- In every run, every life of every task is accounted for, and nothing
leads to a waiter that was dropped asleep. -/
theorem accounted_of_trace {world : HeapWorld τ φ κ α ω}
    {history : List (Event τ φ ω)}
    (htrace : (World.machine (HeapStore.empty queue) atom futex :
      Machine (HeapWorld τ φ κ α ω) _ _).Trace history world) (task : τ) :
    Accounted (lives task history) (world.phase task) (world.waker task) ∧
      (¬ (world.phase task).Waits → ∀ place, ¬ world.lists.At task place) := by
  obtain ⟨abstract, habstract, store, rfl, hrep⟩ :=
    (simulation queue atom futex).trace htrace
  obtain ⟨place, hinv⟩ := Inv.of_reachable (lists_of_reachable htrace.reachable).1
  exact ⟨accounts_of_trace habstract task, hinv.owned.gone task⟩

/-- A future that is dropped before anyone wakes its waiter. -/
theorem accounted_of_cancel :
    ∃ (world : HeapWorld (Fin 2) Unit Unit Bool Unit)
      (history : List (Event (Fin 2) Unit Unit)),
      lives 0 history = [[.entered (), .cancelSleeping]] ∧
      Accounted (lives 0 history) (world.phase 0) (world.waker 0) ∧
      (¬ (world.phase 0).Waits → ∀ place, ¬ world.lists.At 0 place) := by
  let machine : Machine (HeapWorld (Fin 2) Unit Unit Bool Unit)
      (Fin 2 × Act (Fin 2) Unit Unit Bool Unit) (Event (Fin 2) Unit Unit) :=
    World.machine (HeapStore.empty ()) (fun _ => false) ()
  have htrace : machine.Trace _ _ :=
    ⟨[(0, .call (.waiter () ()) false ()),
      (0, .call (.cmpxchgWaitWeak () ⟨false, none⟩ true) false ()),
      (0, .call .pending false ()), (0, .drop), (0, .step false),
      (0, .step false), (0, .step false), (0, .step false), (0, .step false),
      (0, .step false), (0, .step false)], rfl⟩
  exact ⟨_, _, rfl, accounted_of_trace htrace 0⟩

end World

end AsyncMutex
