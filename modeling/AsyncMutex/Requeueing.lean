import AsyncMutex.Board

/-!
# The owners that `requeue` has still to store

`requeue` stores the new owner of each waiter of its handle list, one after the
other, and then pushes the list on an inbox.
-/

namespace AsyncMutex

namespace World

variable {τ φ κ α ω : Type} [DecidableEq τ]

/-- The part of the handle list of `task` whose owners are not stored yet. -/
def unmoved (world : ListWorld τ φ κ α ω) (task : τ) : List τ :=
  match world.busy task with
  | .requeueStore _ (some waiter) =>
      (world.store.list task).dropWhile fun other => other ≠ waiter
  | .requeueStore _ none => []
  | .requeueLink _ _ => []
  | _ => world.store.list task

variable {world world' : ListWorld τ φ κ α ω} {place : τ → Place τ φ κ} {task : τ}

theorem unmoved_of_free (hbusy : world.busy task = .none) :
    world.unmoved task = world.store.list task := by
  simp only [unmoved, hbusy]

theorem unmoved_congr {other : τ} (hbusy : world'.busy other = world.busy other)
    (hlist : world'.store.list other = world.store.list other) :
    world'.unmoved other = world.unmoved other := by
  simp only [unmoved, hbusy, hlist]

theorem unmoved_sublist : (world.unmoved task).Sublist (world.store.list task) := by
  unfold unmoved
  split
  · exact List.dropWhile_sublist _
  · exact List.nil_sublist _
  · exact List.nil_sublist _
  · exact List.Sublist.refl _

/-- A step that stores no owner of a handle list. -/
structure Unstored (world : ListWorld τ φ κ α ω) (task : τ)
    (outcome : Outcome (ListStore τ φ κ) τ φ α ω) : Prop where
  quiet : ∀ waiter futex, .requeued waiter futex ∉ outcome.events
  unmoved : ∀ other, outcome.world.store.list other = world.store.list other →
    outcome.world.unmoved other = world.unmoved other
  /-- A `requeue` ends when all owners are stored. -/
  finished : world.busy task ≠ .none →
    outcome.world.store.list task ≠ world.store.list task → world.unmoved task = []

/-- `requeue` stores the owner of the next waiter of its handle list. -/
structure Stores (world : ListWorld τ φ κ α ω) (task waiter : τ) (futex : φ)
    (outcome : Outcome (ListStore τ φ κ) τ φ α ω) : Prop where
  events : outcome.events = [.requeued waiter futex]
  resp : outcome.resp = none
  activity : world.board.activity task = .requeueing futex
  board : outcome.world.board = world.board.setOwner waiter futex
  here : world.unmoved task = waiter :: outcome.world.unmoved task
  others : ∀ other, other ≠ task → outcome.world.unmoved other = world.unmoved other

/-- A step outside of `requeue`. -/
theorem Unstored.of_same {outcome : Outcome (ListStore τ φ κ) τ φ α ω}
    (hfree : world.busy task = .none)
    (hbusy : outcome.world.busy = world.busy := by rfl)
    (hquiet : ∀ waiter futex, .requeued waiter futex ∉ outcome.events := by simp) :
    Unstored world task outcome where
  quiet := hquiet
  unmoved other hlist := unmoved_congr (by rw [hbusy]) hlist
  finished hbusy' := absurd hfree hbusy'

variable [DecidableEq φ] [DecidableEq κ] [DecidableEq α] [DecidableEq ω]

namespace Inv

theorem newWaiter_unstored (hfree : world.busy task = .none)
    {futex : φ} {queue : κ} {outcome : Outcome (ListStore τ φ κ) τ φ α ω}
    (hnext : world.newWaiter task futex queue = some outcome) :
    Unstored world task outcome := by
  unfold World.newWaiter at hnext
  split at hnext <;> cases hnext
  case isFalse.refl => exact .of_same hfree
  case isTrue.refl =>
    refine .of_same hfree rfl fun waiter futex' => ?_
    cases world.waker task <;> simp

theorem pollEnter_unstored (hfree : world.busy task = .none) {futex : φ}
    {current : FutexAtom τ α} {new : α} {spurious : Bool} {waker : ω}
    {outcome : Outcome (ListStore τ φ κ) τ φ α ω}
    (hnext : world.pollEnter task futex current new spurious waker = some outcome) :
    Unstored world task outcome := by
  unfold World.pollEnter at hnext
  split at hnext
  · cases hnext
    exact .of_same hfree
  · split at hnext
    · cases hnext
      exact .of_same hfree
    · cases hwaker : world.waker task <;> simp only [hwaker] at hnext
      case done =>
        cases hnext
        exact .of_same hfree
      case none => split at hnext <;> cases hnext <;> exact .of_same hfree
      case waiting => split at hnext <;> cases hnext <;> exact .of_same hfree

omit [DecidableEq φ] [DecidableEq κ] [DecidableEq α] [DecidableEq ω] in
theorem wake_unstored (hfree : world.busy task = .none)
    {outcome : Outcome (ListStore τ φ κ) τ φ α ω}
    (hnext : world.wake task = some outcome) : Unstored world task outcome := by
  unfold World.wake at hnext
  split at hnext
  · cases hnext
    exact .of_same hfree
  case h_2 waiter hhandle =>
    split at hnext
    case h_1 waker hwaker =>
      cases hnext
      refine ⟨by simp, fun other hlist => ?_, fun hbusy => absurd hfree hbusy⟩
      by_cases hother : other = task
      · subst hother
        simp [World.unmoved, World.setBusy, World.setHandle, World.setWaker, hfree]
      · refine unmoved_congr ?_ hlist
        simp [World.setBusy, World.setHandle, World.setWaker, hother]
    case h_2 =>
      cases hnext
      exact .of_same hfree

omit [DecidableEq α] [DecidableEq ω] in
/-- `requeue` begins at the head of its handle list. -/
theorem requeue_unstored (hfree : world.busy task = .none) {futex : φ}
    {outcome : Outcome (ListStore τ φ κ) τ φ α ω}
    (hnext : world.requeue task futex = some outcome) :
    Unstored world task outcome := by
  unfold World.requeue at hnext
  split at hnext
  · cases hnext
    exact .of_same hfree
  · split at hnext <;> cases hnext
    case isTrue.refl => exact .of_same hfree
    case isFalse.refl hempty =>
      refine ⟨by simp, fun other hlist => ?_, fun hbusy => absurd hfree hbusy⟩
      by_cases hother : other = task
      · subst hother
        rw [unmoved_of_free hfree]
        cases hcase : world.store.list other with
        | nil => simp [FutexStore.listEmpty, hcase] at hempty
        | cons waiter rest =>
            simp [World.unmoved, World.setBusy, FutexStore.listHead, hcase]
      · refine unmoved_congr ?_ hlist
        simp [World.setBusy, hother]

theorem call_unstored (hfree : world.busy task = .none)
    {op : Op τ φ κ α} {spurious : Bool} {waker : ω}
    {outcome : Outcome (ListStore τ φ κ) τ φ α ω}
    (hnext : world.call task op spurious waker = some outcome) :
    Unstored world task outcome := by
  cases op with
  | waiter futex queue => exact newWaiter_unstored hfree hnext
  | cmpxchgWaitWeak futex current new => exact pollEnter_unstored hfree hnext
  | wake => exact wake_unstored hfree hnext
  | requeue futex => exact requeue_unstored hfree hnext
  | pending =>
      simp only [World.call] at hnext
      split at hnext <;> cases hnext <;> exact .of_same hfree
  | load futex =>
      cases hnext
      exact .of_same hfree
  | cmpxchgWeak futex current new =>
      simp only [World.call, World.cmpxchgWeak] at hnext
      split at hnext <;> cases hnext <;> exact .of_same hfree
  | lock futex =>
      simp only [World.call, World.lock] at hnext
      split at hnext
      · cases hnext
        exact .of_same hfree
      · split at hnext <;> cases hnext
        exact .of_same hfree
  | unlock futex =>
      simp only [World.call, World.unlock] at hnext
      split at hnext <;> cases hnext <;> exact .of_same hfree
  | borrow futex =>
      simp only [World.call, World.borrow] at hnext
      split at hnext
      · cases hnext
        exact .of_same hfree
      · split at hnext <;> cases hnext <;> exact .of_same hfree
  | release futex =>
      simp only [World.call, World.release] at hnext
      split at hnext <;> cases hnext <;> exact .of_same hfree
  | cmpxchgEnqueueWeak futex current new =>
      simp only [World.call, World.cmpxchgEnqueueWeak] at hnext
      split at hnext
      · cases hnext
        exact .of_same hfree
      · split at hnext
        · rw [Option.map_eq_some_iff] at hnext
          obtain ⟨store, hstore, rfl⟩ := hnext
          exact .of_same hfree
        · cases hnext
          exact .of_same hfree
  | isEmpty futex queue =>
      simp only [World.call, World.isEmpty] at hnext
      split at hnext <;> cases hnext <;> exact .of_same hfree
  | pop futex queue =>
      simp only [World.call, World.pop] at hnext
      split at hnext <;> cases hnext <;> exact .of_same hfree
  | popMany futex count queue =>
      simp only [World.call, World.popMany] at hnext
      split at hnext <;> cases hnext <;> exact .of_same hfree
  | count =>
      cases hnext
      exact .of_same hfree
  | next =>
      simp only [World.call, World.next] at hnext
      split at hnext <;> cases hnext <;> exact .of_same hfree

omit [DecidableEq φ] [DecidableEq κ] [DecidableEq α] in
theorem pollWaiting_unstored (hfree : world.busy task = .none) {newWaker : ω}
    {seen : WaiterWaker ω} {spurious : Bool}
    {outcome : Outcome (ListStore τ φ κ) τ φ α ω}
    (hnext : world.pollWaiting task newWaker seen spurious = some outcome) :
    Unstored world task outcome := by
  unfold World.pollWaiting at hnext
  split at hnext
  · cases hnext
    exact .of_same hfree
  · split at hnext <;> cases hnext <;> exact .of_same hfree
  · cases hnext
    exact .of_same hfree

omit [DecidableEq ω] in
theorem dropStep_unstored (hfree : world.busy task = .none) {spurious : Bool}
    {outcome : Outcome (ListStore τ φ κ) τ φ α ω}
    (hnext : world.dropStep task spurious = some outcome) :
    Unstored world task outcome := by
  unfold World.dropStep at hnext
  split at hnext
  case h_1 =>
    split at hnext <;> cases hnext
    exact .of_same hfree
  case h_5 =>
    split at hnext
    · rw [Option.map_eq_some_iff] at hnext
      obtain ⟨store, hstore, rfl⟩ := hnext
      exact .of_same hfree
    · cases hnext
      exact .of_same hfree
  case h_8 => split at hnext <;> cases hnext <;> exact .of_same hfree
  case h_9 => cases hnext
  all_goals
    cases hnext
    exact .of_same hfree

theorem busyStep_moves (hinv : Inv world place) {spurious : Bool}
    {outcome : Outcome (ListStore τ φ κ) τ φ α ω}
    (hnext : world.busyStep task spurious = some outcome) :
    (∃ waiter futex, Stores world task waiter futex outcome) ∨
      Unstored world task outcome := by
  have hothers : ∀ (busy : Busy τ φ α ω) {other : τ} {world' : ListWorld τ φ κ α ω},
      other ≠ task → world'.busy = Function.update world.busy task busy →
        world'.store.list other = world.store.list other →
          world'.unmoved other = world.unmoved other := by
    intro busy other world' hne hbusy hlist
    exact unmoved_congr (by rw [hbusy, Function.update_of_ne hne]) hlist
  unfold World.busyStep at hnext
  split at hnext
  case h_1 => cases hnext
  case h_2 waiter waker hbusy =>
    cases hnext
    refine Or.inr ⟨by simp, fun other hlist => ?_, fun _ hlist => absurd ?_ hlist⟩
    · by_cases hother : other = task
      · subst hother
        simp only [World.unmoved, setBusy_busy, Function.update_self, hbusy]
        exact hlist
      · refine hothers .none hother ?_ hlist
        split <;> rfl
    · split <;> rfl
  case h_3 futex waiter hbusy =>
    cases hnext
    obtain ⟨-, hboard⟩ := hinv.storeOwner_board hbusy
    obtain ⟨-, -, stored, rest, hlist, hhead, -⟩ := hinv.storing task futex _ hbusy
    obtain ⟨after, rfl⟩ := List.head?_eq_some_iff.mp hhead
    have hnodup := hinv.places.listNodup task
    rw [hlist, List.nodup_append, List.nodup_cons] at hnodup
    obtain ⟨-, ⟨hafter, -⟩, hdisjoint⟩ := hnodup
    have hstored : ∀ other ∈ stored, other ≠ waiter := fun other hother =>
      hdisjoint other hother waiter List.mem_cons_self
    have hskip : (world.store.list task).dropWhile (fun other => other ≠ waiter) =
        waiter :: after := by
      rw [hlist, List.dropWhile_append_of_pos (by simpa using hstored)]
      simp
    have hleft : FutexStore.listNext world.store task waiter = after.head? := by
      simp only [FutexStore.listNext, hlist]
      exact ListStore.successor_append fun hmem => hstored waiter hmem rfl
    refine Or.inl ⟨waiter, futex, rfl, rfl, by simp [World.board, hbusy, Busy.activity],
      hboard, ?_, fun other hother => hothers _ hother rfl rfl⟩
    simp only [World.unmoved, hbusy, hskip, setBusy_busy, Function.update_self, hleft]
    -- the owners after the waiter are all still to be stored
    cases after with
    | nil => rfl
    | cons other rest =>
        have hother : other ≠ waiter := fun heq => hafter (heq ▸ List.mem_cons_self)
        have hnext : ∀ third ∈ stored ++ [waiter], third ≠ other := by
          intro third hthird
          rcases List.mem_append.mp hthird with hmem | hmem
          · exact hdisjoint third hmem other (by simp)
          · rw [List.mem_singleton.mp hmem]
            exact hother.symm
        have hsplit : world.store.list task = (stored ++ [waiter]) ++ other :: rest := by
          simpa using hlist
        simp only [List.head?_cons, setBusy_store]
        rw [hsplit, List.dropWhile_append_of_pos (by simpa using hnext)]
        simp
  case h_4 futex hbusy =>
    cases hnext
    refine Or.inr ⟨by simp, fun other hlist => ?_,
      fun _ hlist => absurd rfl hlist⟩
    by_cases hother : other = task
    · subst hother
      simp [World.unmoved, hbusy]
    · exact hothers _ hother rfl hlist
  case h_5 futex current hbusy =>
    split at hnext <;> cases hnext
    · refine Or.inr ⟨by simp, fun other hlist => ?_,
        fun _ _ => by simp [World.unmoved, hbusy]⟩
      by_cases hother : other = task
      · subst hother
        simp [World.unmoved, hbusy, FutexStore.listPush]
      · exact hothers .none hother rfl hlist
    · refine Or.inr ⟨by simp, fun other hlist => ?_,
        fun _ hlist => absurd rfl hlist⟩
      by_cases hother : other = task
      · subst hother
        simp [World.unmoved, hbusy]
      · exact hothers _ hother rfl hlist

/-- A step stores no owner of a handle list, or the next one of `task`. -/
theorem step_moves (hinv : Inv world place) {act : Act τ φ κ α ω}
    {outcome : Outcome (ListStore τ φ κ) τ φ α ω}
    (hnext : world.step task act = some outcome) :
    (∃ waiter futex, Stores world task waiter futex outcome) ∨
      Unstored world task outcome := by
  cases act with
  | call op spurious waker =>
      simp only [World.step] at hnext
      split at hnext
      case isTrue hrunning => exact Or.inr (call_unstored hrunning.1 hnext)
      case isFalse => cases hnext
  | poll waker =>
      simp only [World.step, World.poll] at hnext
      split at hnext <;> cases hnext
      case isTrue.refl hphase => exact Or.inr (.of_same hphase.2)
  | drop =>
      simp only [World.step, World.drop] at hnext
      split at hnext <;> cases hnext
      case isTrue.refl hphase => exact Or.inr (.of_same hphase.2)
  | step spurious =>
      simp only [World.step] at hnext
      split at hnext
      case isTrue => exact hinv.busyStep_moves hnext
      case isFalse hfree =>
        rw [not_not] at hfree
        split at hnext
        case h_1 newWaker seen hphase =>
          exact Or.inr (pollWaiting_unstored hfree hnext)
        case h_2 => exact Or.inr (dropStep_unstored hfree hnext)

end Inv

end World

end AsyncMutex
