import AsyncMutex.WaiterPanics

/-!
# Queued waiters are not dropped

A waiter that is put on a futex asks for a queue that this futex has, a waiter
with a forgotten future is left alone until it is woken, and a waiter that is
waited on again has lost its next link.  In every such run, panics of callbacks
included, no pointer leads to a dropped waiter.
-/

namespace AsyncMutex

open DoublyLinked

/-- The futex that a notifier moves its handle list to. -/
def Busy.target {τ φ α ω : Type} : Busy τ φ α ω → Option φ
  | .requeueStore futex _ => some futex
  | .requeueLink futex _ => some futex
  | _ => Option.none

/-! ## The indices of the waiting waiters -/

namespace World

variable {τ φ κ α ω : Type}

/-- Every waiting waiter asks for a queue of its owner, and of the futex that it
is moved to. -/
structure Fitted (inBounds : φ → κ → Bool) (world : ListWorld τ φ κ α ω) : Prop where
  waits : ∀ task, (world.phase task).Waits →
    inBounds (world.owner task) (world.store.queue task) = true
  moves : ∀ task futex, (world.busy task).target = some futex →
    ∀ waiter ∈ world.store.list task, inBounds futex (world.store.queue waiter) = true

/-- The operation puts no waiter on a futex without its queue. -/
def Suits (inBounds : φ → κ → Bool) (world : ListWorld τ φ κ α ω) (task : τ) :
    Op τ φ κ α → Prop
  | .cmpxchgWaitWeak futex _ _ => inBounds futex (world.store.queue task) = true
  | .requeue futex =>
      ∀ waiter ∈ world.store.list task, inBounds futex (world.store.queue waiter) = true
  | _ => True

variable {inBounds : φ → κ → Bool} {world world' : ListWorld τ φ κ α ω} {task : τ}

theorem Fitted.frame (hfitted : world.Fitted inBounds)
    (hphase : ∀ other, (world'.phase other).Waits → (world.phase other).Waits)
    (howner : world'.owner = world.owner)
    (hqueue : world'.store.queue = world.store.queue)
    (hbusy : ∀ other futex, (world'.busy other).target = some futex →
      (world.busy other).target = some futex ∧
        world'.store.list other = world.store.list other) : world'.Fitted inBounds where
  waits other hwaits := by
    rw [howner, hqueue]
    exact hfitted.waits other (hphase other hwaits)
  moves other futex htarget waiter hwaiter := by
    obtain ⟨hbefore, hlist⟩ := hbusy other futex htarget
    rw [hlist] at hwaiter
    rw [hqueue]
    exact hfitted.moves other futex hbefore waiter hwaiter

variable [DecidableEq τ] [DecidableEq φ] [DecidableEq κ] [DecidableEq α] [DecidableEq ω]
  {place : τ → Place τ φ κ} {outcome : Outcome (ListStore τ φ κ) τ φ α ω}

/-- A new waiter changes nobody else's index. -/
theorem Fitted.newWaiter (hfitted : world.Fitted inBounds) (hinv : Inv world place)
    {futex : φ} {queue : κ} (hstep : world.newWaiter task futex queue = some outcome) :
    outcome.world.Fitted inBounds := by
  unfold World.newWaiter at hstep
  split at hstep <;> cases hstep
  case isFalse.refl => exact hfitted
  case isTrue.refl hphase =>
    have hfree : place task = .nowhere :=
      hinv.nowhere (by rcases hphase with hphase | hphase <;> simp [hphase, Phase.Waits])
    constructor
    case waits =>
      intro other hwaits
      have hother : other ≠ task := by
        rintro rfl
        simp [Phase.Waits] at hwaits
      simp only [Function.update_of_ne hother] at hwaits
      simpa [FutexStore.renew, hother] using hfitted.waits other hwaits
    case moves =>
      intro other target htarget waiter hwaiter
      have hother : waiter ≠ task := by
        rintro rfl
        have hplace := (hinv.places.list other waiter).mp hwaiter
        rw [hfree] at hplace
        cases hplace
      simpa [FutexStore.renew, hother] using
        hfitted.moves other target htarget waiter hwaiter

/-- The other operations of a task change no index, no owner and no list of
another task. -/
theorem kept_call {op : Op τ φ κ α} {spurious : Bool} {waker : ω}
    (hstep : world.call task op spurious waker = some outcome)
    (hnot : ∀ futex queue, op ≠ .waiter futex queue) :
    outcome.world.owner = world.owner ∧ outcome.world.store.queue = world.store.queue ∧
      ∀ other, other ≠ task → outcome.world.store.list other = world.store.list other := by
  have hanswer {resp : Resp τ α} (hanswer : world.answer resp = some outcome) :
      outcome.world.owner = world.owner ∧ outcome.world.store.queue = world.store.queue ∧
        ∀ other, other ≠ task → outcome.world.store.list other = world.store.list other := by
    cases hanswer
    exact ⟨rfl, rfl, fun _ _ => rfl⟩
  cases op with
  | waiter futex queue => exact absurd rfl (hnot futex queue)
  | load futex => exact hanswer hstep
  | cmpxchgWeak futex current new =>
      simp only [World.call, World.cmpxchgWeak] at hstep
      split at hstep <;> cases hstep <;> exact ⟨rfl, rfl, fun _ _ => rfl⟩
  | cmpxchgWaitWeak futex current new =>
      simp only [World.call, World.pollEnter] at hstep
      split at hstep
      · exact hanswer hstep
      · split at hstep
        · exact hanswer hstep
        · split at hstep
          · cases hstep
            exact ⟨rfl, rfl, fun _ _ => rfl⟩
          · split at hstep <;> split at hstep <;> cases hstep <;>
              exact ⟨rfl, rfl, fun _ _ => rfl⟩
  | pending =>
      simp only [World.call] at hstep
      split at hstep <;> cases hstep <;> exact ⟨rfl, rfl, fun _ _ => rfl⟩
  | lock futex =>
      simp only [World.call, World.lock] at hstep
      split at hstep
      · exact hanswer hstep
      · split at hstep <;> cases hstep
        exact ⟨rfl, rfl, fun _ _ => rfl⟩
  | unlock futex =>
      simp only [World.call, World.unlock] at hstep
      split at hstep <;> cases hstep <;> exact ⟨rfl, rfl, fun _ _ => rfl⟩
  | borrow futex =>
      simp only [World.call, World.borrow] at hstep
      split at hstep
      · exact hanswer hstep
      · split at hstep <;> cases hstep <;> exact ⟨rfl, rfl, fun _ _ => rfl⟩
  | release futex =>
      simp only [World.call, World.release] at hstep
      split at hstep <;> cases hstep <;> exact ⟨rfl, rfl, fun _ _ => rfl⟩
  | cmpxchgEnqueueWeak futex current new =>
      simp only [World.call, World.cmpxchgEnqueueWeak] at hstep
      split at hstep
      · exact hanswer hstep
      · split at hstep
        · cases hstep
          exact ⟨rfl, rfl, fun _ _ => rfl⟩
        · exact hanswer hstep
  | isEmpty futex queue =>
      simp only [World.call, World.isEmpty] at hstep
      split at hstep <;> exact hanswer hstep
  | pop futex queue =>
      simp only [World.call, World.pop] at hstep
      split at hstep <;> cases hstep <;> exact ⟨rfl, rfl, fun _ _ => rfl⟩
  | popMany futex count queue =>
      simp only [World.call, World.popMany] at hstep
      split at hstep <;> cases hstep
      · exact ⟨rfl, rfl, fun _ hother => Function.update_of_ne hother _ _⟩
      · exact ⟨rfl, rfl, fun _ _ => rfl⟩
  | count =>
      cases hstep
      exact ⟨rfl, rfl, fun _ _ => rfl⟩
  | next =>
      simp only [World.call, World.next] at hstep
      split at hstep <;> cases hstep
      · exact ⟨rfl, rfl, fun _ hother => Function.update_of_ne hother _ _⟩
      · exact ⟨rfl, rfl, fun _ _ => rfl⟩
  | wake =>
      simp only [World.call, World.wake] at hstep
      split at hstep
      · exact hanswer hstep
      · split at hstep <;> cases hstep <;> exact ⟨rfl, rfl, fun _ _ => rfl⟩
  | requeue futex =>
      simp only [World.call, World.requeue] at hstep
      split at hstep
      · exact hanswer hstep
      · split at hstep <;> cases hstep <;> exact ⟨rfl, rfl, fun _ _ => rfl⟩

/-- A successful compare-exchange puts the waiter on its owner. -/
theorem Fitted.pollEnter (hfitted : world.Fitted inBounds) {futex : φ}
    {current : FutexAtom τ α} {new : α} {spurious : Bool} {waker : ω}
    (hsuits : inBounds futex (world.store.queue task) = true)
    (hstep : world.pollEnter task futex current new spurious waker = some outcome) :
    outcome.world.Fitted inBounds := by
  have hcall : world.call task (.cmpxchgWaitWeak futex current new) spurious waker =
      some outcome := hstep
  obtain ⟨howner, hqueue, -⟩ := kept_call hcall (by simp)
  have heffect : outcome.world.busy = world.busy ∧
      outcome.world.store.list = world.store.list ∧
      ∀ other, (outcome.world.phase other).Waits →
        (world.phase other).Waits ∨ other = task ∧ world.owner task = futex := by
    unfold World.pollEnter at hstep
    split at hstep
    · cases hstep
      exact ⟨rfl, rfl, fun other hwaits => Or.inl hwaits⟩
    · split at hstep
      case isTrue =>
        cases hstep
        exact ⟨rfl, rfl, fun other hwaits => Or.inl hwaits⟩
      case isFalse hmine =>
        rw [not_not] at hmine
        have hentered (other : τ)
            (hwaits : (Function.update world.phase task .entered other).Waits) :
            (world.phase other).Waits ∨ other = task ∧ world.owner task = futex := by
          by_cases hother : other = task
          · exact Or.inr ⟨hother, hmine⟩
          · rw [Function.update_of_ne hother] at hwaits
            exact Or.inl hwaits
        split at hstep
        · cases hstep
          exact ⟨rfl, rfl, fun other hwaits => Or.inl hwaits⟩
        · split at hstep <;> split at hstep <;> cases hstep <;>
            first
              | exact ⟨rfl, rfl, hentered⟩
              | exact ⟨rfl, rfl, fun other hwaits => Or.inl hwaits⟩
  obtain ⟨hbusy, hlist, hphase⟩ := heffect
  constructor
  case waits =>
    intro other hwaits
    rw [howner, hqueue]
    rcases hphase other hwaits with hbefore | ⟨rfl, hmine⟩
    · exact hfitted.waits other hbefore
    · rw [hmine]
      exact hsuits
  case moves =>
    rw [hbusy, hlist, hqueue]
    exact hfitted.moves

theorem Fitted.call (hfitted : world.Fitted inBounds) (hinv : Inv world place)
    (hidle : world.busy task = .none) {op : Op τ φ κ α} {spurious : Bool} {waker : ω}
    (hsuits : world.Suits inBounds task op)
    (hstep : world.call task op spurious waker = some outcome) :
    outcome.world.Fitted inBounds := by
  by_cases hnew : ∃ futex queue, op = .waiter futex queue
  · obtain ⟨futex, queue, rfl⟩ := hnew
    exact hfitted.newWaiter hinv hstep
  · rw [not_exists] at hnew
    obtain ⟨howner, hqueue, hlist⟩ := kept_call hstep
      fun futex queue heq => hnew futex ⟨queue, heq⟩
    -- the task itself moves no list before the call
    have hothers {other : τ} {futex : φ} (htarget : (world.busy other).target = some futex) :
        outcome.world.store.list other = world.store.list other := by
      refine hlist other ?_
      rintro rfl
      rw [hidle] at htarget
      cases htarget
    rcases untouched_call hstep with hsame | ⟨futex, queue, rfl⟩ | ⟨futex, current, new, rfl⟩ |
      rfl | rfl | ⟨futex, rfl⟩
    · refine hfitted.frame (fun other => ?_) howner hqueue fun other target htarget => ?_
      · rw [hsame.phase]
        exact id
      · rw [hsame.busy] at htarget
        exact ⟨htarget, hothers htarget⟩
    · exact absurd ⟨queue, rfl⟩ (hnew futex)
    · exact hfitted.pollEnter hsuits hstep
    · refine hfitted.frame (fun other hwaits => ?_) howner hqueue fun other target htarget => ?_
      · simp only [World.call] at hstep
        split at hstep <;> cases hstep
        case isTrue.refl hentered =>
          by_cases hother : other = task
          · rw [hother, hentered]
            trivial
          · simpa [hother] using hwaits
        case isFalse.refl => exact hwaits
      · have hbusy : outcome.world.busy = world.busy := by
          simp only [World.call] at hstep
          split at hstep <;> cases hstep <;> rfl
        rw [hbusy] at htarget
        exact ⟨htarget, hothers htarget⟩
    · have heffect : outcome.world.phase = world.phase ∧ ∀ other target,
          (outcome.world.busy other).target = some target →
            (world.busy other).target = some target := by
        simp only [World.call, World.wake] at hstep
        split at hstep
        · cases hstep
          exact ⟨rfl, fun _ _ => id⟩
        · split at hstep <;> cases hstep
          · refine ⟨rfl, fun other target htarget => ?_⟩
            by_cases hother : other = task
            · simp [hother, Busy.target] at htarget
            · simpa [hother] using htarget
          · exact ⟨rfl, fun _ _ => id⟩
      obtain ⟨hphase, hbusy⟩ := heffect
      refine hfitted.frame (fun other => ?_) howner hqueue fun other target htarget =>
        ⟨hbusy other target htarget, hothers (hbusy other target htarget)⟩
      rw [hphase]
      exact id
    · simp only [World.call, World.requeue] at hstep
      split at hstep
      · cases hstep
        exact hfitted
      · split at hstep <;> cases hstep
        · exact hfitted
        · refine ⟨hfitted.waits, fun other target htarget => ?_⟩
          by_cases hother : other = task
          · simp only [hother, setBusy_busy, Function.update_self, Busy.target,
              Option.some.injEq] at htarget
            rw [hother, ← htarget]
            exact hsuits
          · simp only [setBusy_busy, Function.update_of_ne hother] at htarget
            exact hfitted.moves other target htarget

omit [DecidableEq φ] [DecidableEq κ] [DecidableEq α] [DecidableEq ω] in
/-- The future of the task goes on or ends. -/
theorem Fitted.setPhase (hfitted : world.Fitted inBounds) {phase : Phase τ φ α ω}
    (hphase : phase.Waits → (world.phase task).Waits) :
    (world.setPhase task phase).Fitted inBounds := by
  refine hfitted.frame (fun other hwaits => ?_) rfl rfl fun _ _ htarget => ⟨htarget, rfl⟩
  by_cases hother : other = task
  · subst hother
    exact hphase (by simpa using hwaits)
  · simpa [hother] using hwaits

omit [DecidableEq κ] in
theorem Fitted.poll (hfitted : world.Fitted inBounds) {waker : ω}
    (hstep : world.poll task waker = some outcome) : outcome.world.Fitted inBounds := by
  unfold World.poll at hstep
  split at hstep <;> cases hstep
  case isTrue.refl hpending =>
    have hset : (world.setPhase task (.polling waker (world.waker task))).Fitted inBounds :=
      hfitted.setPhase fun _ => by simp [hpending.1, Phase.Waits]
    exact hset.frame (fun _ => id) rfl rfl fun _ _ htarget => ⟨htarget, rfl⟩

omit [DecidableEq κ] in
theorem Fitted.drop (hfitted : world.Fitted inBounds)
    (hstep : world.drop task = some outcome) : outcome.world.Fitted inBounds := by
  unfold World.drop at hstep
  split at hstep <;> cases hstep
  case isTrue.refl hpending =>
    exact hfitted.setPhase fun _ => by simp [hpending.1, Phase.Waits]

omit [DecidableEq φ] [DecidableEq κ] [DecidableEq α] in
theorem Fitted.pollWaiting (hfitted : world.Fitted inBounds) {newWaker : ω}
    {seen : WaiterWaker ω} {spurious : Bool} (hphase : world.phase task = .polling newWaker seen)
    (hstep : world.pollWaiting task newWaker seen spurious = some outcome) :
    outcome.world.Fitted inBounds := by
  have hset (phase : Phase τ φ α ω) : (world.setPhase task phase).Fitted inBounds :=
    hfitted.setPhase fun _ => by simp [hphase, Phase.Waits]
  unfold World.pollWaiting at hstep
  split at hstep
  · cases hstep
    exact hset _
  · split at hstep <;> cases hstep
    · exact (hset .pending).frame (fun _ => id) rfl rfl fun _ _ htarget => ⟨htarget, rfl⟩
    · exact hset _
  · cases hstep
    exact hset _

omit [DecidableEq ω] in
theorem Fitted.dropStep (hfitted : world.Fitted inBounds) {spurious : Bool}
    (hstep : world.dropStep task spurious = some outcome) :
    outcome.world.Fitted inBounds := by
  -- the waiter stays on its owner, or is taken from it
  have hset (hwaits : (world.phase task).Waits) (phase : Phase τ φ α ω) :
      (world.setPhase task phase).Fitted inBounds := hfitted.setPhase fun _ => hwaits
  unfold World.dropStep at hstep
  split at hstep
  case h_1 owner hphase =>
    split at hstep <;> cases hstep
    exact (hset (by simp [hphase, Phase.Waits]) (.dropCheck owner)).frame (fun _ => id) rfl rfl
      fun _ _ htarget => ⟨htarget, rfl⟩
  case h_2 owner hphase =>
    cases hstep
    exact hset (by simp [hphase, Phase.Waits]) _
  case h_3 owner owner2 hphase =>
    cases hstep
    exact (hset (by simp [hphase, Phase.Waits]) (.dropLock owner2)).frame (fun _ => id) rfl rfl
      fun _ _ htarget => ⟨htarget, rfl⟩
  case h_4 owner hphase =>
    cases hstep
    exact hset (by simp [hphase, Phase.Waits]) _
  case h_5 owner current hphase =>
    have hwaits : (world.phase task).Waits := by simp [hphase, Phase.Waits]
    split at hstep <;> cases hstep
    · exact (hset hwaits (.dropCancel owner)).frame (fun _ => id) rfl rfl
        fun _ _ htarget => ⟨htarget, rfl⟩
    · exact hset hwaits _
  case h_6 owner hphase =>
    cases hstep
    exact (hset (by simp [hphase, Phase.Waits]) (.dropUnlock owner)).frame (fun _ => id) rfl rfl
      fun _ _ htarget => ⟨htarget, rfl⟩
  case h_7 owner hphase =>
    cases hstep
    have hfinish : (world.setPhase task .dropFinish).Fitted inBounds :=
      hfitted.setPhase False.elim
    exact hfinish.frame (fun _ => id) rfl rfl fun _ _ htarget => ⟨htarget, rfl⟩
  case h_8 hphase =>
    have hidle : (world.setPhase task .idle).Fitted inBounds := hfitted.setPhase False.elim
    split at hstep <;> cases hstep
    · exact hidle
    · exact hidle.frame (fun _ => id) rfl rfl fun _ _ htarget => ⟨htarget, rfl⟩
    · exact hidle.frame (fun _ => id) rfl rfl fun _ _ htarget => ⟨htarget, rfl⟩
  case h_9 => cases hstep

theorem Fitted.busyStep (hfitted : world.Fitted inBounds) (hinv : Inv world place)
    {spurious : Bool} (hstep : world.busyStep task spurious = some outcome) :
    outcome.world.Fitted inBounds := by
  -- the task goes on with the same list, or stops
  have hbusy (busy : Busy τ φ α ω) (htarget : ∀ target, busy.target = some target →
      (world.busy task).target = some target) (other : τ) (target : φ)
      (hother : (Function.update world.busy task busy other).target = some target) :
      (world.busy other).target = some target := by
    by_cases heq : other = task
    · subst heq
      exact htarget target (by simpa using hother)
    · simpa [heq] using hother
  unfold World.busyStep at hstep
  split at hstep
  case h_1 => cases hstep
  case h_2 waiter waker hwaking =>
    cases hstep
    refine hfitted.frame ?_ ?_ ?_ fun other target htarget => ?_
    · intro other
      dsimp only
      split <;> exact id
    · dsimp only
      split <;> rfl
    · dsimp only
      split <;> rfl
    · dsimp only at htarget ⊢
      refine ⟨hbusy .none (by simp [Busy.target]) other target ?_, ?_⟩
      · split at htarget <;> exact htarget
      · split <;> rfl
  case h_3 futex waiter hstoring =>
    cases hstep
    obtain ⟨-, -, stored, rest, hlist, hhead, -⟩ := hinv.storing task futex (some waiter) hstoring
    have hmem : waiter ∈ world.store.list task := by
      rw [hlist]
      exact List.mem_append_right _ (List.mem_of_mem_head? hhead)
    have hwaiter := hfitted.moves task futex (by rw [hstoring]; rfl) waiter hmem
    constructor
    case waits =>
      intro other hwaits
      by_cases hother : other = waiter
      · simpa [hother] using hwaiter
      · simpa [hother] using hfitted.waits other hwaits
    case moves =>
      intro other target htarget
      refine hfitted.moves other target (hbusy _ (fun target htarget => ?_) other target htarget)
      rw [hstoring]
      exact htarget
  case h_4 futex hstoring =>
    cases hstep
    refine hfitted.frame (fun _ => id) rfl rfl fun other target htarget => ⟨?_, rfl⟩
    refine hbusy _ (fun target htarget => ?_) other target htarget
    rw [hstoring]
    exact htarget
  case h_5 futex current hlinking =>
    split at hstep <;> cases hstep
    · refine hfitted.frame (fun _ => id) rfl rfl fun other target htarget => ?_
      have hother : other ≠ task := by
        rintro rfl
        simp [Busy.target] at htarget
      refine ⟨hbusy .none (by simp [Busy.target]) other target htarget, ?_⟩
      simp [FutexStore.listPush, FutexStore.listLink, hother]
    · refine hfitted.frame (fun _ => id) rfl rfl fun other target htarget => ⟨?_, rfl⟩
      refine hbusy _ (fun target htarget => ?_) other target htarget
      rw [hlinking]
      exact htarget

end World

namespace Lives

variable {τ φ κ α ω : Type} [DecidableEq τ] [DecidableEq φ] [DecidableEq κ]
  [DecidableEq α] [DecidableEq ω] {inBounds : φ → κ → Bool}
  {lives lives' : Lives (ListStore τ φ κ) τ φ α ω} {task : τ}
  {resp : Option (Resp τ α)} {events : List (Event τ φ ω)}

theorem fitted_wait (hgood : lives.Good) (hfitted : lives.world.Fitted inBounds)
    {act : Act τ φ κ α ω}
    (hsuits : ∀ op spurious waker, act = .call op spurious waker →
      lives.world.Suits inBounds task op)
    (hstep : lives.wait task act = some (lives', resp, events)) :
    lives'.world.Fitted inBounds := by
  obtain ⟨place, hinv⟩ := hgood.placed
  unfold Lives.wait at hstep
  rw [Option.map_eq_some_iff] at hstep
  obtain ⟨outcome, hworld, heq⟩ := hstep
  cases heq
  unfold stepWorld at hworld
  split at hworld
  case isTrue =>
    split at hworld
    case h_1 op spurious waker =>
      split at hworld
      case isFalse => cases hworld
      case isTrue hidle => exact hfitted.call hinv hidle (hsuits op spurious waker rfl) hworld
    case h_2 => exact hfitted.busyStep hinv hworld
    case h_3 => cases hworld
  case isFalse =>
    cases act with
    | call op spurious waker =>
        simp only [World.step] at hworld
        split at hworld
        case isFalse => cases hworld
        case isTrue hrunning =>
          exact hfitted.call hinv hrunning.1 (hsuits op spurious waker rfl) hworld
    | poll waker => exact hfitted.poll hworld
    | drop => exact hfitted.drop hworld
    | step spurious =>
        simp only [World.step] at hworld
        split at hworld
        · exact hfitted.busyStep hinv hworld
        · split at hworld
          case h_1 hphase => exact hfitted.pollWaiting hphase hworld
          case h_2 => exact hfitted.dropStep hworld

theorem fitted_step (hgood : lives.Good) (hfitted : lives.world.Fitted inBounds)
    {use : Use τ φ κ α ω}
    (hsuits : ∀ op spurious waker, use = .act (.call op spurious waker) →
      lives.world.Suits inBounds task op)
    (hstep : lives.step reuse task use = some (lives', resp, events)) :
    lives'.world.Fitted inBounds := by
  unfold Lives.step at hstep
  split at hstep
  case h_1 futex queue spurious waker =>
    obtain ⟨place, hinv⟩ := hgood.placed
    unfold Lives.create at hstep
    split at hstep
    · cases hstep
    · rw [Option.map_eq_some_iff] at hstep
      obtain ⟨outcome, hworld, heq⟩ := hstep
      cases heq
      simp only [World.step] at hworld
      split at hworld
      case isFalse => cases hworld
      case isTrue => exact hfitted.newWaiter hinv hworld
  case h_2 act _ =>
    refine fitted_wait hgood hfitted (fun op spurious waker heq => ?_) hstep
    exact hsuits op spurious waker (by rw [heq])
  case h_3 current =>
    unfold Lives.again at hstep
    split at hstep
    case isFalse => cases hstep
    case isTrue =>
      split at hstep <;> cases hstep
      · have hidle : (lives.world.setPhase task .idle).Fitted inBounds :=
          hfitted.setPhase False.elim
        exact hidle.frame (fun _ => id) rfl rfl fun _ _ htarget => ⟨htarget, rfl⟩
      · exact hfitted.setPhase False.elim
  case h_4 =>
    unfold Lives.forget at hstep
    split at hstep <;> cases hstep
    exact hfitted
  case h_5 =>
    unfold Lives.dropWaiter at hstep
    split at hstep <;> cases hstep
    have hidle : (lives.world.setPhase task .idle).Fitted inBounds :=
      hfitted.setPhase False.elim
    exact hidle.frame (fun _ => id) rfl rfl fun _ _ htarget => ⟨htarget, rfl⟩

end Lives

/-! ## Careful runs -/

namespace Perils

variable {τ φ κ α ω : Type} [DecidableEq τ] [DecidableEq φ] [DecidableEq κ] [DecidableEq ω]
  [Fintype τ]

/-- The waiters are used with care, and put only on futexes that have their
queues.  Callbacks may panic. -/
def Careful (inBounds : φ → κ → Bool) (perils : Perils τ φ κ α ω)
    (label : τ × Deed τ φ κ α ω) : Prop :=
  match label.2 with
  | .use use => perils.lives.Careful (label.1, use) ∧ perils.Fits inBounds (label.1, use)
  | .unwind => True

instance (inBounds : φ → κ → Bool) (perils : Perils τ φ κ α ω)
    (label : τ × Deed τ φ κ α ω) : Decidable (perils.Careful inBounds label) :=
  match label with
  | (task, .use use) =>
      inferInstanceAs (Decidable (perils.lives.Careful (task, use) ∧
        perils.Fits inBounds (task, use)))
  | (_, .unwind) => inferInstanceAs (Decidable True)

/-- The lists that a careful run holds. -/
structure Held (inBounds : φ → κ → Bool) (perils : Perils τ φ κ α ω)
    (lists : Lives (ListStore τ φ κ) τ φ α ω) : Prop where
  good : lists.Good
  fitted : lists.world.Fitted inBounds
  lives : ∃ store, lists.world.RepresentedBy store ∧ perils.lives = lists.withStore store
  sound : ∀ futex, perils.poisoned futex = false

variable {inBounds : φ → κ → Bool} {perils perils' : Perils τ φ κ α ω}
  {lists : Lives (ListStore τ φ κ) τ φ α ω} {task : τ} {resp : Option (Resp τ α)}
  {events : List (Event τ φ ω)}

omit [DecidableEq ω] in
/-- The inbox of a futex asks for queues that the futex has. -/
theorem Held.enqueuePanic (hheld : Held inBounds perils lists) (futex : φ) :
    perils.lives.world.store.enqueuePanic (inBounds futex) futex = none := by
  obtain ⟨hgood, hfitted, ⟨store, hrep, hlives⟩, -⟩ := hheld
  obtain ⟨place, hinv⟩ := hgood.placed
  obtain ⟨before, hlists, -⟩ := hrep.lists
  rw [hlives]
  refine hlists.enqueuePanic_of_valid hinv.places fun waiter hwaiter => ?_
  have hplace := (hinv.places.inbox futex waiter).mp hwaiter
  have hwaits := hfitted.waits waiter ((hinv.task waiter).waits (by simp [hplace]))
  rwa [(hinv.task waiter).owned futex (by simp [hplace])] at hwaits

omit [DecidableEq τ] [DecidableEq φ] [DecidableEq κ] [DecidableEq ω] [Fintype τ] in
/-- The drop of a future finds the queue of its waiter. -/
theorem Held.cancels (hheld : Held inBounds perils lists) {owner : φ}
    (hphase : perils.lives.world.phase task = .dropCancel owner) :
    inBounds owner (perils.lives.world.store.heap task).data = true := by
  obtain ⟨hgood, hfitted, ⟨store, hrep, hlives⟩, -⟩ := hheld
  obtain ⟨place, hinv⟩ := hgood.placed
  obtain ⟨before, hlists, -⟩ := hrep.lists
  rw [hlives] at hphase ⊢
  have hphase' : lists.world.phase task = .dropCancel owner := hphase
  have hwaits := hfitted.waits task (by simp [hphase', Phase.Waits])
  rw [(hinv.task task).flips owner (by simp [hphase', Phase.flips])] at hwaits
  have hdata : (store.heap task).data = lists.world.store.queue task := hlists.data task
  change inBounds owner (store.heap task).data = true
  rw [hdata]
  exact hwaits

variable [DecidableEq α]

/-- A call panics only at the index that it was given, and changes nothing. -/
theorem Held.panic (hheld : Held inBounds perils lists) {use : Use τ φ κ α ω}
    (hpanic : perils.panic inBounds task use = some perils') :
    perils' = perils ∧ ∃ op spurious waker, use = .act (.call op spurious waker) ∧
      op ≠ .wake ∧ ∀ futex current new, op ≠ .cmpxchgWaitWeak futex current new := by
  unfold Perils.panic at hpanic
  split at hpanic
  case h_1 op spurious waker =>
    split at hpanic
    case isFalse => cases hpanic
    case isTrue =>
      rw [Option.map_eq_some_iff] at hpanic
      obtain ⟨world, hcall, rfl⟩ := hpanic
      have hsame : world = perils.lives.world ∧ op ≠ .wake ∧
          ∀ futex current new, op ≠ .cmpxchgWaitWeak futex current new := by
        cases op with
        | lock futex => simp [callPanic, hheld.sound] at hcall
        | cmpxchgEnqueueWeak futex current new =>
            simp [callPanic, hheld.enqueuePanic] at hcall
        | isEmpty futex queue =>
            simp only [callPanic] at hcall
            split at hcall <;> cases hcall
            exact ⟨rfl, by simp, by simp⟩
        | pop futex queue =>
            simp only [callPanic] at hcall
            split at hcall <;> cases hcall
            exact ⟨rfl, by simp, by simp⟩
        | popMany futex count queue =>
            simp only [callPanic] at hcall
            split at hcall <;> cases hcall
            exact ⟨rfl, by simp, by simp⟩
        | _ => cases hcall
      obtain ⟨rfl, hop⟩ := hsame
      exact ⟨rfl, op, spurious, waker, rfl, hop⟩
  case h_2 spurious =>
    split at hpanic
    case isFalse => cases hpanic
    case isTrue =>
      unfold Perils.dropPanic at hpanic
      dsimp only at hpanic
      split at hpanic
      case h_1 => simp [hheld.sound] at hpanic
      case h_2 => simp [hheld.enqueuePanic] at hpanic
      case h_3 owner hphase => simp [hheld.cancels hphase] at hpanic
      case h_4 => cases hpanic
  case h_3 => cases hpanic

omit [DecidableEq τ] [DecidableEq φ] [DecidableEq κ] [DecidableEq α] [DecidableEq ω] in
theorem Held.suits (hheld : Held inBounds perils lists) {op : Op τ φ κ α} {spurious : Bool}
    {waker : ω} (hfits : perils.Fits inBounds (task, .act (.call op spurious waker))) :
    lists.world.Suits inBounds task op := by
  obtain ⟨hgood, -, ⟨store, hrep, hlives⟩, -⟩ := hheld
  obtain ⟨place, hinv⟩ := hgood.placed
  obtain ⟨before, hlists, -⟩ := hrep.lists
  have hdata (waiter : τ) :
      (perils.lives.world.store.heap waiter).data = lists.world.store.queue waiter := by
    rw [hlives]
    exact hlists.data waiter
  cases op with
  | cmpxchgWaitWeak futex current new =>
      have hindex := hfits (futex, task) List.mem_cons_self
      rwa [hdata] at hindex
  | requeue futex =>
      intro waiter hwaiter
      rw [← hdata]
      refine hfits (futex, waiter) (List.mem_map.mpr ⟨waiter, ?_, rfl⟩)
      rw [hlives]
      change waiter ∈ store.lists.list task
      rw [hlists.lists_eq hinv.places]
      exact hwaiter
  | _ => trivial

/-- Nothing panics: a step of the pointers is the same step of the lists. -/
theorem Held.use (hheld : Held inBounds perils lists) {use : Use τ φ κ α ω}
    {lives : Lives (HeapStore τ φ κ) τ φ α ω}
    (hcareful : perils.Careful inBounds (task, .use use))
    (hstep : perils.lives.step Lives.reuse task use = some (lives, resp, events)) :
    ∃ lists', Held inBounds { perils with lives := lives } lists' := by
  obtain ⟨huse, hfits⟩ := hcareful
  have hsuits (op : Op τ φ κ α) (spurious : Bool) (waker : ω)
      (heq : use = .act (.call op spurious waker)) : lists.world.Suits inBounds task op := by
    subst heq
    exact hheld.suits hfits
  obtain ⟨hgood, hfitted, ⟨store, hrep, hlives⟩, hsound⟩ := hheld
  rw [hlives] at huse hstep
  have hleaked := huse.of_leaked
  have hready (current : FutexAtom τ α) (heq : use = .again current)
      (hdone : lists.world.waker task ≠ .done) :
      Lives.Readies Lives.reuse lists.world store task := by
    subst heq
    rcases huse with hwoken | ⟨-, hnext⟩
    · exact absurd hwoken hdone
    · exact Lives.readies_reuse hrep hnext
  have hmatched := Lives.step_matched hgood hrep task use hleaked
    fun current heq _ hdone => hready current heq hdone
  generalize hlists : lists.step Lives.reuse task use = abstract at hmatched
  rw [hstep] at hmatched
  cases hmatched with
  | stepped hrep' =>
      exact ⟨_, hgood.step hleaked hlists, Lives.fitted_step hgood hfitted hsuits hlists,
        ⟨_, hrep', rfl⟩, hsound⟩

omit [Fintype τ] in
/-- The future is over before its callback runs. -/
theorem Held.unwind (hheld : Held inBounds perils lists)
    (hstep : perils.unwind task = some (perils', resp, events)) :
    ∃ lists', Held inBounds perils' lists' := by
  obtain ⟨hfinish, rfl, -⟩ := unwind_cases hstep
  obtain ⟨hgood, hfitted, ⟨store, hrep, hlives⟩, hsound⟩ := hheld
  obtain ⟨place, hinv⟩ := hgood.placed
  rw [hlives] at hfinish
  have hfinish' : lists.world.phase task = .dropFinish := hfinish
  have hfree : place task = .nowhere := hinv.nowhere (by simp [hfinish', Phase.Waits])
  have hidle : World.Inv (lists.world.setPhase task .idle) place := by
    refine hinv.setPhase (by rw [hfinish']; rfl) ?_
    rw [hfree]
    exact TaskInv.idle _ _
  have hleaked : lists.leaked task = false := by
    rw [Bool.eq_false_iff]
    intro hleak
    have hpending := hgood.leaked task hleak
    simp [hfinish'] at hpending
  refine ⟨{ lists with world := lists.world.setPhase task .idle }, ?_,
    hfitted.setPhase False.elim, ⟨store, hrep.setPhase (by simp) (by simp [Phase.Waits]), ?_⟩,
    hsound⟩
  · refine hgood.of_task task ⟨place, hidle⟩ (fun other hother => ?_) (by simp) hleaked
    simp [hother]
  · simp only [setWorld, hlives]
    rfl

theorem Held.step (hheld : Held inBounds perils lists) {deed : Deed τ φ κ α ω}
    (hcareful : perils.Careful inBounds (task, deed))
    (hstep : perils.step inBounds task deed = some (perils', resp, events)) :
    ∃ lists', Held inBounds perils' lists' := by
  cases deed with
  | unwind => exact hheld.unwind hstep
  | use use =>
      simp only [Perils.step] at hstep
      split at hstep
      case h_1 panicked hpanic =>
        cases hstep
        rw [(hheld.panic hpanic).1]
        exact ⟨lists, hheld⟩
      case h_2 =>
        rw [Option.map_eq_some_iff] at hstep
        obtain ⟨⟨lives, resp, events⟩, hlives, heq⟩ := hstep
        cases heq
        exact hheld.use hcareful hlives

variable {queue : κ} {atom : φ → α} {futex : φ}

theorem held_of_trace {history : List (Report τ φ κ α ω)}
    (htrace : ((machine inBounds queue atom futex).restrict
      fun perils label => perils.Careful inBounds label).Trace history perils) :
    ∃ lists, Held inBounds perils lists := by
  refine htrace.invariant (motive := fun _ perils => ∃ lists, Held inBounds perils lists)
    ⟨_, Lives.Good.initial queue atom futex, ?_,
      ⟨_, World.RepresentedBy.initial queue atom futex, rfl⟩, fun _ => rfl⟩ ?_
  · constructor <;> simp [Lives.machine, World.initial, Phase.Waits, Busy.target]
  · rintro past before ⟨task, deed⟩ after reports - ⟨lists, hheld⟩ hnext
    rw [Machine.restrict_next] at hnext
    obtain ⟨hcareful, hnext⟩ := hnext
    simp only [machine, Option.map_eq_some_iff] at hnext
    obtain ⟨⟨perils', resp, events⟩, hstep, heq⟩ := hnext
    cases heq
    exact hheld.step hcareful hstep

end Perils

/-! ## Dropped waiters -/

/-- The waiters that the code finds in the inbox of a futex, in its queues (in
both directions), in a handle list or in a hand. -/
inductive Lives.Reaches {τ φ κ α ω : Type} (lives : Lives (HeapStore τ φ κ) τ φ α ω)
    (waiter : τ) : Prop
  | inbox (futex : φ) (hvisits : Visits (fun node => (lives.world.store.heap node).prev)
      (lives.world.store.inbox futex) waiter)
  | queue (futex : φ) (queue : κ)
      (hvisits : Visits (fun node => (lives.world.store.heap node).next)
        (lives.world.store.queues futex queue).head waiter)
  | queueBack (futex : φ) (queue : κ)
      (hvisits : Visits (fun node => (lives.world.store.heap node).prev)
        (lives.world.store.queues futex queue).tail waiter)
  | list (task : τ) (hvisits : Visits (fun node => (lives.world.store.heap node).next)
      (lives.world.store.list task).head waiter)
  | hand (task : τ) (hhandle : lives.world.handle task = some waiter)

namespace Perils

variable {τ φ κ α ω : Type} {inBounds : φ → κ → Bool}
  {perils : Perils τ φ κ α ω} {lists : Lives (ListStore τ φ κ) τ φ α ω}
  {queue : κ} {atom : φ → α} {futex : φ}

theorem Held.placed (hheld : Held inBounds perils lists) {place : τ → Place τ φ κ}
    (hinv : World.Inv lists.world place) {waiter : τ} (hreaches : perils.lives.Reaches waiter) :
    place waiter ≠ .nowhere := by
  obtain ⟨-, -, ⟨store, hrep, hlives⟩, -⟩ := hheld
  obtain ⟨before, hlists, -⟩ := hrep.lists
  rw [hlives] at hreaches
  cases hreaches with
  | inbox futex hvisits =>
      have hold := hlists.inbox futex
      have hmem := Visits.mem_of_stack hold.stack (hold.top_eq ▸ hvisits)
      simp [(hinv.places.inbox futex waiter).mp hmem]
  | queue futex queue hvisits =>
      have hold := hlists.queues futex queue
      have hmem := Visits.mem_of_segment hold.segment (hold.first_eq ▸ hvisits)
      simp [(hinv.places.queues futex queue waiter).mp hmem]
  | queueBack futex queue hvisits =>
      have hold := hlists.queues futex queue
      have hmem := Visits.mem_of_segment_back hold.segment (hold.last_eq ▸ hvisits)
      simp [(hinv.places.queues futex queue waiter).mp hmem]
  | list task hvisits =>
      have hold := hlists.list task
      have hmem := Visits.mem_of_segment hold.segment (hold.head_eq ▸ hvisits)
      simp [(hinv.places.list task waiter).mp hmem]
  | hand task hhandle => simp [(hinv.places.hand task waiter).mp hhandle]

variable [DecidableEq τ] [DecidableEq φ] [DecidableEq κ] [DecidableEq α] [DecidableEq ω] [Fintype τ]

/-- No pointer leads to a dropped waiter in a careful run. -/
theorem alive_of_trace {history : List (Report τ φ κ α ω)}
    (htrace : ((machine inBounds queue atom futex).restrict
      fun perils label => perils.Careful inBounds label).Trace history perils)
    {waiter : τ} (hreaches : perils.lives.Reaches waiter) :
    perils.lives.alive waiter = true := by
  obtain ⟨lists, hheld⟩ := held_of_trace htrace
  obtain ⟨place, hinv⟩ := hheld.good.placed
  have hwaits := (hinv.task waiter).waits (hheld.placed hinv hreaches)
  have halive := hheld.good.alive waiter fun hidle => by simp [hidle, Phase.Waits] at hwaits
  obtain ⟨store, -, hlives⟩ := hheld.lives
  rw [hlives]
  exact halive

/-- A first wait on the futex, which holds these waiters in its inbox. -/
def firstWait (task : Fin 2) (queue : ℕ) (inbox : Option (Fin 2)) :
    List (Fin 2 × Deed (Fin 2) Unit ℕ Unit Bool) :=
  [(task, .use (.act (.call (.waiter () queue) false false))),
    (task, .use (.act (.call (.cmpxchgWaitWeak () ⟨(), inbox⟩ ()) false false))),
    (task, .use (.act (.call .pending false false)))]

/-- Drop the pending future, up to these steps. -/
def dropSteps (task : Fin 2) (count : ℕ) : List (Fin 2 × Deed (Fin 2) Unit ℕ Unit Bool) :=
  (task, .use (.act .drop)) :: List.replicate count (task, .use (.act (.step false)))

/-- The future of waiter 0 is forgotten, waiter 1 is cancelled asleep by a
callback that unwinds, and is dropped. -/
theorem alive_of_unwind :
    ∃ perils : Perils (Fin 2) Unit ℕ Unit Bool, perils.lives.Reaches 0 ∧
      perils.lives.alive 1 = false ∧ perils.lives.alive 0 = true := by
  let inBounds : Unit → ℕ → Bool := fun _ queue => queue = 0
  let careful : Machine (Perils (Fin 2) Unit ℕ Unit Bool) _ _ :=
    (machine inBounds 0 (fun _ => ()) ()).restrict
      fun perils label => perils.Careful inBounds label
  let labels := firstWait 0 0 none ++ [(0, .use .forget)] ++ firstWait 1 0 (some 0) ++
    dropSteps 1 6 ++ [(1, .unwind), (1, .use .dropWaiter)]
  have hrun : (careful.run labels).map (fun result =>
      decide ((result.1.lives.world.store.queues () 0).head = some 0 ∧
        result.1.lives.alive 1 = false)) = some true := by
    decide +kernel
  obtain ⟨⟨perils, history⟩, hresult, hgood⟩ := Option.map_eq_some_iff.mp hrun
  obtain ⟨hhead, hdropped⟩ := of_decide_eq_true hgood
  have hreaches : perils.lives.Reaches 0 := by
    refine .queue () 0 ?_
    rw [hhead]
    exact .here 0
  exact ⟨perils, hreaches, hdropped, alive_of_trace ⟨labels, hresult⟩ hreaches⟩

/-- The inbox leads to a waiter that was dropped after its pending future was
forgotten.  A queue leads to a dropped waiter along a next link that its former
neighbour kept from an earlier wait.  And a queue keeps a waiter whose drop
panicked at the index of another waiter. -/
theorem dangling_of_forget :
    (∃ perils : Perils (Fin 2) Unit ℕ Unit Bool,
      (machine (fun _ queue => queue = 0) 0 (fun _ => ()) ()).Reachable perils ∧
        perils.lives.Reaches 0 ∧ perils.lives.alive 0 = false) ∧
    (∃ perils : Perils (Fin 2) Unit ℕ Unit Bool,
      (machine (fun _ queue => queue = 0) 0 (fun _ => ()) ()).Reachable perils ∧
        perils.lives.Reaches 1 ∧ perils.lives.alive 1 = false) ∧
    ∃ perils : Perils (Fin 2) Unit ℕ Unit Bool,
      (machine (fun _ queue => queue = 0) 0 (fun _ => ()) ()).Reachable perils ∧
        perils.lives.Reaches 0 ∧ perils.lives.alive 0 = false := by
  let perils : Machine (Perils (Fin 2) Unit ℕ Unit Bool) _ _ :=
    machine (fun _ queue => queue = 0) 0 (fun _ => ()) ()
  refine ⟨?_, ?_, ?_⟩
  · let labels := firstWait 0 0 none ++ [(0, .use .forget), (0, .use .dropWaiter)]
    have hrun : (perils.run labels).map (fun result =>
        decide (result.1.lives.world.store.inbox () = some 0 ∧
          result.1.lives.alive 0 = false)) = some true := by
      decide +kernel
    obtain ⟨⟨last, history⟩, hresult, hgood⟩ := Option.map_eq_some_iff.mp hrun
    obtain ⟨hinbox, hdropped⟩ := of_decide_eq_true hgood
    refine ⟨last, ⟨history, labels, hresult⟩, .inbox () ?_, hdropped⟩
    rw [hinbox]
    exact .here 0
  · -- waiter 0 keeps its link to waiter 1
    let labels := firstWait 0 0 none ++ firstWait 1 0 (some 0) ++ dropSteps 0 7 ++
      dropSteps 1 6 ++ [(1, .use .dropWaiter), (0, .use (.again ⟨(), none⟩)),
        (0, .use (.act (.call (.cmpxchgWaitWeak () ⟨(), none⟩ ()) false false))),
        (0, .use (.act (.call .pending false false)))] ++ dropSteps 0 4
    have hrun : (perils.run labels).map (fun result =>
        decide ((result.1.lives.world.store.queues () 0).head = some 0 ∧
          (result.1.lives.world.store.heap 0).next = some 1 ∧
          result.1.lives.alive 1 = false)) = some true := by
      decide +kernel
    obtain ⟨⟨last, history⟩, hresult, hgood⟩ := Option.map_eq_some_iff.mp hrun
    obtain ⟨hhead, hnext, hdropped⟩ := of_decide_eq_true hgood
    refine ⟨last, ⟨history, labels, hresult⟩, .queue () 0 ?_, hdropped⟩
    rw [hhead]
    refine .there ?_
    rw [hnext]
    exact .here 1
  · -- the futex has only the queue 0
    let labels := firstWait 0 0 none ++ firstWait 1 1 (some 0) ++ dropSteps 0 4 ++
      [(0, .use .dropWaiter)]
    have hrun : (perils.run labels).map (fun result =>
        decide ((result.1.lives.world.store.queues () 0).head = some 0 ∧
          result.1.lives.alive 0 = false)) = some true := by
      decide +kernel
    obtain ⟨⟨last, history⟩, hresult, hgood⟩ := Option.map_eq_some_iff.mp hrun
    obtain ⟨hhead, hdropped⟩ := of_decide_eq_true hgood
    refine ⟨last, ⟨history, labels, hresult⟩, .queue () 0 ?_, hdropped⟩
    rw [hhead]
    exact .here 0

end Perils

end AsyncMutex
