import AsyncMutex.Futex2Ownership

/-!
# The mutex over the ring: `futex2/mutex.rs`

The atom of the mutex is 0 when it is free, 1 when it is locked and 2 when it
is locked and somebody may wait in the queue.  A task that finds 2 waits in the
queue as long as its condition, another load of the atom, finds 2 again.

Every step of a task is a step on the atom or a step of the task in the queue.
-/

namespace AsyncMutex

namespace Futex2

/-- Where a task stands in `lock` and `unlock`. -/
inductive Pc where
  | idle
  /-- The first exchange of `lock`. -/
  | tryLock
  /-- The head of the loop of `lock`. -/
  | loop (state : ℕ)
  /-- In the future of `wait_if`. -/
  | wait
  /-- The task has a `MutexGuard`. -/
  | guard
  /-- The head of the loop of `unlock`. -/
  | unlock (atom : ℕ)
  /-- In `notify`. -/
  | notify
deriving DecidableEq

/-- The task has the lock. -/
def Pc.owns : Pc → Bool
  | .guard => true
  | .unlock _ => true
  | _ => false

/-- The task is in the queue. -/
def Pc.queues : Pc → Bool
  | .wait => true
  | .notify => true
  | _ => false

/-- The points of a call of `notify`. -/
def Point.notifying {ω : Type} : Point ω → Bool
  | .notifyLoad _ _ => true
  | .notifyCas _ _ _ => true
  | .bucketLoad _ _ _ => true
  | .bucketCas _ _ _ _ => true
  | .notifyWake _ _ _ _ => true
  | .expandLock _ => true
  | .expandSwap _ _ => true
  | .expandWake _ _ _ => true
  | .expandPush _ => true
  | .panicked => true
  | _ => false

structure Mutex (τ ω : Type) where
  atom : ℕ
  queue : Queue τ ω
  pc : τ → Pc
  /-- The waker of the last poll of the task's `lock` future. -/
  waker : τ → Option ω

namespace Mutex

variable {τ ω : Type}

inductive Act (ω : Type) where
  /-- The first poll of a new `lock` future. -/
  | lock (waker : ω)
  /-- Another poll of the pending future. -/
  | poll (waker : ω)
  | dropGuard
  | step (spurious : Bool)
deriving DecidableEq

/-- `Mutex::new`. -/
def new : Mutex τ ω where
  atom := 0
  queue := .withCapacity 1
  pc _ := .idle
  waker _ := none

variable [DecidableEq τ] [DecidableEq ω]

@[simps -fullyApplied] def setAtom (mutex : Mutex τ ω) (atom : ℕ) : Mutex τ ω :=
  { mutex with atom := atom }

@[simps -fullyApplied] def setQueue (mutex : Mutex τ ω) (queue : Queue τ ω) : Mutex τ ω :=
  { mutex with queue := queue }

@[simps -fullyApplied] def setPc (mutex : Mutex τ ω) (task : τ) (pc : Pc) : Mutex τ ω :=
  { mutex with pc := Function.update mutex.pc task pc }

@[simps -fullyApplied] def setWaker (mutex : Mutex τ ω) (task : τ) (waker : ω) : Mutex τ ω :=
  { mutex with waker := Function.update mutex.waker task (some waker) }

/-- One turn of the loop of `lock`. -/
def loopStep (checked : Bool) (mutex : Mutex τ ω) (task : τ) (state : ℕ) (spurious : Bool) :
    Option (Mutex τ ω) :=
  if state = 0 then
    if mutex.atom = 0 ∧ spurious = false then some ((mutex.setAtom 2).setPc task .guard)
    else some (mutex.setPc task (.loop mutex.atom))
  else if state = 1 then
    if mutex.atom = 1 ∧ spurious = false then some ((mutex.setAtom 2).setPc task (.loop 2))
    else some (mutex.setPc task (.loop mutex.atom))
  else if state = 2 then
    (mutex.waker task).bind fun waker =>
      (mutex.queue.step checked task (.enter waker)).map fun queue =>
        (mutex.setQueue queue).setPc task .wait
  -- no branch of the loop is taken, and `state` stays as it is
  else some (mutex.setPc task (.loop state))

/-- Where `lock` goes on when its future of `wait_if` has made a step. -/
def afterWait (queue : Queue τ ω) (task : τ) : Pc :=
  if queue.point task = .rest ∧ queue.slot task = none then .loop 0 else .wait

/-- Where `unlock` goes on when `notify` has made a step. -/
def afterNotify (queue : Queue τ ω) (task : τ) : Pc :=
  if queue.point task = .rest then .idle else .notify

def step (checked : Bool) (mutex : Mutex τ ω) (task : τ) (act : Act ω) : Option (Mutex τ ω) :=
  match act, mutex.pc task with
  | .lock waker, .idle => some ((mutex.setWaker task waker).setPc task .tryLock)
  | .poll waker, .wait =>
      (mutex.queue.step checked task (.poll waker)).map fun queue =>
        (mutex.setWaker task waker).setQueue queue
  | .dropGuard, .guard => some (mutex.setPc task (.unlock 1))
  | .step _, .tryLock =>
      if mutex.atom = 0 then some ((mutex.setAtom 1).setPc task .guard)
      else some (mutex.setPc task (.loop mutex.atom))
  | .step spurious, .loop state => mutex.loopStep checked task state spurious
  | .step spurious, .wait =>
      -- the condition loads the atom
      (mutex.queue.step checked task (.step spurious (mutex.atom = 2))).map fun queue =>
        (mutex.setQueue queue).setPc task (afterWait queue task)
  | .step spurious, .unlock atom =>
      if mutex.atom = atom ∧ spurious = false then
        if atom = 2 then
          (mutex.queue.step checked task (.notify 1)).map fun queue =>
            ((mutex.setAtom 0).setQueue queue).setPc task .notify
        else some ((mutex.setAtom 0).setPc task .idle)
      else some (mutex.setPc task (.unlock mutex.atom))
  | .step spurious, .notify =>
      (mutex.queue.step checked task (.step spurious false)).map fun queue =>
        (mutex.setQueue queue).setPc task (afterNotify queue task)
  | _, _ => none

/-- All runs of a mutex whose tasks lock and unlock it as they like, and poll
their futures until these are ready. -/
def machine (checked : Bool) : Machine (Mutex τ ω) (τ × Act ω) (τ × Act ω) where
  init := new
  next mutex label :=
    (mutex.step checked label.1 label.2).map fun mutex => (mutex, [label])

/-! ## What a step can do -/

/-- A task moves on and leaves the queue as it is. -/
inductive Moves (mutex : Mutex τ ω) (task : τ) : Pc → Mutex τ ω → Prop
  | calls (waker : ω) :
      Moves mutex task .idle ((mutex.setWaker task waker).setPc task .tryLock)
  | locks (hatom : mutex.atom = 0) :
      Moves mutex task .tryLock ((mutex.setAtom 1).setPc task .guard)
  | misses (hatom : mutex.atom ≠ 0) :
      Moves mutex task .tryLock (mutex.setPc task (.loop mutex.atom))
  | acquires (hatom : mutex.atom = 0) :
      Moves mutex task (.loop 0) ((mutex.setAtom 2).setPc task .guard)
  | marks (hatom : mutex.atom = 1) :
      Moves mutex task (.loop 1) ((mutex.setAtom 2).setPc task (.loop 2))
  | again (state : ℕ) :
      Moves mutex task (.loop state) (mutex.setPc task (.loop mutex.atom))
  | spins {state : ℕ} (hstate : 2 < state) :
      Moves mutex task (.loop state) (mutex.setPc task (.loop state))
  | drops : Moves mutex task .guard (mutex.setPc task (.unlock 1))
  | retries (atom : ℕ) :
      Moves mutex task (.unlock atom) (mutex.setPc task (.unlock mutex.atom))
  | frees (hatom : mutex.atom ≠ 2) :
      Moves mutex task (.unlock mutex.atom) ((mutex.setAtom 0).setPc task .idle)

/-- The steps of a task, from its place in the code. -/
inductive Step (checked : Bool) (mutex : Mutex τ ω) (task : τ) : Pc → Mutex τ ω → Prop
  | moves {pc : Pc} {mutex' : Mutex τ ω} (hmoves : mutex.Moves task pc mutex') :
      Step checked mutex task pc mutex'
  | enters {waker : ω} {queue : Queue τ ω}
      (hqueue : mutex.queue.step checked task (.enter waker) = some queue) :
      Step checked mutex task (.loop 2) ((mutex.setQueue queue).setPc task .wait)
  | polls {waker : ω} {queue : Queue τ ω}
      (hqueue : mutex.queue.step checked task (.poll waker) = some queue) :
      Step checked mutex task .wait ((mutex.setWaker task waker).setQueue queue)
  | waits {spurious : Bool} {queue : Queue τ ω}
      (hqueue : mutex.queue.step checked task (.step spurious (mutex.atom = 2)) = some queue) :
      Step checked mutex task .wait ((mutex.setQueue queue).setPc task (afterWait queue task))
  | hands {queue : Queue τ ω} (hatom : mutex.atom = 2)
      (hqueue : mutex.queue.step checked task (.notify 1) = some queue) :
      Step checked mutex task (.unlock 2)
        (((mutex.setAtom 0).setQueue queue).setPc task .notify)
  | notifies {spurious : Bool} {queue : Queue τ ω}
      (hqueue : mutex.queue.step checked task (.step spurious false) = some queue) :
      Step checked mutex task .notify
        ((mutex.setQueue queue).setPc task (afterNotify queue task))

section Cases

variable {checked : Bool} {mutex mutex' : Mutex τ ω} {task : τ}

theorem loopStep_cases {state : ℕ} {spurious : Bool}
    (hstep : mutex.loopStep checked task state spurious = some mutex') :
    Step checked mutex task (.loop state) mutex' := by
  unfold loopStep at hstep
  split at hstep
  case isTrue hstate =>
    subst hstate
    split at hstep <;> cases hstep
    case isTrue hfree => exact .moves (.acquires hfree.1)
    case isFalse => exact .moves (.again 0)
  case isFalse hzero =>
    split at hstep
    case isTrue hstate =>
      subst hstate
      split at hstep <;> cases hstep
      case isTrue hlocked => exact .moves (.marks hlocked.1)
      case isFalse => exact .moves (.again 1)
    case isFalse hone =>
      split at hstep
      case isTrue hstate =>
        subst hstate
        obtain ⟨waker, -, hstep⟩ := Option.bind_eq_some_iff.mp hstep
        obtain ⟨queue, hqueue, rfl⟩ := Option.map_eq_some_iff.mp hstep
        exact .enters hqueue
      case isFalse htwo =>
        cases hstep
        exact .moves (.spins (by omega))

theorem step_cases {act : Act ω} (hstep : mutex.step checked task act = some mutex') :
    Step checked mutex task (mutex.pc task) mutex' := by
  unfold step at hstep
  split at hstep
  case h_1 waker hpc =>
    cases hstep
    rw [hpc]
    exact .moves (.calls waker)
  case h_2 waker hpc =>
    obtain ⟨queue, hqueue, rfl⟩ := Option.map_eq_some_iff.mp hstep
    rw [hpc]
    exact .polls hqueue
  case h_3 hpc =>
    cases hstep
    rw [hpc]
    exact .moves .drops
  case h_4 hpc =>
    rw [hpc]
    split at hstep <;> cases hstep
    case isTrue hfree => exact .moves (.locks hfree)
    case isFalse hlocked => exact .moves (.misses hlocked)
  case h_5 state hpc =>
    rw [hpc]
    exact loopStep_cases hstep
  case h_6 spurious hpc =>
    obtain ⟨queue, hqueue, rfl⟩ := Option.map_eq_some_iff.mp hstep
    rw [hpc]
    exact .waits hqueue
  case h_7 spurious atom hpc =>
    rw [hpc]
    split at hstep
    case isTrue hmatched =>
      obtain ⟨rfl, -⟩ := hmatched
      split at hstep
      case isTrue htwo =>
        obtain ⟨queue, hqueue, rfl⟩ := Option.map_eq_some_iff.mp hstep
        rw [htwo]
        exact .hands htwo hqueue
      case isFalse hone =>
        cases hstep
        exact .moves (.frees hone)
    case isFalse =>
      cases hstep
      exact .moves (.retries atom)
  case h_8 spurious hpc =>
    obtain ⟨queue, hqueue, rfl⟩ := Option.map_eq_some_iff.mp hstep
    rw [hpc]
    exact .notifies hqueue
  case h_9 => cases hstep

omit [DecidableEq ω] in
theorem Moves.queue {pc : Pc} (hmoves : mutex.Moves task pc mutex') :
    mutex'.queue = mutex.queue := by
  cases hmoves <;> rfl

theorem Step.others {pc : Pc} (hstep : Step checked mutex task pc mutex') {other : τ}
    (hother : other ≠ task) : mutex'.pc other = mutex.pc other := by
  cases hstep with
  | moves hmoves => cases hmoves <;> simp [hother]
  | _ => simp [hother]

/-- A step of the mutex is at most one step of its queue. -/
theorem Step.queue {pc : Pc} (hstep : Step checked mutex task pc mutex') :
    mutex'.queue = mutex.queue ∨
      ∃ act, mutex.queue.step checked task act = some mutex'.queue := by
  cases hstep with
  | moves hmoves => exact Or.inl hmoves.queue
  | enters hqueue => exact Or.inr ⟨_, hqueue⟩
  | polls hqueue => exact Or.inr ⟨_, hqueue⟩
  | waits hqueue => exact Or.inr ⟨_, hqueue⟩
  | hands hatom hqueue => exact Or.inr ⟨_, hqueue⟩
  | notifies hqueue => exact Or.inr ⟨_, hqueue⟩

theorem step_of_next {label : τ × Act ω} {events : List (τ × Act ω)}
    (hnext : (machine checked).next mutex label = some (mutex', events)) :
    Step checked mutex label.1 (mutex.pc label.1) mutex' := by
  simp only [machine, Option.map_eq_some_iff, Prod.mk.injEq] at hnext
  obtain ⟨next, hstep, rfl, -⟩ := hnext
  exact step_cases hstep

/-- The queue of a mutex runs as every queue does. -/
theorem queue_of_reachable (hreach : (machine checked).Reachable mutex) :
    (Queue.machine checked 1).Reachable mutex.queue := by
  refine hreach.invariant
    (motive := fun mutex => (Queue.machine checked 1).Reachable mutex.queue)
    (Machine.reachable_init _) ?_
  intro before label after events _ hbefore hnext
  rcases (step_of_next hnext).queue with hsame | ⟨act, hqueue⟩
  · rw [hsame]
    exact hbefore
  · have hstep : (Queue.machine checked 1).next before.queue (label.1, act) =
        some (after.queue, [(label.1, act)]) := by
      simp [Queue.machine, hqueue]
    exact hbefore.step hstep

end Cases

end Mutex

/-! ## Exclusion -/

namespace Queue

variable {τ ω : Type} [DecidableEq τ] [DecidableEq ω] {checked : Bool}
  {queue queue' : Queue τ ω} {task : τ}

theorem Step.slot_of_ne {before : Point ω} (hstep : Step checked queue task before queue')
    {other : τ} (hother : other ≠ task) : queue'.slot other = queue.slot other := by
  cases hstep <;> simp [hother]

omit [DecidableEq ω] in
theorem visit_notifying (generation iteration last : ℕ) :
    (visit generation iteration last : Point ω) = .rest ∨
      (visit generation iteration last : Point ω).notifying = true := by
  unfold visit
  split
  · exact Or.inr rfl
  · exact Or.inl rfl

/-- A call of `notify` goes on until it returns, and waits for nothing. -/
theorem Step.notifying (hstep : Step checked queue task (queue.point task) queue')
    (hnotifying : (queue.point task).notifying = true) :
    (queue'.point task = .rest ∨ (queue'.point task).notifying = true) ∧
      queue'.slot task = queue.slot task := by
  generalize queue.point task = before at hstep hnotifying
  cases hstep with
  | quiet hquiet =>
      refine ⟨?_, rfl⟩
      rw [setPoint_point, Function.update_self]
      cases hquiet <;> first | exact Or.inr rfl | exact Or.inl rfl | cases hnotifying
  | notifies => exact ⟨by simpa using visit_notifying _ _ _, rfl⟩
  | takes => exact ⟨by simp [Point.notifying], rfl⟩
  | marks => exact ⟨by simpa using visit_notifying _ _ _, rfl⟩
  | notifyWakes => exact ⟨by simpa using visit_notifying _ _ _, rfl⟩
  | locks => exact ⟨by simp [Point.notifying], rfl⟩
  | buriesWaiting => exact ⟨by simp [Point.notifying], rfl⟩
  | buries => exact ⟨by simp [Point.notifying], rfl⟩
  | expandWakes => exact ⟨by simp [Point.notifying], rfl⟩
  | fails => exact ⟨by simp [Point.notifying], rfl⟩
  | grows => exact ⟨by simp [Point.notifying], rfl⟩
  | pushes => exact ⟨by simp, rfl⟩
  | _ => cases hnotifying

/-- A task comes to `notify` or `expand` only without a pending future. -/
theorem Step.free (hslots : queue.Slots)
    (hstep : Step checked queue task (queue.point task) queue')
    (hfree : (queue.point task).notifying = true → queue.slot task = none)
    (hcall : queue.point task = .rest → (queue'.point task).notifying = true →
      queue.slot task = none)
    (hafter : (queue'.point task).notifying = true) : queue'.slot task = none := by
  by_cases hnotifying : (queue.point task).notifying = true
  · rw [(hstep.notifying hnotifying).2]
    exact hfree hnotifying
  have hfits := hslots.fits task
  generalize queue.point task = before at hstep hcall hnotifying hfits
  cases hstep with
  | quiet hquiet =>
      rw [setPoint_point, Function.update_self] at hafter hcall
      rw [setPoint_slot]
      cases hquiet with
      | notify amount => exact hcall rfl rfl
      | enterPanics => exact hfits
      | bucketPanics => exact hfits
      | bucketExpands => exact hfits
      | _ => first | exact absurd rfl hnotifying | cases hafter
  | waits => simp [Point.notifying] at hafter
  | registers => simp [Point.notifying] at hafter
  | consumes => simp [Point.notifying] at hafter
  | registersAgain => simp [Point.notifying] at hafter
  | abandons => simp
  | leaves => simp
  | leavesPanicking => simp
  | leavesExpanding => simp
  | _ => exact absurd rfl hnotifying

end Queue

namespace Mutex

variable {τ ω : Type} {checked : Bool}
  {mutex mutex' : Mutex τ ω} {task : τ}

/-- The atom tells whether the mutex is locked. -/
structure Locked (mutex : Mutex τ ω) : Prop where
  unique : ∀ task other, (mutex.pc task).owns = true → (mutex.pc other).owns = true →
    task = other
  free : mutex.atom = 0 ↔ ∀ task, (mutex.pc task).owns = false
  word : mutex.atom ≤ 2
  loop : ∀ task state, mutex.pc task = .loop state → state ≤ 2
  unlock : ∀ task atom, mutex.pc task = .unlock atom → atom = 1 ∨ atom = 2

/-- The tasks use the queue as `lock` and `unlock` do. -/
structure Queued (mutex : Mutex τ ω) : Prop where
  outside : ∀ task, (mutex.pc task).queues = false →
    mutex.queue.point task = .rest ∧ mutex.queue.slot task = none
  notify : ∀ task, mutex.pc task = .notify → (mutex.queue.point task).notifying = true
  /-- A call of `notify` is made where no future is pending. -/
  free : ∀ task, (mutex.queue.point task).notifying = true → mutex.queue.slot task = none
  wait : ∀ task, mutex.pc task = .wait → mutex.queue.point task = .rest →
    mutex.queue.slot task ≠ none

theorem Locked.initial : (new : Mutex τ ω).Locked where
  unique task other howns := by cases howns
  free := ⟨fun _ _ => rfl, fun _ => rfl⟩
  word := Nat.zero_le 2
  loop task state hpc := by cases hpc
  unlock task atom hpc := by cases hpc

theorem Queued.initial : (new : Mutex τ ω).Queued where
  outside task _ := ⟨rfl, rfl⟩
  notify task hpc := by cases hpc
  free task hnotifying := by cases hnotifying
  wait task hpc := by cases hpc

variable [DecidableEq τ] [DecidableEq ω]

namespace Locked

omit [DecidableEq τ] [DecidableEq ω] in
theorem not_owns (hlocked : mutex.Locked) (howns : (mutex.pc task).owns = true) {other : τ}
    (hother : other ≠ task) : (mutex.pc other).owns = false := by
  rw [Bool.eq_false_iff]
  exact fun hboth => hother (hlocked.unique other task hboth howns)

omit [DecidableEq τ] [DecidableEq ω] in
theorem locked (hlocked : mutex.Locked) (howns : (mutex.pc task).owns = true) :
    mutex.atom ≠ 0 := by
  intro hzero
  have hfalse := hlocked.free.mp hzero task
  rw [howns] at hfalse
  cases hfalse

omit [DecidableEq ω] in
/-- A task moves on and neither takes nor frees the lock. -/
theorem keeps (hlocked : mutex.Locked) {pc : Pc}
    (hpc : mutex'.pc = Function.update mutex.pc task pc)
    (hatom : mutex'.atom = 0 ↔ mutex.atom = 0) (hword : mutex'.atom ≤ 2)
    (howns : pc.owns = (mutex.pc task).owns) (hloop : ∀ state, pc = .loop state → state ≤ 2)
    (hunlock : ∀ atom, pc = .unlock atom → atom = 1 ∨ atom = 2) : mutex'.Locked := by
  have hsame (other : τ) : (mutex'.pc other).owns = (mutex.pc other).owns := by
    rw [hpc]
    by_cases hother : other = task
    · subst hother
      rw [Function.update_self, howns]
    · rw [Function.update_of_ne hother]
  constructor
  case unique =>
    intro first second hfirst hsecond
    rw [hsame] at hfirst hsecond
    exact hlocked.unique first second hfirst hsecond
  case free =>
    rw [hatom, hlocked.free]
    exact forall_congr' fun other => by rw [hsame]
  case word => exact hword
  case loop =>
    intro other state hother
    rw [hpc] at hother
    by_cases htask : other = task
    · subst htask
      exact hloop state (by simpa using hother)
    · rw [Function.update_of_ne htask] at hother
      exact hlocked.loop other state hother
  case unlock =>
    intro other atom hother
    rw [hpc] at hother
    by_cases htask : other = task
    · subst htask
      exact hunlock atom (by simpa using hother)
    · rw [Function.update_of_ne htask] at hother
      exact hlocked.unlock other atom hother

omit [DecidableEq ω] in
/-- The task exchanges the atom of the free mutex and gets its guard. -/
theorem acquires (hlocked : mutex.Locked) (hatom : mutex.atom = 0) {atom : ℕ}
    (hnew : atom = 1 ∨ atom = 2) : ((mutex.setAtom atom).setPc task .guard).Locked := by
  have hfree := hlocked.free.mp hatom
  have howner {other : τ}
      (howns : (((mutex.setAtom atom).setPc task .guard).pc other).owns = true) :
      other = task := by
    by_contra hother
    rw [setPc_pc, Function.update_of_ne hother] at howns
    exact absurd ((hfree other).symm.trans howns) Bool.false_ne_true
  constructor
  case unique => exact fun first second hfirst hsecond =>
    (howner hfirst).trans (howner hsecond).symm
  case free =>
    refine ⟨fun hzero => ?_, fun hnone => ?_⟩
    · have hzero : atom = 0 := hzero
      omega
    · have hguard := hnone task
      simp [Pc.owns] at hguard
  case word =>
    change atom ≤ 2
    omega
  case loop =>
    intro other state hother
    by_cases htask : other = task
    · subst htask
      simp at hother
    · rw [setPc_pc, Function.update_of_ne htask] at hother
      exact hlocked.loop other state hother
  case unlock =>
    intro other state hother
    by_cases htask : other = task
    · subst htask
      simp at hother
    · rw [setPc_pc, Function.update_of_ne htask] at hother
      exact hlocked.unlock other state hother

omit [DecidableEq ω] in
/-- The owner exchanges the atom for 0. -/
theorem releases (hlocked : mutex.Locked) (howns : (mutex.pc task).owns = true) {pc : Pc}
    (hafter : pc = .idle ∨ pc = .notify) (hpc : mutex'.pc = Function.update mutex.pc task pc)
    (hatom : mutex'.atom = 0) : mutex'.Locked := by
  have hnone (other : τ) : (mutex'.pc other).owns = false := by
    rw [hpc]
    by_cases hother : other = task
    · subst hother
      rw [Function.update_self]
      rcases hafter with rfl | rfl <;> rfl
    · rw [Function.update_of_ne hother]
      exact hlocked.not_owns howns hother
  constructor
  case unique =>
    intro first second hfirst
    exact absurd ((hnone first).symm.trans hfirst) Bool.false_ne_true
  case free => exact ⟨fun _ => hnone, fun _ => hatom⟩
  case word => exact Nat.le_trans (Nat.le_of_eq hatom) (Nat.zero_le 2)
  case loop =>
    intro other state hother
    rw [hpc] at hother
    by_cases htask : other = task
    · subst htask
      rcases hafter with rfl | rfl <;> simp at hother
    · rw [Function.update_of_ne htask] at hother
      exact hlocked.loop other state hother
  case unlock =>
    intro other atom hother
    have hfalse := hnone other
    rw [hother] at hfalse
    cases hfalse

theorem step (hlocked : mutex.Locked) (hstep : Step checked mutex task (mutex.pc task) mutex') :
    mutex'.Locked := by
  have hword := hlocked.word
  generalize hbefore : mutex.pc task = before at hstep
  have howns : (mutex.pc task).owns = before.owns := by rw [hbefore]
  cases hstep with
  | moves hmoves =>
      cases hmoves with
      | calls waker => exact hlocked.keeps rfl Iff.rfl hword howns.symm (by simp) (by simp)
      | locks hatom => exact hlocked.acquires hatom (Or.inl rfl)
      | misses hatom =>
          refine hlocked.keeps rfl Iff.rfl hword howns.symm (fun state hstate => ?_) (by simp)
          cases hstate
          exact hword
      | acquires hatom => exact hlocked.acquires hatom (Or.inr rfl)
      | marks hatom =>
          refine hlocked.keeps rfl (by simp [hatom]) (Nat.le_refl 2) howns.symm
            (fun state hstate => ?_) (by simp)
          cases hstate
          exact Nat.le_refl 2
      | again state =>
          refine hlocked.keeps rfl Iff.rfl hword howns.symm (fun state hstate => ?_) (by simp)
          cases hstate
          exact hword
      | spins hstate => exact absurd (hlocked.loop task _ hbefore) (by omega)
      | drops => exact hlocked.keeps rfl Iff.rfl hword howns.symm (by simp) (by simp)
      | retries atom =>
          have hlock := hlocked.locked howns
          refine hlocked.keeps rfl Iff.rfl hword howns.symm (by simp) fun atom hatom => ?_
          cases hatom
          omega
      | frees hatom => exact hlocked.releases howns (Or.inl rfl) rfl rfl
  | enters hqueue => exact hlocked.keeps rfl Iff.rfl hword howns.symm (by simp) (by simp)
  | @polls waker queue hqueue =>
      have hpc : (mutex.setWaker task waker).pc = Function.update mutex.pc task .wait := by
        rw [← hbefore, Function.update_eq_self]
        rfl
      exact hlocked.keeps hpc Iff.rfl hword howns.symm (by simp) (by simp)
  | @waits spurious queue hqueue =>
      refine hlocked.keeps rfl Iff.rfl hword ?_ (fun state hstate => ?_) fun atom hatom => ?_
      · rw [howns, afterWait]
        split <;> rfl
      · rw [afterWait] at hstate
        split at hstate <;> cases hstate
        exact Nat.zero_le 2
      · rw [afterWait] at hatom
        split at hatom <;> cases hatom
  | hands hatom hqueue => exact hlocked.releases howns (Or.inr rfl) rfl rfl
  | @notifies spurious queue hqueue =>
      refine hlocked.keeps rfl Iff.rfl hword ?_ (fun state hstate => ?_) fun atom hatom => ?_
      · rw [howns, afterNotify]
        split <;> rfl
      · rw [afterNotify] at hstate
        split at hstate <;> cases hstate
      · rw [afterNotify] at hatom
        split at hatom <;> cases hatom

end Locked

namespace Queued

omit [DecidableEq ω] in
/-- A task moves on outside the queue. -/
theorem moves (hqueued : mutex.Queued) (hqueues : (mutex.pc task).queues = false) {pc : Pc}
    (hafter : pc.queues = false) (hpc : mutex'.pc = Function.update mutex.pc task pc)
    (hqueue : mutex'.queue = mutex.queue) : mutex'.Queued := by
  have hpoint (other : τ) (hother : (mutex'.pc other).queues = true) :
      mutex'.pc other = mutex.pc other := by
    rw [hpc] at hother ⊢
    by_cases htask : other = task
    · subst htask
      rw [Function.update_self, hafter] at hother
      cases hother
    · exact Function.update_of_ne htask _ _
  constructor
  case outside =>
    intro other hother
    rw [hqueue]
    by_cases htask : other = task
    · exact htask ▸ hqueued.outside task hqueues
    · rw [hpc, Function.update_of_ne htask] at hother
      exact hqueued.outside other hother
  case notify =>
    intro other hother
    rw [hqueue]
    exact hqueued.notify other ((hpoint other (by rw [hother]; rfl)).symm.trans hother)
  case free =>
    rw [hqueue]
    exact hqueued.free
  case wait =>
    intro other hother
    rw [hqueue]
    exact hqueued.wait other ((hpoint other (by rw [hother]; rfl)).symm.trans hother)

/-- A task makes a step in the queue. -/
theorem runs (hqueued : mutex.Queued) (hslots : mutex.queue.Slots)
    (hstep : Queue.Step checked mutex.queue task (mutex.queue.point task) mutex'.queue)
    (hothers : ∀ other, other ≠ task → mutex'.pc other = mutex.pc other)
    (houtside : (mutex'.pc task).queues = false →
      mutex'.queue.point task = .rest ∧ mutex'.queue.slot task = none)
    (hnotify : mutex'.pc task = .notify → (mutex'.queue.point task).notifying = true)
    (hcall : mutex.queue.point task = .rest →
      (mutex'.queue.point task).notifying = true → mutex.queue.slot task = none)
    (hwait : mutex'.pc task = .wait → mutex'.queue.point task = .rest →
      mutex'.queue.slot task ≠ none) : mutex'.Queued := by
  constructor
  case outside =>
    intro other hother
    by_cases htask : other = task
    · subst htask
      exact houtside hother
    · rw [hothers other htask] at hother
      rw [hstep.others htask, hstep.slot_of_ne htask]
      exact hqueued.outside other hother
  case notify =>
    intro other hother
    by_cases htask : other = task
    · subst htask
      exact hnotify hother
    · rw [hothers other htask] at hother
      rw [hstep.others htask]
      exact hqueued.notify other hother
  case free =>
    intro other hother
    by_cases htask : other = task
    · subst htask
      exact hstep.free hslots (hqueued.free other) hcall hother
    · rw [hstep.others htask] at hother
      rw [hstep.slot_of_ne htask]
      exact hqueued.free other hother
  case wait =>
    intro other hother hrest
    by_cases htask : other = task
    · subst htask
      exact hwait hother hrest
    · rw [hothers other htask] at hother
      rw [hstep.others htask] at hrest
      rw [hstep.slot_of_ne htask]
      exact hqueued.wait other hother hrest

theorem step (hqueued : mutex.Queued) (hslots : mutex.queue.Slots)
    (hstep : Step checked mutex task (mutex.pc task) mutex') : mutex'.Queued := by
  have hothers (other : τ) (hother : other ≠ task) : mutex'.pc other = mutex.pc other :=
    hstep.others hother
  generalize hbefore : mutex.pc task = before at hstep
  cases hstep with
  | moves hmoves =>
      have hqueues : (mutex.pc task).queues = before.queues := by rw [hbefore]
      cases hmoves with
      | calls waker => exact hqueued.moves hqueues rfl rfl rfl
      | locks hatom => exact hqueued.moves hqueues rfl rfl rfl
      | misses hatom => exact hqueued.moves hqueues rfl rfl rfl
      | acquires hatom => exact hqueued.moves hqueues rfl rfl rfl
      | marks hatom => exact hqueued.moves hqueues rfl rfl rfl
      | again state => exact hqueued.moves hqueues rfl rfl rfl
      | spins hstate => exact hqueued.moves hqueues rfl rfl rfl
      | drops => exact hqueued.moves hqueues rfl rfl rfl
      | retries atom => exact hqueued.moves hqueues rfl rfl rfl
      | frees hatom => exact hqueued.moves hqueues rfl rfl rfl
  | enters hqueue =>
      obtain ⟨-, rfl⟩ := Queue.step_enter hqueue
      refine hqueued.runs hslots (Queue.step_cases hqueue) hothers ?_ ?_ ?_ ?_
      · simp [Pc.queues]
      · simp
      · simp [Point.notifying]
      · simp
  | polls hqueue =>
      obtain ⟨-, generation, iteration, rfl⟩ := Queue.step_poll hqueue
      refine hqueued.runs hslots (Queue.step_cases hqueue) hothers ?_ ?_ ?_ ?_
      · simp [hbefore, Pc.queues]
      · simp [hbefore]
      · simp [Point.notifying]
      · simp
  | @waits spurious queue hqueue =>
      have hrest := Queue.step_rest hqueue
      refine hqueued.runs hslots (Queue.step_cases hqueue) hothers ?_ ?_ ?_ ?_ <;>
        simp only [setPc_pc, setPc_queue, setQueue_queue, Function.update_self, afterWait]
      · split
        case isTrue hready => exact fun _ => hready
        case isFalse => simp [Pc.queues]
      · split <;> simp
      · exact fun hsame => absurd hsame hrest
      · split
        case isTrue hready => simp
        case isFalse hready => exact fun _ hrest hslot => hready ⟨hrest, hslot⟩
  | hands hatom hqueue =>
      obtain ⟨-, rfl⟩ := Queue.step_notify hqueue
      have hslot := (hqueued.outside task (by rw [hbefore]; rfl)).2
      refine hqueued.runs hslots (Queue.step_cases hqueue) hothers ?_ ?_ ?_ ?_
      · simp [Pc.queues]
      · simp [Point.notifying]
      · exact fun _ _ => hslot
      · simp
  | @notifies spurious queue hqueue =>
      have hnotifying := hqueued.notify task hbefore
      have hslot := hqueued.free task hnotifying
      have hrest := Queue.step_rest hqueue
      have hcases := Queue.step_cases hqueue
      obtain ⟨hafter, hsame⟩ := hcases.notifying hnotifying
      refine hqueued.runs hslots hcases hothers ?_ ?_ ?_ ?_ <;>
        simp only [setPc_pc, setPc_queue, setQueue_queue, Function.update_self, afterNotify]
      · split
        case isTrue hrest => exact fun _ => ⟨hrest, hsame.trans hslot⟩
        case isFalse => simp [Pc.queues]
      · split
        case isTrue => simp
        case isFalse hrest => exact fun _ => hafter.resolve_left hrest
      · exact fun hsame => absurd hsame hrest
      · split <;> simp

end Queued

/-- The mutex is exclusive, and its futures own their buckets. -/
structure Excludes (checked : Bool) (mutex : Mutex τ ω) : Prop where
  locked : mutex.Locked
  queued : mutex.Queued
  owned : mutex.queue.Owned checked 1

/-- In every run at most one task has the lock, the atom is 0 just when nobody
has it, and neither loop nor the queue meets a state it does not expect. -/
theorem excludes_of_reachable (hreach : (machine checked).Reachable mutex) :
    mutex.Excludes checked := by
  have hrun := hreach.invariant
    (motive := fun mutex => mutex.Locked ∧ mutex.Queued) ⟨.initial, .initial⟩ ?_
  · have hinv := Queue.Inv.of_reachable (by decide) (queue_of_reachable hreach)
    exact ⟨hrun.1, hrun.2, hinv.owned⟩
  · rintro before label after events hbefore ⟨hlocked, hqueued⟩ hnext
    have hinv := Queue.Inv.of_reachable (by decide) (queue_of_reachable hbefore)
    have hstep := step_of_next hnext
    exact ⟨hlocked.step hstep, hqueued.step hinv.slots hstep⟩

/-- One task has the lock and another one waits for it. -/
theorem excludes_of_wait :
    ∃ mutex : Mutex (Fin 2) Unit, mutex.pc 0 = .guard ∧ mutex.pc 1 = .wait ∧
      mutex.queue.slot 1 = some (0, 0) ∧ mutex.Excludes true := by
  have htrace : (machine true : Machine (Mutex (Fin 2) Unit) _ _).Trace _ _ :=
    ⟨[(0, .lock ()), (0, .step false), (1, .lock ())] ++ List.replicate 7 (1, .step false), rfl⟩
  exact ⟨_, rfl, rfl, rfl, excludes_of_reachable htrace.reachable⟩

end Mutex

end Futex2

end AsyncMutex
