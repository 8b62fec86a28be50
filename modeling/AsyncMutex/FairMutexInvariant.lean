import AsyncMutex.FairMutexProgram

/-!
# The invariant of the fair mutex

At any time at most one task owns the lock: through a guard, inside `unlock`
before it pops a waiter or stores 0, or because an `unlock` popped its waiter.
The atom is 1 exactly while there is an owner, and without an owner no waiter
is left in the inbox or in the queue.
-/

namespace AsyncMutex

namespace FairMutex

variable {τ K : Type}

/-- `unlock` has neither popped a waiter nor stored 0. -/
def Unlock.owns : Unlock τ → Bool
  | .release => false
  | .wake => false
  | .done => false
  | _ => true

/-- The code at this point has the lock. -/
def Point.owns : Point τ K → Bool
  | .guard => true
  | .unlock point _ => point.owns
  | .waitWaiter _ => true
  | .waitLoad _ => true
  | .waitLoop _ _ => true
  | .notify _ _ => true
  | _ => false

/-- The condition variable that the task waits on: its compare-exchange
succeeded, and `wait` has not returned. -/
def Point.waitsOn : Point τ K → Option K
  | .unlock _ (.wait which) => some which
  | .waitEntered which => some which
  | .waitWaiting which => some which
  | _ => none

/-- A compare-exchange of `lock` or `wait` succeeded, and it has not
returned. -/
def Point.waits : Point τ K → Bool
  | .lockEntered => true
  | .lockWaiting => true
  | pc => pc.waitsOn.isSome

/-- An `unlock` popped the waiter of the task, whose future has neither
returned nor been dropped. -/
def Handed (handle : τ → Option τ) (awake : τ → Bool) (task : τ)
    (point : Point τ K) : Prop :=
  point.waits = true ∧ ((∃ other, handle other = some task) ∨ awake task = true)

def Owner (handle : τ → Option τ) (awake : τ → Bool) (task : τ)
    (point : Point τ K) : Prop :=
  point.owns = true ∨ Handed handle awake task point

abbrev MutexBoard (τ K : Type) := Board τ (Cell K) (Fin 1) ℕ

def Owns (board : MutexBoard τ K) (task : τ) (point : Point τ K) : Prop :=
  Owner board.handle board.awake task point

/-- What holds at a program point that has the lock. -/
def PointInv (board : MutexBoard τ K) : Point τ K → Prop
  | .unlock .load _ => board.store.queues .mutex 0 = []
  | .unlock (.loop _) _ => board.store.queues .mutex 0 = []
  | .unlock .popEnqueued _ => board.store.queues .mutex 0 ≠ []
  | .unlock (.store current) _ =>
      board.store.queues .mutex 0 = [] ∧ current.inbox = none
  | .unlock (.borrowAgain _) _ => board.store.queues .mutex 0 = []
  | .notify (.popMany _) which => board.store.inbox (.condvar which) = []
  | _ => True

structure Consistent (board : MutexBoard τ K) (task : τ) (point : Point τ K) :
    Prop where
  here : PointInv board point
  /-- A waiter of a condition variable stays there until its own `unlock` is
  over. -/
  entering : ∀ which, point.owns = true → point.waitsOn = some which →
    task ∈ board.store.inbox (.condvar which) ∨
      task ∈ board.store.queues (.condvar which) 0
  /-- A pending `wait` is dropped only after it was woken. -/
  dropping : ∀ which, point = .waitWaiting which →
    board.stage task = .dropping → board.awake task = true
  /-- Only the mutex wakes a `wait`. -/
  moved : ∀ which, point.waitsOn = some which →
    Handed board.handle board.awake task point → board.owner task = .mutex
  locking : point.waits = true → point.waitsOn = none → board.owner task = .mutex

structure Inv (address : ℕ+) (board : MutexBoard τ K) (pc : τ → Point τ K) :
    Prop where
  unique : ∀ task other, Owns board task (pc task) → Owns board other (pc other) →
    task = other
  locked : board.atom .mutex = 1 ∧ (∃ task, Owns board task (pc task)) ∨
    board.atom .mutex = 0 ∧ (∀ task, ¬ Owns board task (pc task)) ∧
      board.store.inbox .mutex = [] ∧ board.store.queues .mutex 0 = []
  tasks : ∀ task, Consistent board task (pc task)
  used : ∀ which, board.atom (.condvar which) = address ∨
    board.atom (.condvar which) = 0 ∧ board.store.inbox (.condvar which) = [] ∧
      board.store.queues (.condvar which) 0 = []

/-- A pending `wait` may be dropped after it was woken; all other futures may
be dropped at any time. -/
def usage : Usage τ (Point τ K) where
  mayDrop
    | .waitWaiting _, awake => awake
    | _, _ => true

theorem owns_and_waits {point : Point τ K} (howns : point.owns = true)
    (hwaits : point.waits = true) : ∃ which, point.waitsOn = some which := by
  cases point <;>
    simp_all [Point.owns, Point.waits, Option.isSome_iff_exists]

theorem pointInv_of_not_owns {board : MutexBoard τ K} {point : Point τ K}
    (howns : point.owns = false) : PointInv board point := by
  cases point with
  | unlock point caller => cases point <;> trivial
  | notify point which => cases howns
  | _ => trivial

theorem waits_of_slot {point : Point τ K} (hslot : (∃ queue, (holds point).slot =
    .entered queue) ∨ ∃ queue, (holds point).slot = .waiting queue) :
    point.waits = true := by
  cases point with
  | unlock point caller =>
      cases caller with
      | wait which => rfl
      | drop => cases point <;> simp [holds, unlockHolds, Caller.slot] at hslot
  | notify point which => cases point <;> simp [holds, notifyHolds] at hslot
  | lockEntered => rfl
  | lockWaiting => rfl
  | waitEntered which => rfl
  | waitWaiting which => rfl
  | _ => simp [holds] at hslot

theorem not_owns_of_waiting {point : Point τ K} {queue : Fin 1}
    (hslot : (holds point).slot = .waiting queue) : point.owns = false := by
  cases point with
  | unlock point caller => cases point <;> cases caller <;> cases hslot
  | notify point which => cases point <;> cases hslot
  | lockWaiting => rfl
  | waitWaiting which => rfl
  | _ => cases hslot

variable {address : ℕ+} {board board' : MutexBoard τ K} {pc : τ → Point τ K}
  {task : τ}

/-- The parts of the board that a task depends on are the same. -/
theorem Consistent.congr {point : Point τ K} (htask : Consistent board task point)
    (hpoint : PointInv board point → PointInv board' point)
    (hlisted : ∀ which, task ∈ board.store.inbox (.condvar which) ∨
      task ∈ board.store.queues (.condvar which) 0 →
        task ∈ board'.store.inbox (.condvar which) ∨
          task ∈ board'.store.queues (.condvar which) 0)
    (hhanded : Handed board'.handle board'.awake task point →
      Handed board.handle board.awake task point)
    (hawake : board.awake task = true → board'.awake task = true)
    (hstage : board'.stage task = .dropping → board.stage task = .dropping)
    (howner : board.owner task = .mutex → board'.owner task = .mutex) :
    Consistent board' task point where
  here := hpoint htask.here
  entering which howns hwhich := hlisted which (htask.entering which howns hwhich)
  dropping which hpoint hdrop := hawake (htask.dropping which hpoint (hstage hdrop))
  moved which hwhich hhand := howner (htask.moved which hwhich (hhanded hhand))
  locking hwaits hnone := howner (htask.locking hwaits hnone)

/-- A task whose code does not own the lock and does not wait. -/
theorem Consistent.of_idle {point : Point τ K} (howns : point.owns = false)
    (hwaits : point.waits = false) : Consistent board task point where
  here := pointInv_of_not_owns howns
  entering which howns' := by simp [howns] at howns'
  dropping which hpoint := by simp [hpoint, Point.waits, Point.waitsOn] at hwaits
  moved which hwhich hhand := by simp [hhand.1] at hwaits
  locking hwaits' := by simp [hwaits] at hwaits'

theorem waitsOn_of_owns {point : Point τ K} (howns : point.owns = true)
    (hwaits : point.waits = true) : point.waitsOn ≠ none := by
  obtain ⟨which, hwhich⟩ := owns_and_waits howns hwaits
  simp [hwhich]

/-- Whoever waits inside `unlock` waits on a condition variable. -/
theorem waitsOn_of_unlock {point : Unlock τ} {caller : Caller K}
    (hwaits : (Point.unlock point caller : Point τ K).waits = true) :
    (Point.unlock point caller : Point τ K).waitsOn ≠ none := by
  cases caller with
  | drop => cases hwaits
  | wait which => simp [Point.waitsOn]

namespace Inv

variable [DecidableEq τ]

/-- A step of `task` that leaves the owner of the lock as it is. -/
theorem keep (hinv : Inv address board pc) {pc' : Point τ K}
    (hself : Owns board' task pc' ↔ Owns board task (pc task))
    (hothers : ∀ other, other ≠ task →
      (Owns board' other (pc other) ↔ Owns board other (pc other)))
    (hatom : board'.atom .mutex = board.atom .mutex)
    (hempty : board.atom .mutex = 0 → board.store.inbox .mutex = [] →
      board.store.queues .mutex 0 = [] →
        board'.store.inbox .mutex = [] ∧ board'.store.queues .mutex 0 = [])
    (htask : Consistent board' task pc')
    (htasks : ∀ other, other ≠ task → Consistent board' other (pc other))
    (hused : ∀ which, board'.atom (.condvar which) = address ∨
      board'.atom (.condvar which) = 0 ∧ board'.store.inbox (.condvar which) = [] ∧
        board'.store.queues (.condvar which) 0 = []) :
    Inv address board' (Function.update pc task pc') := by
  have howner : ∀ other, Owns board' other (Function.update pc task pc' other) ↔
      Owns board other (pc other) :=
    (Function.forall_update_iff pc fun other point =>
      Owns board' other point ↔ Owns board other (pc other)).mpr ⟨hself, hothers⟩
  refine ⟨?_, ?_, (Function.forall_update_iff pc _).mpr ⟨htask, htasks⟩, hused⟩
  · simpa only [howner] using hinv.unique
  · simp only [howner, hatom]
    rcases hinv.locked with hlocked | ⟨hzero, hfree, hinbox, hqueue⟩
    · exact Or.inl hlocked
    · exact Or.inr ⟨hzero, hfree, hempty hzero hinbox hqueue⟩

omit [DecidableEq τ] in
/-- A step that leaves the owner and all program points as they are. -/
theorem still (hinv : Inv address board pc)
    (hothers : ∀ other, Owns board' other (pc other) ↔ Owns board other (pc other))
    (hatom : board'.atom .mutex = board.atom .mutex)
    (hempty : board.atom .mutex = 0 → board.store.inbox .mutex = [] →
      board.store.queues .mutex 0 = [] →
        board'.store.inbox .mutex = [] ∧ board'.store.queues .mutex 0 = [])
    (htasks : ∀ other, Consistent board' other (pc other))
    (hused : ∀ which, board'.atom (.condvar which) = address ∨
      board'.atom (.condvar which) = 0 ∧ board'.store.inbox (.condvar which) = [] ∧
        board'.store.queues (.condvar which) 0 = []) :
    Inv address board' pc := by
  refine ⟨?_, ?_, htasks, hused⟩
  · simpa only [hothers] using hinv.unique
  · simp only [hothers, hatom]
    rcases hinv.locked with hlocked | ⟨hzero, hfree, hinbox, hqueue⟩
    · exact Or.inl hlocked
    · exact Or.inr ⟨hzero, hfree, hempty hzero hinbox hqueue⟩

omit [DecidableEq τ] in
theorem waitsOn_of_not_waits {point : Point τ K} (hwaits : point.waits = false) :
    point.waitsOn = none := by
  cases point <;> simp_all [Point.waits]

/-- What the board says of the future of a task that does not wait is of no
importance. -/
theorem unwaited (hinv : Inv address board pc) (hwaits : (pc task).waits = false)
    (hatom : board'.atom = board.atom) (hinbox : board'.store.inbox = board.store.inbox)
    (hqueues : board'.store.queues = board.store.queues)
    (hhandle : board'.handle = board.handle)
    (hawake : ∀ other, other ≠ task → board'.awake other = board.awake other)
    (howner : ∀ other, other ≠ task → board'.owner other = board.owner other)
    (hstage : ∀ other, other ≠ task → board'.stage other = board.stage other) :
    Inv address board' pc := by
  have hpoint (other : τ) (hhere : PointInv board (pc other)) : PointInv board' (pc other) := by
    unfold PointInv at hhere ⊢
    rw [hinbox, hqueues]
    exact hhere
  refine hinv.still (fun other => ?_) (by rw [hatom]) ?_ (fun other => ?_) ?_
  · by_cases hother : other = task
    · subst hother
      simp only [Owns, Owner, Handed, hwaits]
      simp
    · simp only [Owns, Owner, Handed, hhandle, hawake other hother]
  · rw [hinbox, hqueues]
    exact fun _ hinbox hqueue => ⟨hinbox, hqueue⟩
  · by_cases hother : other = task
    · subst hother
      have hnone := waitsOn_of_not_waits hwaits
      exact ⟨hpoint other (hinv.tasks other).here, by simp [hnone],
        fun which hpc => by simp [hpc, Point.waitsOn] at hnone, by simp [hnone],
        by simp [hwaits]⟩
    · refine (hinv.tasks other).congr (hpoint other) ?_ ?_ ?_ ?_ ?_
      · rw [hinbox, hqueues]
        exact fun _ => id
      · simp only [Handed, hhandle, hawake other hother]
        exact id
      · rw [hawake other hother]
        exact id
      · rw [hstage other hother]
        exact id
      · rw [howner other hother]
        exact id
  · rw [hatom, hinbox, hqueues]
    exact hinv.used

/-- A step of `task` after which `owner` has the lock. -/
theorem become {pc' : Point τ K} (owner : τ)
    (howner : ∀ other, Owns board' other (Function.update pc task pc' other) ↔
      other = owner)
    (hatom : board'.atom .mutex = 1) (htask : Consistent board' task pc')
    (htasks : ∀ other, other ≠ task → Consistent board' other (pc other))
    (hused : ∀ which, board'.atom (.condvar which) = address ∨
      board'.atom (.condvar which) = 0 ∧ board'.store.inbox (.condvar which) = [] ∧
        board'.store.queues (.condvar which) 0 = []) :
    Inv address board' (Function.update pc task pc') := by
  refine ⟨fun other third hother hthird => ?_,
    Or.inl ⟨hatom, owner, (howner owner).mpr rfl⟩,
    (Function.forall_update_iff pc _).mpr ⟨htask, htasks⟩, hused⟩
  rw [(howner other).mp hother, (howner third).mp hthird]

omit [DecidableEq τ] in
theorem locked_of_owns (hinv : Inv address board pc)
    (howns : (pc task).owns = true) : board.atom .mutex = 1 := by
  rcases hinv.locked with ⟨hatom, -⟩ | ⟨-, hfree, -⟩
  · exact hatom
  · exact absurd (Or.inl howns) (hfree task)

/-- The code goes on, and the board changes in nothing that matters here. -/
theorem advance (hinv : Inv address board pc) {pc' : Point τ K}
    (hatom : board'.atom = board.atom)
    (hinbox : board'.store.inbox = board.store.inbox)
    (hqueues : board'.store.queues = board.store.queues)
    (hhandle : board'.handle = board.handle) (hawake : board'.awake = board.awake)
    (howner : board'.owner = board.owner)
    (hstage : ∀ other, board'.stage other = .dropping →
      board.stage other = .dropping)
    (howns : pc'.owns = (pc task).owns) (hwaits : pc'.waits = (pc task).waits)
    (hwaitsOn : pc'.waitsOn = (pc task).waitsOn) (hpoint : PointInv board' pc')
    (hdrop : ∀ which, pc' = .waitWaiting which → board'.stage task ≠ .dropping) :
    Inv address board' (Function.update pc task pc') := by
  have hsame : ∀ other point, Consistent board other point →
      Consistent board' other point := by
    intro other point htask
    refine htask.congr (fun hpoint => ?_) ?_ ?_ ?_ (hstage other) ?_
    · unfold PointInv at hpoint ⊢
      rw [hinbox, hqueues]
      exact hpoint
    · rw [hinbox, hqueues]
      exact fun _ => id
    · rw [hhandle, hawake]
      exact id
    · rw [hawake]
      exact id
    · rw [howner]
      exact id
  refine hinv.keep ?_ (fun other _ => ?_) (by rw [hatom]) ?_ ?_
    (fun other _ => hsame other _ (hinv.tasks other)) ?_
  · simp only [Owns, Owner, Handed, howns, hwaits, hhandle, hawake]
  · simp only [Owns, hhandle, hawake]
  · rw [hinbox, hqueues]
    exact fun _ hinbox hqueue => ⟨hinbox, hqueue⟩
  · obtain ⟨-, hentering, -, hmoved, hlocking⟩ := hinv.tasks task
    refine ⟨hpoint, ?_, fun which hpc hstage' => absurd hstage' (hdrop which hpc), ?_, ?_⟩
    · rw [howns, hwaitsOn, hinbox, hqueues]
      exact hentering
    · simp only [Handed] at hmoved ⊢
      rw [hwaitsOn, hwaits, hhandle, hawake, howner]
      exact hmoved
    · rw [hwaitsOn, hwaits, howner]
      exact hlocking
  · rw [hatom, hinbox, hqueues]
    exact hinv.used

/-! ## What the program points say about the board -/

section Coherent

variable (hco : (client address).Coherent holds board pc)
include hco

omit [DecidableEq τ] in
/-- A waiter that is anywhere belongs to a future. -/
theorem waits_of_place {place : τ → Place τ (Cell K) (Fin 1)}
    (hplaced : board.Placed place) (hplace : place task ≠ .nowhere) :
    (pc task).waits = true := by
  have hslot := (hco.fits task).slot
  refine waits_of_slot ?_
  cases hcase : (holds (pc task)).slot with
  | entered queue => exact Or.inl ⟨queue, rfl⟩
  | waiting queue => exact Or.inr ⟨queue, rfl⟩
  | free =>
      rw [hcase] at hslot
      rcases hplaced.waits task hplace with h | h | h <;>
        simp [Slot.Fits, h] at hslot
  | fresh futex queue =>
      rw [hcase] at hslot
      rcases hplaced.waits task hplace with h | h | h <;>
        simp [Slot.Fits, h] at hslot

omit [DecidableEq τ] in
theorem handed_of_handle {waiter : τ} (hhandle : board.handle task = some waiter) :
    Handed board.handle board.awake waiter (pc waiter) := by
  obtain ⟨place, hplaced⟩ := hco.placed
  have hplace := (hplaced.places.hand task waiter).mp hhandle
  exact ⟨waits_of_place hco hplaced (by simp [hplace]), Or.inl ⟨task, hhandle⟩⟩

omit [DecidableEq τ] in
/-- The waiter of a task that made a new one has not been popped. -/
theorem unused_of_fresh {futex : Cell K} {queue : Fin 1}
    (hslot : (holds (pc task)).slot = .fresh futex queue) :
    (∀ other, board.handle other ≠ some task) ∧ board.awake task = false := by
  obtain ⟨place, hplaced⟩ := hco.placed
  have hfits := (hco.fits task).slot
  rw [hslot] at hfits
  refine ⟨fun other hhandle => ?_, (hplaced.fresh task futex hfits.1).1⟩
  have hplace := (hplaced.places.hand other task).mp hhandle
  rcases hplaced.waits task (by simp [hplace]) with h | h | h <;>
    simp [Slot.Fits, h] at hfits

omit [DecidableEq τ] in
/-- A waiter in the inbox or a queue has not been popped. -/
theorem not_handed_of_listed {futex : Cell K} {point : Point τ K}
    (hlisted : task ∈ board.store.inbox futex ∨ task ∈ board.store.queues futex 0) :
    ¬ Handed board.handle board.awake task point := by
  obtain ⟨place, hplaced⟩ := hco.placed
  have hplace : place task = .inbox futex ∨ place task = .queue futex 0 := by
    rw [← hplaced.places.inbox, ← hplaced.places.queues]
    exact hlisted
  have hawake : board.awake task = false :=
    hplaced.asleep task (by rcases hplace with h | h <;> simp [h])
  rintro ⟨-, ⟨other, hhandle⟩ | hdone⟩
  · have hhand := (hplaced.places.hand other task).mp hhandle
    rcases hplace with h | h <;> simp [hhand] at h
  · simp [hawake] at hdone

omit [DecidableEq τ] in
/-- The code that has the lock has not also been handed it. -/
theorem not_handed_of_owns (hinv : Inv address board pc)
    (howns : (pc task).owns = true) {point : Point τ K}
    (hwaits : point.waits = (pc task).waits) :
    ¬ Handed board.handle board.awake task point := by
  intro hhanded
  obtain ⟨which, hwhich⟩ := owns_and_waits howns (hwaits ▸ hhanded.1)
  exact not_handed_of_listed hco ((hinv.tasks task).entering which howns hwhich)
    hhanded

omit hco [DecidableEq τ] in
/-- All other tasks are without the lock. -/
theorem not_owns_of_owns (hinv : Inv address board pc)
    (howns : (pc task).owns = true) {other : τ} (hother : other ≠ task) :
    ¬ Owns board other (pc other) :=
  fun howner => hother (hinv.unique other task howner (Or.inl howns))

end Coherent

/-! ## Taking the lock and waiting for it -/

omit [DecidableEq τ] in
/-- A task that neither runs with the lock nor waits. -/
theorem not_owns_of_idle {point : Point τ K} (howns : point.owns = false)
    (hwaits : point.waits = false) : ¬ Owns board task point := by
  rintro (howns' | ⟨hwaits', -⟩)
  · simp [howns] at howns'
  · simp [hwaits] at hwaits'

variable [DecidableEq K]

/-- The compare-exchange from 0 to 1 succeeds. -/
theorem acquire (hinv : Inv address board pc) (hzero : board.atom .mutex = 0) :
    Inv address (board.setAtom .mutex 1) (Function.update pc task .guard) := by
  rcases hinv.locked with ⟨hone, -⟩ | ⟨-, hfree, -⟩
  · rw [hzero] at hone
    cases hone
  refine become task ?_ (by simp [Board.setAtom]) ?_
    (fun other _ => (hinv.tasks other).congr id (fun _ => id) id id id id) ?_
  · refine (Function.forall_update_iff pc fun other point =>
      Owns (board.setAtom .mutex 1) other point ↔ other = task).mpr
        ⟨by simp [Owns, Owner, Point.owns], fun other hother => ?_⟩
    exact iff_of_false (hfree other) hother
  · exact ⟨trivial, by simp [Point.waitsOn], by simp, by simp [Point.waitsOn],
      by simp [Point.waits, Point.waitsOn]⟩
  · simpa [Board.setAtom] using hinv.used

omit [DecidableEq K] in
/-- `Futex::waiter`. -/
theorem newWaiter (hinv : Inv address board pc) {pc' : Point τ K}
    {futex : Cell K} (store : ListStore τ (Cell K) (Fin 1))
    (hinbox : store.inbox = board.store.inbox)
    (hqueues : store.queues = board.store.queues)
    (howns : pc'.owns = (pc task).owns) (hwaits : (pc task).waits = false)
    (hwaits' : pc'.waits = false) (hpoint : PointInv board pc') :
    Inv address ((((board.setStore store).setOwner task futex).setStage task
      (.fresh futex)).setAwake task false) (Function.update pc task pc') := by
  have hnone : pc'.waitsOn = none := waitsOn_of_not_waits hwaits'
  refine hinv.keep ?_ (fun other hother => ?_) rfl ?_ ?_ (fun other hother => ?_) ?_
  · simp [Owns, Owner, Handed, howns, hwaits, hwaits']
  · simp [Owns, Owner, Handed, Board.setAwake, Board.setStage, Board.setOwner,
      Board.setStore, Function.update_of_ne hother]
  · simp only [Board.setAwake, Board.setStage, Board.setOwner, Board.setStore,
      hinbox, hqueues]
    exact fun _ hinbox hqueue => ⟨hinbox, hqueue⟩
  · refine ⟨?_, by simp [hnone], fun which hpc => ?_, by simp [hnone], by simp [hwaits']⟩
    · unfold PointInv at hpoint ⊢
      simpa [Board.setAwake, Board.setStage, Board.setOwner, Board.setStore, hinbox,
        hqueues] using hpoint
    · simp [hpc, Point.waitsOn] at hnone
  · refine (hinv.tasks other).congr (fun hpoint => ?_) ?_ ?_ ?_ ?_ ?_
    · unfold PointInv at hpoint ⊢
      simpa [Board.setAwake, Board.setStage, Board.setOwner, Board.setStore, hinbox,
        hqueues] using hpoint
    all_goals
      simp [Board.setAwake, Board.setStage, Board.setOwner, Board.setStore, hinbox,
        hqueues, Handed, Function.update_of_ne hother]
  · simpa [Board.setAwake, Board.setStage, Board.setOwner, Board.setStore, hinbox,
      hqueues] using hinv.used

section Coherent

variable (hco : (client address).Coherent holds board pc)
include hco

/-- A compare-exchange of `lock` pushes its waiter. -/
theorem enterLock (hinv : Inv address board pc) {current : FutexAtom τ ℕ}
    (hpc : pc task = .lockLoop current) (hword : board.atom .mutex ≠ 0) :
    Inv address (((board.setAtom .mutex 1).setStore
        (FutexStore.push board.store .mutex task)).setStage task .entered)
      (Function.update pc task .lockEntered) := by
  have hslot : (holds (pc task)).slot = .fresh .mutex 0 := by
    rw [hpc]
    rfl
  obtain ⟨hhandle, hawake⟩ := unused_of_fresh hco hslot
  have hone : board.atom .mutex = 1 := by
    rcases hinv.locked with ⟨hone, -⟩ | ⟨hzero, -⟩
    · exact hone
    · exact absurd hzero hword
  have hnot : ¬ Handed board.handle board.awake task (.lockEntered : Point τ K) := by
    rintro ⟨-, ⟨other, hother⟩ | hdone⟩
    · exact hhandle other hother
    · simp [hawake] at hdone
  have howner : board.owner task = .mutex := by
    obtain ⟨place, hplaced⟩ := hco.placed
    have hfits := (hco.fits task).slot
    rw [hslot] at hfits
    exact (hplaced.fresh task .mutex hfits.1).2
  refine hinv.keep ?_ (fun other hother => Iff.rfl) ?_ ?_ ?_
    (fun other hother => ?_) ?_
  · refine iff_of_false ?_ ?_
    · rintro (howns | hhanded)
      · cases howns
      · exact hnot hhanded
    · rw [hpc]
      exact not_owns_of_idle rfl rfl
  · simp [Board.setAtom, Board.setStore, Board.setStage, hone]
  · simp [hone]
  · exact ⟨trivial, by simp [Point.waitsOn], by simp, by simp [Point.waitsOn],
      fun _ _ => howner⟩
  · refine (hinv.tasks other).congr (fun hpoint => ?_) ?_ id id ?_ id
    · unfold PointInv at hpoint ⊢
      simpa [Board.setAtom, Board.setStore, Board.setStage, FutexStore.push]
        using hpoint
    · simp [Board.setAtom, Board.setStore, Board.setStage, FutexStore.push]
    · simp [Board.setAtom, Board.setStore, Board.setStage,
        Function.update_of_ne hother]
  · simpa [Board.setAtom, Board.setStore, Board.setStage, FutexStore.push]
      using hinv.used

/-- A compare-exchange of `wait` pushes its waiter; the task still has the
lock. -/
theorem enterWait (hinv : Inv address board pc) {current : FutexAtom τ ℕ}
    {which : K} (hpc : pc task = .waitLoop which current) :
    Inv address (((board.setAtom (.condvar which) address).setStore
        (FutexStore.push board.store (.condvar which) task)).setStage task .entered)
      (Function.update pc task (.unlock .lock (.wait which))) := by
  have hslot : (holds (pc task)).slot = .fresh (.condvar which) 0 := by
    rw [hpc]
    rfl
  obtain ⟨hhandle, hawake⟩ := unused_of_fresh hco hslot
  have howns : (pc task).owns = true := by rw [hpc]; rfl
  have hnot : ¬ Handed board.handle board.awake task
      (.unlock .lock (.wait which) : Point τ K) := by
    rintro ⟨-, ⟨other, hother⟩ | hdone⟩
    · exact hhandle other hother
    · simp [hawake] at hdone
  refine hinv.keep ?_ (fun other hother => Iff.rfl) ?_ ?_ ?_
    (fun other hother => ?_) ?_
  · exact iff_of_true (Or.inl rfl) (Or.inl howns)
  · simp [Board.setAtom, Board.setStore, Board.setStage]
  · simp only [Board.setAtom, Board.setStore, Board.setStage, FutexStore.push]
    exact fun _ hinbox hqueue => ⟨by simpa using hinbox, hqueue⟩
  · refine ⟨trivial, fun which' _ hwhich => ?_, by simp, fun _ _ hhanded =>
      absurd hhanded hnot, fun _ hnone => by cases hnone⟩
    cases hwhich
    simp [Board.setAtom, Board.setStore, Board.setStage, FutexStore.push]
  · have hidle : (pc other).owns = false := by
      by_contra hother'
      exact not_owns_of_owns hinv howns hother (Or.inl (by simpa using hother'))
    refine (hinv.tasks other).congr (fun _ => pointInv_of_not_owns hidle) ?_ id id ?_ id
    · intro which' hlisted
      simp only [Board.setAtom, Board.setStore, Board.setStage, FutexStore.push,
        Function.update_apply]
      split
      case isTrue heq =>
        rw [heq] at hlisted ⊢
        exact hlisted.imp_left (List.mem_cons_of_mem task)
      case isFalse => exact hlisted
    · simp [Board.setAtom, Board.setStore, Board.setStage,
        Function.update_of_ne hother]
  · intro which'
    by_cases hwhich : which' = which
    · simp [Board.setAtom, Board.setStore, Board.setStage, hwhich]
    · simpa [Board.setAtom, Board.setStore, Board.setStage, FutexStore.push, hwhich]
        using hinv.used which'

/-! ## Unlocking -/

/-- `unlock` pops a waiter, which has the lock from now on. -/
theorem popped (hinv : Inv address board pc) {point : Unlock τ} {caller : Caller K}
    (hpc : pc task = .unlock point caller) (howns : point.owns = true) {waiter : τ}
    (hhead : (board.store.queues .mutex 0).head? = some waiter) :
    Inv address ((board.setStore (board.store.setQueue .mutex 0
        (board.store.queues .mutex 0).tail)).setHandle task (some waiter))
      (Function.update pc task (.unlock .release caller)) := by
  have howns' : (pc task).owns = true := by
    rw [hpc]
    exact howns
  have hmem : waiter ∈ board.store.queues .mutex 0 := List.mem_of_mem_head? hhead
  obtain ⟨place, hplaced⟩ := hco.placed
  have hplace := (hplaced.places.queues _ _ waiter).mp hmem
  have hwaits : (pc waiter).waits = true :=
    waits_of_place hco hplaced (by simp [hplace])
  have howner : board.owner waiter = .mutex := hplaced.owned waiter _ (by simp [hplace])
  have hcaller : (Point.unlock .release caller : Point τ K).waits = (pc task).waits := by
    rw [hpc]
    cases caller <;> rfl
  -- nobody but the popped waiter is handed the lock
  have hhanded : ∀ other (point : Point τ K), point.waits = (pc other).waits →
      Handed (Function.update board.handle task (some waiter)) board.awake other
        point → other = waiter := by
    rintro other point hsame ⟨hwait, hwoken⟩
    by_contra hother
    have hbefore : Handed board.handle board.awake other (pc other) := by
      refine ⟨hsame ▸ hwait, hwoken.imp_left ?_⟩
      rintro ⟨third, hthird⟩
      rw [Function.update_apply] at hthird
      split at hthird
      · cases hthird
        exact absurd rfl hother
      · exact ⟨third, hthird⟩
    have htask := hinv.unique other task (Or.inr hbefore) (Or.inl howns')
    subst htask
    exact not_handed_of_owns hco hinv howns' rfl hbefore
  have hidle : ∀ other, other ≠ task → (pc other).owns = false := by
    intro other hother
    by_contra hother'
    exact not_owns_of_owns hinv howns' hother (Or.inl (by simpa using hother'))
  have hmoved : ∀ other (point : Point τ K), point.waits = (pc other).waits →
      Handed (Function.update board.handle task (some waiter)) board.awake other
        point → board.owner other = .mutex := by
    intro other point hsame hhand
    rw [hhanded other point hsame hhand]
    exact howner
  refine become waiter ?_ (hinv.locked_of_owns howns') ?_
    (fun other hother => ?_) ?_
  · intro other
    refine ⟨fun howner => ?_, ?_⟩
    · rw [Function.update_apply] at howner
      split at howner
      case isTrue heq =>
        rcases howner with howns | hhand
        · cases howns
        · exact hhanded other _ (heq ▸ hcaller) hhand
      case isFalse hother =>
        rcases howner with howns | hhand
        · simp [hidle other hother] at howns
        · exact hhanded other _ rfl hhand
    · rintro rfl
      refine Or.inr ⟨?_, Or.inl ⟨task, by simp [Board.setHandle]⟩⟩
      rw [Function.update_apply]
      split
      case isTrue heq => rw [hcaller, ← heq, hwaits]
      case isFalse => exact hwaits
  · exact ⟨trivial, by simp [Point.owns, Unlock.owns], by simp,
      fun which _ => hmoved task _ hcaller, fun hwaits' hnone =>
        absurd hnone (waitsOn_of_unlock hwaits')⟩
  · obtain ⟨-, -, hdropping, -, hlocking⟩ := hinv.tasks other
    exact ⟨pointInv_of_not_owns (hidle other hother), by simp [hidle other hother],
      hdropping, fun which _ => hmoved other _ rfl, hlocking⟩
  · simpa [Board.setStore, Board.setHandle, ListStore.setQueue] using hinv.used

/-- `unlock` finds its queue empty. -/
theorem popNone (hinv : Inv address board pc) {caller : Caller K}
    (hpc : pc task = .unlock .pop caller)
    (hhead : (board.store.queues .mutex 0).head? = none) :
    Inv address ((board.setStore (board.store.setQueue .mutex 0
        (board.store.queues .mutex 0).tail)).setHandle task none)
      (Function.update pc task (.unlock .load caller)) := by
  have hnil := List.head?_eq_none_iff.mp hhead
  have hhandle : board.handle task = none :=
    (hco.fits task).handle_eq_none (by rw [hpc]; rfl)
  have htail : (board.store.queues .mutex 0).tail = board.store.queues .mutex 0 := by
    rw [hnil]
    rfl
  have hqueues : (board.store.setQueue .mutex 0
      (board.store.queues .mutex 0).tail).queues = board.store.queues := by
    simp [ListStore.setQueue, htail]
  have hset : Function.update board.handle task none = board.handle := by
    rw [← hhandle]
    exact Function.update_eq_self task board.handle
  refine hinv.advance rfl rfl hqueues hset rfl rfl (fun _ => id) ?_ ?_ ?_ ?_ (by simp)
  · rw [hpc]
    rfl
  · rw [hpc]
    cases caller <;> rfl
  · rw [hpc]
    cases caller <;> rfl
  · simpa [PointInv, Board.setStore, Board.setHandle, hqueues] using hnil

omit hco in
/-- `unlock` takes the inbox over. -/
theorem enqueue (hinv : Inv address board pc) {current : FutexAtom τ ℕ}
    {caller : Caller K} (hpc : pc task = .unlock (.loop current) caller)
    (hinbox : board.store.inbox .mutex ≠ []) :
    Inv address ((board.flip .mutex).setAtom .mutex 1)
      (Function.update pc task (.unlock .popEnqueued caller)) := by
  have howns : (pc task).owns = true := by
    rw [hpc]
    rfl
  have hone := hinv.locked_of_owns howns
  have hqueue : ((board.flip .mutex).setAtom .mutex 1).store.queues .mutex 0 ≠ [] := by
    obtain ⟨waiter, hwaiter⟩ := List.exists_mem_of_ne_nil _ hinbox
    have hzero : board.store.queue waiter = 0 := Subsingleton.elim _ _
    refine List.ne_nil_of_mem (a := waiter) ?_
    simp [Board.setAtom, Board.flip, Board.setStore, ListStore.arrivals, hwaiter,
      hzero]
  refine hinv.keep (iff_of_true (Or.inl rfl) (Or.inl howns)) (fun _ _ => Iff.rfl) ?_ ?_ ?_
    (fun other hother => ?_) ?_
  · simp [Board.setAtom, hone]
  · simp [hone]
  · obtain ⟨-, hentering, -, hmoved, -⟩ := hinv.tasks task
    refine ⟨hqueue, fun which _ hwhich => ?_, by simp, fun which hwhich hhand => ?_,
      fun hwaits hnone => absurd hnone (waitsOn_of_unlock hwaits)⟩
    · have hlisted := hentering which howns (by rw [hpc, ← hwhich]; cases caller <;> rfl)
      simpa [Board.setAtom, Board.flip, Board.setStore] using hlisted
    · refine hmoved which (by rw [hpc, ← hwhich]; cases caller <;> rfl) ?_
      rw [hpc]
      exact ⟨by rw [← hhand.1]; cases caller <;> rfl, hhand.2⟩
  · have hidle : (pc other).owns = false := by
      by_contra hother'
      exact not_owns_of_owns hinv howns hother (Or.inl (by simpa using hother'))
    refine (hinv.tasks other).congr (fun _ => pointInv_of_not_owns hidle) ?_ id id id id
    simp [Board.setAtom, Board.flip, Board.setStore]
  · simpa [Board.setAtom, Board.flip, Board.setStore] using hinv.used

/-- `unlock` stores 0 when nobody waits. -/
theorem release (hinv : Inv address board pc) {current : FutexAtom τ ℕ}
    {caller : Caller K} (hpc : pc task = .unlock (.store current) caller)
    (hinbox : board.store.inbox .mutex = []) :
    Inv address (board.setAtom .mutex 0)
      (Function.update pc task (.unlock .done caller)) := by
  have howns : (pc task).owns = true := by
    rw [hpc]
    rfl
  have hqueue : board.store.queues .mutex 0 = [] := by
    have hhere := (hinv.tasks task).here
    rw [hpc] at hhere
    exact hhere.1
  have hwaits : (Point.unlock .done caller : Point τ K).waits = (pc task).waits := by
    rw [hpc]
    cases caller <;> rfl
  have hfree : ∀ other,
      ¬ Owns (board.setAtom .mutex 0) other
        (Function.update pc task (.unlock .done caller) other) := by
    refine (Function.forall_update_iff pc fun other point =>
      ¬ Owns (board.setAtom .mutex 0) other point).mpr ⟨?_, fun other hother => ?_⟩
    · rintro (hdone | hhand)
      · cases hdone
      · exact not_handed_of_owns hco hinv howns hwaits hhand
    · exact not_owns_of_owns hinv howns hother
  refine ⟨fun other third hother => absurd hother (hfree other),
    Or.inr ⟨by simp [Board.setAtom], hfree, hinbox, hqueue⟩, ?_, ?_⟩
  · refine (Function.forall_update_iff pc _).mpr ⟨?_, fun other hother => ?_⟩
    · refine ⟨trivial, by simp [Point.owns, Unlock.owns], by simp, fun which _ hhand => ?_,
        fun hwaits' hnone => absurd hnone (waitsOn_of_unlock hwaits')⟩
      exact absurd hhand (not_handed_of_owns hco hinv howns hwaits)
    · exact (hinv.tasks other).congr id (fun _ => id) id id id id
  · simpa [Board.setAtom] using hinv.used

omit [DecidableEq K] in
/-- The waiter of a handle is woken. -/
theorem wake (hinv : Inv address board pc) {waiter : τ}
    (hhandle : board.handle task = some waiter) :
    Inv address (((board.setAwake waiter true).setHandle task none).setActivity task
      .waking) pc := by
  have hwaiter := handed_of_handle hco hhandle
  have hsame : ∀ other, Handed (Function.update board.handle task none)
      (Function.update board.awake waiter true) other (pc other) ↔
      Handed board.handle board.awake other (pc other) := by
    intro other
    by_cases hother : other = waiter
    · subst hother
      exact iff_of_true ⟨hwaiter.1, Or.inr (by simp)⟩ hwaiter
    · unfold Handed
      rw [Function.update_of_ne hother]
      refine and_congr_right fun _ => or_congr_left ⟨?_, ?_⟩
      · rintro ⟨third, hthird⟩
        rw [Function.update_apply] at hthird
        split at hthird
        · cases hthird
        · exact ⟨third, hthird⟩
      · rintro ⟨third, hthird⟩
        have hne : third ≠ task := by
          rintro rfl
          rw [hhandle] at hthird
          cases hthird
          exact hother rfl
        exact ⟨third, by rw [Function.update_of_ne hne, hthird]⟩
  refine hinv.still (fun other => or_congr_right (hsame other)) rfl
    (fun _ hinbox hqueue => ⟨hinbox, hqueue⟩) (fun other => ?_) hinv.used
  refine (hinv.tasks other).congr id (fun _ => id) (hsame other).mp (fun hawake => ?_)
    id id
  simp only [Board.setActivity, Board.setHandle, Board.setAwake, Function.update_apply]
  split
  · rfl
  · exact hawake

/-! ## Notifying -/

omit hco in
/-- `notify` takes the inbox of its condition variable over. -/
theorem collect (hinv : Inv address board pc) {which : K} {count : ℕ}
    {current : FutexAtom τ ℕ} (hpc : pc task = .notify (.enqueue count current) which) :
    Inv address ((board.flip (.condvar which)).setAtom (.condvar which) address)
      (Function.update pc task (.notify (.popMany count) which)) := by
  have howns : (pc task).owns = true := by
    rw [hpc]
    rfl
  refine hinv.keep (iff_of_true (Or.inl rfl) (Or.inl howns)) (fun _ _ => Iff.rfl) ?_ ?_ ?_
    (fun other hother => ?_) ?_
  · simp [Board.setAtom, Board.flip, Board.setStore]
  · simp only [Board.setAtom, Board.flip, Board.setStore]
    exact fun _ hinbox hqueue => ⟨by simpa using hinbox, by simpa using hqueue⟩
  · refine ⟨?_, by simp [Point.waitsOn], by simp, by simp [Point.waitsOn],
      by simp [Point.waits, Point.waitsOn]⟩
    simp [PointInv, Board.setAtom, Board.flip, Board.setStore]
  · have hidle : (pc other).owns = false := by
      by_contra hother'
      exact not_owns_of_owns hinv howns hother (Or.inl (by simpa using hother'))
    obtain ⟨-, -, hdropping, hmoved, hlocking⟩ := hinv.tasks other
    exact ⟨pointInv_of_not_owns hidle, by simp [hidle], hdropping, hmoved, hlocking⟩
  · intro which'
    by_cases hwhich : which' = which
    · simp [Board.setAtom, hwhich]
    · simpa [Board.setAtom, Board.flip, Board.setStore, hwhich] using hinv.used which'

omit hco in
/-- `notify` pops a part of the queue of its condition variable. -/
theorem popMany (hinv : Inv address board pc) {which : K} {count : ℕ}
    (hpc : pc task = .notify (.popMany count) which) :
    Inv address (board.setStore
        (FutexStore.popMany board.store task (.condvar which) count 0))
      (Function.update pc task (.notify .release which)) := by
  have howns : (pc task).owns = true := by
    rw [hpc]
    rfl
  refine hinv.keep (iff_of_true (Or.inl rfl) (Or.inl howns)) (fun _ _ => Iff.rfl) rfl ?_ ?_
    (fun other hother => ?_) ?_
  · simp only [Board.setStore, FutexStore.popMany, ListStore.setQueue]
    exact fun _ hinbox hqueue => ⟨hinbox, by simpa using hqueue⟩
  · exact ⟨trivial, by simp [Point.waitsOn], by simp, by simp [Point.waitsOn],
      by simp [Point.waits, Point.waitsOn]⟩
  · have hidle : (pc other).owns = false := by
      by_contra hother'
      exact not_owns_of_owns hinv howns hother (Or.inl (by simpa using hother'))
    obtain ⟨-, -, hdropping, hmoved, hlocking⟩ := hinv.tasks other
    exact ⟨pointInv_of_not_owns hidle, by simp [hidle], hdropping, hmoved, hlocking⟩
  · intro which'
    rcases hinv.used which' with haddress | ⟨hzero, hinbox, hqueue⟩
    · exact Or.inl haddress
    · refine Or.inr ⟨hzero, hinbox, ?_⟩
      by_cases hwhich : which' = which
      · subst hwhich
        simp [Board.setStore, FutexStore.popMany, ListStore.setQueue, hqueue,
          WaiterList.back]
      · simpa [Board.setStore, FutexStore.popMany, ListStore.setQueue, hwhich]
          using hqueue

omit hco [DecidableEq K] in
/-- `requeue` makes the mutex the owner of a waiter. -/
theorem requeueStore (hinv : Inv address board pc) (waiter : τ) :
    Inv address (board.setOwner waiter .mutex) pc := by
  refine hinv.still (fun _ => Iff.rfl) rfl
    (fun _ hinbox hqueue => ⟨hinbox, hqueue⟩) (fun other => ?_) hinv.used
  refine (hinv.tasks other).congr id (fun _ => id) id id id (fun howner => ?_)
  simp only [Board.setOwner, Function.update_apply]
  split
  · rfl
  · exact howner

omit hco in
/-- `requeue` pushes its list on the inbox of the mutex. -/
theorem requeueDone (hinv : Inv address board pc) {which : K}
    (hpc : pc task = .notify .requeue which) :
    Inv address ((board.setStore (FutexStore.listPush board.store .mutex task)).setActivity
        task .none)
      (Function.update pc task (.notify .unlockMutex which)) := by
  have howns : (pc task).owns = true := by
    rw [hpc]
    rfl
  refine hinv.keep (iff_of_true (Or.inl rfl) (Or.inl howns)) (fun _ _ => Iff.rfl) rfl ?_
    ⟨trivial, by simp [Point.waitsOn], by simp, by simp [Point.waitsOn],
      by simp [Point.waits, Point.waitsOn]⟩
    (fun other hother => ?_) ?_
  · simp [hinv.locked_of_owns howns]
  · refine (hinv.tasks other).congr (fun hpoint => ?_) ?_ id id id id
    · unfold PointInv at hpoint ⊢
      simpa [Board.setStore, Board.setActivity, FutexStore.listPush] using hpoint
    · simp [Board.setStore, Board.setActivity, FutexStore.listPush]
  · simpa [Board.setStore, Board.setActivity, FutexStore.listPush] using hinv.used

end Coherent

end Inv

end FairMutex

end AsyncMutex
