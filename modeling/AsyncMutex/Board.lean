import AsyncMutex.WorldSteps

/-!
# What the users of the futexes see

A lock or a channel built on futexes does not see wakers, write locks and the
points inside a poll or a drop.  The board of a world keeps what it does see,
and `Board.Step` lists what one step of a world can do to it.
-/

namespace AsyncMutex

/-- Where the future of a task stands. -/
inductive Stage (φ : Type) where
  /-- The task has no future; it may have an unused waiter. -/
  | free
  /-- A waiter of the futex was made, and no compare-exchange has succeeded. -/
  | fresh (futex : φ)
  /-- The compare-exchange succeeded and `on_pending` runs. -/
  | entered
  | waiting
  | dropping

/-- The longer operation that a notifier is in. -/
inductive Activity (φ : Type) where
  | none
  | waking
  | requeueing (futex : φ)

structure Board (τ φ κ α : Type) where
  atom : φ → α
  store : ListStore τ φ κ
  handle : τ → Option τ
  readers : φ → Finset τ
  borrowed : φ → Option τ
  owner : τ → φ
  stage : τ → Stage φ
  /-- `wake` was called on the waiter. -/
  awake : τ → Bool
  activity : τ → Activity φ

namespace Phase

variable {τ φ α ω : Type}

def stage (owner : φ) : Phase τ φ α ω → Stage φ
  | .idle => .free
  | .enter => .fresh owner
  | .entered => .entered
  | .pending => .waiting
  | .polling _ _ => .waiting
  | _ => .dropping

end Phase

def WaiterWaker.isDone {ω : Type} : WaiterWaker ω → Bool
  | .done => true
  | _ => false

def Busy.activity {τ φ α ω : Type} : Busy τ φ α ω → Activity φ
  | .none => .none
  | .waking _ _ => .waking
  | .requeueStore futex _ => .requeueing futex
  | .requeueLink futex _ => .requeueing futex

def World.board {τ φ κ α ω : Type} (world : ListWorld τ φ κ α ω) :
    Board τ φ κ α where
  atom := world.atom
  store := world.store
  handle := world.handle
  readers := world.readers
  borrowed := world.borrowed
  owner := world.owner
  stage task := (world.phase task).stage (world.owner task)
  awake task := (world.waker task).isDone
  activity task := (world.busy task).activity

namespace Board

variable {τ φ κ α : Type} [DecidableEq τ] [DecidableEq φ] [DecidableEq κ]

def word (board : Board τ φ κ α) (futex : φ) : FutexAtom τ α :=
  ⟨board.atom futex, (board.store.inbox futex).head?⟩

def setAtom (board : Board τ φ κ α) (futex : φ) (new : α) : Board τ φ κ α :=
  { board with atom := Function.update board.atom futex new }

def setStore (board : Board τ φ κ α) (store : ListStore τ φ κ) :
    Board τ φ κ α :=
  { board with store := store }

def setOwner (board : Board τ φ κ α) (task : τ) (futex : φ) : Board τ φ κ α :=
  { board with owner := Function.update board.owner task futex }

def setStage (board : Board τ φ κ α) (task : τ) (stage : Stage φ) :
    Board τ φ κ α :=
  { board with stage := Function.update board.stage task stage }

def setAwake (board : Board τ φ κ α) (task : τ) (awake : Bool) :
    Board τ φ κ α :=
  { board with awake := Function.update board.awake task awake }

def setHandle (board : Board τ φ κ α) (task : τ) (handle : Option τ) :
    Board τ φ κ α :=
  { board with handle := Function.update board.handle task handle }

def setActivity (board : Board τ φ κ α) (task : τ) (activity : Activity φ) :
    Board τ φ κ α :=
  { board with activity := Function.update board.activity task activity }

def setReaders (board : Board τ φ κ α) (futex : φ) (readers : Finset τ) :
    Board τ φ κ α :=
  { board with readers := Function.update board.readers futex readers }

def setBorrowed (board : Board τ φ κ α) (futex : φ) (task : Option τ) :
    Board τ φ κ α :=
  { board with borrowed := Function.update board.borrowed futex task }

/-- The inbox of `futex` goes to its queues. -/
def flip (board : Board τ φ κ α) (futex : φ) : Board τ φ κ α :=
  board.setStore { board.store with
    inbox := Function.update board.store.inbox futex []
    queues := Function.update board.store.queues futex fun queue =>
      board.store.queues futex queue ++ board.store.arrivals futex queue }

/-- What asks for a step. -/
inductive Input (τ φ κ α : Type) where
  | call (op : Op τ φ κ α)
  | drop
  /-- A poll, or the next step of what runs. -/
  | go

/-- One step of `task`, with the response when an operation, a poll or a drop
ends. -/
inductive Step (board : Board τ φ κ α) (task : τ) :
    Input τ φ κ α → Option (Resp τ α) → Board τ φ κ α → Prop
  | waiter (futex : φ) (queue : κ) :
      Step board task (.call (.waiter futex queue)) (some .unit)
        ((((board.setStore (FutexStore.renew board.store task queue)).setOwner
          task futex).setStage task (.fresh futex)).setAwake task false)
  | load (futex : φ) :
      Step board task (.call (.load futex)) (some (.atom (board.word futex)))
        board
  | cmpxchgWeak (futex : φ) (new : α) :
      Step board task (.call (.cmpxchgWeak futex (board.word futex) new))
        (some .success) (board.setAtom futex new)
  | cmpxchgWeakFails (futex : φ) (current : FutexAtom τ α) (new : α) :
      Step board task (.call (.cmpxchgWeak futex current new))
        (some (.failure (board.word futex))) board
  | cmpxchgWaitWeak (futex : φ) (new : α) :
      Step board task (.call (.cmpxchgWaitWeak futex (board.word futex) new))
        (some .success)
        (((board.setAtom futex new).setStore
          (FutexStore.push board.store futex task)).setStage task .entered)
  | cmpxchgWaitWeakFails (futex : φ) (current : FutexAtom τ α) (new : α) :
      Step board task (.call (.cmpxchgWaitWeak futex current new))
        (some (.failure (board.word futex))) board
  | pending :
      Step board task (.call .pending) (some .unit) (board.setStage task .waiting)
  | lock (futex : φ) :
      Step board task (.call (.lock futex)) (some .unit)
        (board.setReaders futex (insert task (board.readers futex)))
  | unlock (futex : φ) :
      Step board task (.call (.unlock futex)) (some .unit)
        (board.setReaders futex ((board.readers futex).erase task))
  | borrow (futex : φ) :
      Step board task (.call (.borrow futex)) (some .unit)
        (board.setBorrowed futex (some task))
  | release (futex : φ) :
      Step board task (.call (.release futex)) (some .unit)
        (board.setBorrowed futex none)
  | cmpxchgEnqueueWeak (futex : φ) (new : α) :
      Step board task
        (.call (.cmpxchgEnqueueWeak futex (board.word futex) new))
        (some .success) ((board.flip futex).setAtom futex new)
  | cmpxchgEnqueueWeakFails (futex : φ) (current : FutexAtom τ α) (new : α) :
      Step board task (.call (.cmpxchgEnqueueWeak futex current new))
        (some (.failure (board.word futex))) board
  | isEmpty (futex : φ) (queue : κ) :
      Step board task (.call (.isEmpty futex queue))
        (some (.bool (board.store.queues futex queue).isEmpty)) board
  | pop (futex : φ) (queue : κ) :
      Step board task (.call (.pop futex queue))
        (some (.handle (board.store.queues futex queue).head?))
        ((board.setStore (board.store.setQueue futex queue
          (board.store.queues futex queue).tail)).setHandle task
            (board.store.queues futex queue).head?)
  | popMany (futex : φ) (count : ℕ) (queue : κ) :
      Step board task (.call (.popMany futex count queue)) (some .unit)
        (board.setStore
          (FutexStore.popMany board.store task futex count queue))
  | count :
      Step board task (.call .count)
        (some (.count (board.store.list task).length)) board
  | next :
      Step board task (.call .next)
        (some (.handle (board.store.list task).head?))
        ((board.setStore (FutexStore.listPop board.store task).2).setHandle
          task (board.store.list task).head?)
  | wake (waiter : τ) (hhandle : board.handle task = some waiter) :
      Step board task (.call .wake) none
        (((board.setAwake waiter true).setHandle task none).setActivity task
          .waking)
  | wakeDone (hactivity : board.activity task = .waking) :
      Step board task .go (some .unit) (board.setActivity task .none)
  | requeueNone (futex : φ) (hlist : board.store.list task = []) :
      Step board task (.call (.requeue futex)) (some .unit) board
  | requeue (futex : φ) (hlist : board.store.list task ≠ []) :
      Step board task (.call (.requeue futex)) none
        (board.setActivity task (.requeueing futex))
  | requeueStore (futex : φ) (waiter : τ) (hmem : waiter ∈ board.store.list task)
      (hactivity : board.activity task = .requeueing futex) :
      Step board task .go none (board.setOwner waiter futex)
  | requeueDone (futex : φ) (hlist : board.store.list task ≠ [])
      (hactivity : board.activity task = .requeueing futex)
      (howner : ∀ waiter ∈ board.store.list task, board.owner waiter = futex) :
      Step board task .go (some .unit)
        ((board.setStore (FutexStore.listPush board.store futex task)).setActivity
          task .none)
  /-- Nothing that can be seen from outside. -/
  | silent : Step board task .go none board
  | ready (hstage : board.stage task = .waiting)
      (hawake : board.awake task = true) :
      Step board task .go (some .ready) (board.setStage task .free)
  | drop (hstage : board.stage task = .waiting) :
      Step board task .drop none (board.setStage task .dropping)
  /-- The drop flips the inbox while no notifier has the read lock. -/
  | dropFlip (futex : φ) (hstage : board.stage task = .dropping)
      (hreaders : board.readers futex = ∅) :
      Step board task .go none (board.flip futex)
  /-- The drop removes the waiter while no notifier has the read lock. -/
  | dropCancel (futex : φ) (hstage : board.stage task = .dropping)
      (hreaders : board.readers futex = ∅)
      (hmem : task ∈ board.store.queues futex (board.store.queue task)) :
      Step board task .go none
        (board.setStore (FutexStore.cancel board.store futex task))
  | cancelWoken (hstage : board.stage task = .dropping)
      (hawake : board.awake task = true) :
      Step board task .go (some .cancelWoken)
        ((board.setStage task .free).setAwake task false)
  | cancelSleeping (hstage : board.stage task = .dropping)
      (hawake : board.awake task = false)
      (hinbox : ∀ futex, task ∉ board.store.inbox futex)
      (hqueues : ∀ futex queue, task ∉ board.store.queues futex queue)
      (hlist : ∀ other, task ∉ board.store.list other)
      (hhandle : ∀ other, board.handle other ≠ some task) :
      Step board task .go (some .cancelSleeping) (board.setStage task .free)

/-- The condition under which an operation neither panics nor is misused. -/
def Ready (board : Board τ φ κ α) (task : τ) : Op τ φ κ α → Prop
  | .waiter _ _ => board.stage task = .free ∨ ∃ futex, board.stage task = .fresh futex
  | .cmpxchgWaitWeak futex _ _ => board.stage task = .fresh futex
  | .pending => board.stage task = .entered
  | .lock futex => task ∉ board.readers futex
  | .unlock futex =>
      task ∈ board.readers futex ∧ board.borrowed futex ≠ some task ∧
        board.handle task = none ∧ board.store.list task = []
  | .borrow futex => task ∈ board.readers futex ∧ board.borrowed futex = none
  | .release futex => board.borrowed futex = some task
  | .cmpxchgEnqueueWeak futex _ _ => board.borrowed futex = some task
  | .isEmpty futex _ => board.borrowed futex = some task
  | .pop futex _ => board.borrowed futex = some task ∧ board.handle task = none
  | .popMany futex _ _ =>
      board.borrowed futex = some task ∧ board.store.list task = []
  | .next => board.handle task = none
  | .wake => board.handle task ≠ none
  | .requeue futex => task ∈ board.readers futex
  | _ => True

/-- `place` says where the board keeps each waiter. -/
structure Placed (board : Board τ φ κ α) (place : τ → Place τ φ κ) : Prop where
  places : Places board.store board.handle place
  waits : ∀ task, place task ≠ .nowhere → board.stage task = .entered ∨
    board.stage task = .waiting ∨ board.stage task = .dropping
  asleep : ∀ task, place task ≠ .nowhere → board.awake task = false
  somewhere : ∀ task, board.stage task = .entered ∨ board.stage task = .waiting →
    board.awake task = false → place task ≠ .nowhere
  owned : ∀ task futex, (place task).futex = some futex → board.owner task = futex
  fresh : ∀ task futex, board.stage task = .fresh futex →
    board.awake task = false ∧ board.owner task = futex

omit [DecidableEq φ] [DecidableEq κ] in
theorem setStage_self {board : Board τ φ κ α} {task : τ} {stage : Stage φ}
    (hstage : board.stage task = stage) : board.setStage task stage = board := by
  simp [setStage, ← hstage]

omit [DecidableEq φ] [DecidableEq κ] in
theorem setAwake_self {board : Board τ φ κ α} {task : τ} {awake : Bool}
    (hawake : board.awake task = awake) : board.setAwake task awake = board := by
  simp [setAwake, ← hawake]

omit [DecidableEq φ] [DecidableEq κ] in
theorem setActivity_self {board : Board τ φ κ α} {task : τ}
    {activity : Activity φ} (hactivity : board.activity task = activity) :
    board.setActivity task activity = board := by
  simp [setActivity, ← hactivity]

end Board

namespace World

variable {τ φ κ α ω : Type} [DecidableEq τ] [DecidableEq φ]

/-! ## The board after a change of the world -/

section Changes

variable (world : ListWorld τ φ κ α ω)

omit [DecidableEq φ] in
@[simp] theorem board_setPhase (task : τ) (phase : Phase τ φ α ω) :
    (world.setPhase task phase).board =
      world.board.setStage task (phase.stage (world.owner task)) := by
  simp only [board, setPhase, Board.setStage, Board.mk.injEq, true_and, and_true]
  funext other
  by_cases hother : other = task
  · subst hother
    simp
  · simp [hother]

omit [DecidableEq φ] in
@[simp] theorem board_setWaker (task : τ) (waker : WaiterWaker ω) :
    (world.setWaker task waker).board =
      world.board.setAwake task waker.isDone := by
  simp only [board, setWaker, Board.setAwake, Board.mk.injEq, true_and, and_true]
  funext other
  by_cases hother : other = task
  · subst hother
    simp
  · simp [hother]

omit [DecidableEq φ] in
@[simp] theorem board_setBusy (task : τ) (busy : Busy τ φ α ω) :
    (world.setBusy task busy).board =
      world.board.setActivity task busy.activity := by
  simp only [board, setBusy, Board.setActivity, Board.mk.injEq, true_and]
  funext other
  by_cases hother : other = task
  · subst hother
    simp
  · simp [hother]

omit [DecidableEq τ] in
@[simp] theorem board_setAtom (futex : φ) (new : α) :
    (world.setAtom futex new).board = world.board.setAtom futex new := rfl

omit [DecidableEq φ] in
@[simp] theorem board_setHandle (task : τ) (handle : Option τ) :
    (world.setHandle task handle).board = world.board.setHandle task handle := rfl

variable {world} in
omit [DecidableEq φ] in
theorem board_setPhase_of_stage {task : τ} {phase : Phase τ φ α ω}
    (hstage : phase.stage (world.owner task) =
      (world.phase task).stage (world.owner task)) :
    (world.setPhase task phase).board = world.board := by
  rw [board_setPhase, hstage]
  exact Board.setStage_self rfl

variable {world} in
omit [DecidableEq φ] in
theorem board_setBusy_of_activity {task : τ} {busy : Busy τ φ α ω}
    (hactivity : busy.activity = (world.busy task).activity) :
    (world.setBusy task busy).board = world.board := by
  rw [board_setBusy, hactivity]
  exact Board.setActivity_self rfl

end Changes

variable [DecidableEq κ] [DecidableEq α] [DecidableEq ω]

namespace Inv

variable {world : ListWorld τ φ κ α ω} {place : τ → Place τ φ κ}

omit [DecidableEq τ] [DecidableEq φ] [DecidableEq κ] [DecidableEq α] [DecidableEq ω] in
theorem placed (hinv : Inv world place) : world.board.Placed place where
  places := hinv.places
  waits := fun task hplace => by
    have hwaits := (hinv.task task).waits hplace
    simp only [board]
    cases hphase : world.phase task <;>
      simp_all [Phase.Waits, Phase.stage]
  asleep := fun task hplace => by
    obtain ⟨waker, hwaker⟩ := (hinv.task task).asleep hplace
    simp [board, hwaker, WaiterWaker.isDone]
  somewhere := fun task hstage hawake hplace => by
    have hwaits : (world.phase task).Waits := by
      simp only [board] at hstage
      cases hphase : world.phase task <;>
        simp_all [Phase.Waits, Phase.stage]
    have hdone := (hinv.task task).woken hwaits hplace
    simp [board, hdone, WaiterWaker.isDone] at hawake
  owned := fun task => (hinv.task task).owned
  fresh := fun task futex hstage => by
    have henter : world.phase task = .enter := by
      simp only [board] at hstage
      cases hphase : world.phase task <;> simp_all [Phase.stage]
    have hfresh := (hinv.task task).fresh henter
    constructor
    · simp only [board]
      cases hwaker : world.waker task <;> simp_all [WaiterWaker.isDone]
    · simpa [board, henter, Phase.stage] using hstage

/-! ## One step seen on the board -/

theorem newWaiter_board {task : τ} {futex : φ} {queue : κ}
    {outcome : Outcome (ListStore τ φ κ) τ φ α ω}
    (hready : world.board.Ready task (.waiter futex queue))
    (hnext : world.newWaiter task futex queue = some outcome) :
    world.board.Step task (.call (.waiter futex queue)) outcome.resp
      outcome.world.board := by
  have hphase : world.phase task = .idle ∨ world.phase task = .enter := by
    simp only [Board.Ready, board] at hready
    cases hphase : world.phase task <;> simp_all [Phase.stage]
  unfold World.newWaiter at hnext
  rw [if_pos hphase] at hnext
  cases hnext
  have hboard : World.board { world with
      store := FutexStore.renew world.store task queue
      owner := Function.update world.owner task futex
      waker := Function.update world.waker task .none
      phase := Function.update world.phase task .enter } =
      (((world.board.setStore (FutexStore.renew world.store task queue)).setOwner
        task futex).setStage task (.fresh futex)).setAwake task false := by
    simp only [board, Board.setStore, Board.setOwner, Board.setStage,
      Board.setAwake, Board.mk.injEq, true_and, and_true]
    constructor <;> funext other <;> by_cases hother : other = task <;>
      simp [hother, Phase.stage, WaiterWaker.isDone]
  rw [hboard]
  exact .waiter futex queue

theorem pollEnter_board (hinv : Inv world place) {task : τ} {futex : φ}
    {current : FutexAtom τ α} {new : α} {spurious : Bool} {waker : ω}
    {outcome : Outcome (ListStore τ φ κ) τ φ α ω}
    (hready : world.board.Ready task (.cmpxchgWaitWeak futex current new))
    (hnext : world.pollEnter task futex current new spurious waker =
      some outcome) :
    world.board.Step task (.call (.cmpxchgWaitWeak futex current new))
      outcome.resp outcome.world.board := by
  have hphase : world.phase task = .enter ∧ world.owner task = futex := by
    simp only [Board.Ready, board] at hready
    cases hphase : world.phase task <;> simp_all [Phase.stage]
  have hfresh := (hinv.task task).fresh hphase.1
  have hawake : world.board.awake task = false := by
    simp only [board]
    cases hwaker : world.waker task <;> simp_all [WaiterWaker.isDone]
  unfold World.pollEnter at hnext
  simp only [hphase, ne_eq, not_true_eq_false, if_false] at hnext
  have hsame : ∀ waker : ω, (world.setWaker task (.waiting waker)).board =
      world.board := fun waker => by
    rw [board_setWaker]
    exact Board.setAwake_self hawake
  have henter : ∀ world' : ListWorld τ φ κ α ω, world'.board = world.board →
      world.word futex = current →
      world.board.Step task (.call (.cmpxchgWaitWeak futex current new))
        (some .success)
        (({ (world'.setAtom futex new).setPhase task .entered with
          store := FutexStore.push world.store futex task } :
            ListWorld τ φ κ α ω).board) := by
    intro world' hboard hword
    subst hword
    have hentered : World.board { (world'.setAtom futex new).setPhase task .entered with
        store := FutexStore.push world.store futex task } =
        ((world.board.setAtom futex new).setStore
          (FutexStore.push world.store futex task)).setStage task .entered := by
      rw [← hboard, ← board_setAtom]
      exact congrArg (Board.setStore · _) (board_setPhase _ task .entered)
    rw [hentered]
    exact .cmpxchgWaitWeak futex new
  cases hold : world.waker task with
  | done => exact absurd hold hfresh
  | none =>
      simp only [hold] at hnext
      split at hnext
      case isTrue hword =>
        cases hnext
        exact henter _ (hsame waker) hword.1
      case isFalse =>
        cases hnext
        have hfails : ((world.setWaker task (.waiting waker)).setLastWaker task
            (some waker)).board = world.board := hsame waker
        exact hfails.symm ▸ .cmpxchgWaitWeakFails futex current new
  | waiting old =>
      simp only [hold] at hnext
      split at hnext <;> cases hnext
      case isTrue.refl hword => exact henter world rfl hword.1
      case isFalse.refl => exact .cmpxchgWaitWeakFails futex current new

omit [DecidableEq α] in
theorem pollWaiting_board (hinv : Inv world place) {task : τ} {newWaker : ω}
    {seen : WaiterWaker ω} {spurious : Bool}
    (hphase : world.phase task = .polling newWaker seen)
    {outcome : Outcome (ListStore τ φ κ) τ φ α ω}
    (hnext : world.pollWaiting task newWaker seen spurious = some outcome) :
    world.board.Step task .go outcome.resp outcome.world.board := by
  have hstage : world.board.stage task = .waiting := by
    simp [board, hphase, Phase.stage]
  obtain ⟨hseen, hdone⟩ := (hinv.task task).polling newWaker seen hphase
  cases seen with
  | none => exact absurd rfl hseen
  | waiting old =>
      simp only [World.pollWaiting] at hnext
      split at hnext
      case isTrue heq =>
        cases hnext
        have hawake : world.board.awake task = false := by
          simp [board, heq.1, WaiterWaker.isDone]
        have hsame : ((world.setWaker task (.waiting newWaker)).setPhase task
            .pending).board = world.board := by
          rw [board_setPhase, board_setWaker]
          simp only [WaiterWaker.isDone, Phase.stage]
          rw [Board.setAwake_self hawake, Board.setStage_self hstage]
        exact hsame.symm ▸ .silent
      case isFalse =>
        cases hnext
        have hsame : (world.setPhase task
            (.polling newWaker (world.waker task))).board = world.board :=
          board_setPhase_of_stage (by rw [hphase]; rfl)
        exact hsame.symm ▸ .silent
  | done =>
      cases hnext
      have hawake : world.board.awake task = true := by
        simp [board, hdone rfl, WaiterWaker.isDone]
      have hidle : (world.setPhase task .idle).board =
          world.board.setStage task .free := board_setPhase ..
      exact hidle.symm ▸ .ready hstage hawake

omit [DecidableEq ω] in
theorem dropStep_board (hinv : Inv world place) {task : τ} {spurious : Bool}
    {outcome : Outcome (ListStore τ φ κ) τ φ α ω}
    (hnext : world.dropStep task spurious = some outcome) :
    world.board.Step task .go outcome.resp outcome.world.board := by
  have htask := hinv.task task
  have hflip : ∀ owner current, (world.phase task).stage (world.owner task) =
      .dropping → (world.flipAt task owner current).board = world.board := by
    intro owner current hstage
    refine board_setPhase_of_stage ?_
    rw [hstage]
    split <;> rfl
  unfold World.dropStep at hnext
  split at hnext
  case h_1 owner hphase =>
    split at hnext
    case isFalse => cases hnext
    case isTrue hfree =>
      cases hnext
      have hsame : (world.setPhase task (.dropCheck owner)).board = world.board :=
        board_setPhase_of_stage (by rw [hphase]; rfl)
      exact hsame.symm ▸ .silent
  case h_2 owner hphase =>
    cases hnext
    have hsame : (world.setPhase task (if owner = world.owner task then
        .dropLoad owner else .dropRetry owner (world.owner task))).board =
        world.board :=
      board_setPhase_of_stage (by rw [hphase]; split <;> rfl)
    exact hsame.symm ▸ .silent
  case h_3 owner owner2 hphase =>
    cases hnext
    have hsame : (world.setPhase task (.dropLock owner2)).board = world.board :=
      board_setPhase_of_stage (by rw [hphase]; rfl)
    exact hsame.symm ▸ .silent
  case h_4 owner hphase =>
    cases hnext
    exact (hflip owner _ (by rw [hphase]; rfl)).symm ▸ .silent
  case h_5 owner current hphase =>
    have hstage : world.board.stage task = .dropping := by
      simp [board, hphase, Phase.stage]
    have hreaders : world.readers owner = ∅ := by
      refine hinv.excluded owner task ?_
      rw [hinv.writer, hphase]
      rfl
    split at hnext
    case isTrue =>
      rw [Option.map_eq_some_iff] at hnext
      obtain ⟨store, hstore, rfl⟩ := hnext
      cases hstore
      have hsame : (world.setPhase task (.dropCancel owner)).board = world.board :=
        board_setPhase_of_stage (by rw [hphase]; rfl)
      have hstep : world.board.Step task .go none (world.board.flip owner) :=
        .dropFlip owner hstage hreaders
      rw [← hsame] at hstep ⊢
      exact hstep
    case isFalse =>
      cases hnext
      exact (hflip owner _ (by rw [hphase]; rfl)).symm ▸ .silent
  case h_6 owner hphase =>
    have hstage : world.board.stage task = .dropping := by
      simp [board, hphase, Phase.stage]
    have hreaders : world.readers owner = ∅ := by
      refine hinv.excluded owner task ?_
      rw [hinv.writer, hphase]
      rfl
    cases hnext
    have hsame : (world.setPhase task (.dropUnlock owner)).board = world.board :=
      board_setPhase_of_stage (by rw [hphase]; rfl)
    have hcancelled : World.board { world.setPhase task (.dropUnlock owner) with
        store := FutexStore.cancel world.store owner task } =
        world.board.setStore (FutexStore.cancel world.store owner task) :=
      congrArg (Board.setStore · _) hsame
    rw [hcancelled]
    rcases hinv.place_of_cancel hphase with hnowhere | ⟨queue, hqueue⟩
    · have hnone : task ∉ world.store.queues owner (world.store.queue task) := by
        rw [hinv.places.queues, hnowhere]
        simp
      have hstore : FutexStore.cancel world.store owner task = world.store := by
        simp [FutexStore.cancel, ListStore.setQueue, List.erase_of_not_mem hnone]
      rw [hstore]
      exact .silent
    · have hindex := hinv.places.index owner queue task hqueue
      refine .dropCancel owner hstage hreaders ?_
      exact (hinv.places.queues owner _ task).mpr (hindex.symm ▸ hqueue)
  case h_7 owner hphase =>
    cases hnext
    have hsame : (world.setPhase task .dropFinish).board = world.board :=
      board_setPhase_of_stage (by rw [hphase]; rfl)
    exact hsame.symm ▸ .silent
  case h_8 hphase =>
    rw [hphase] at htask
    have hstage : world.board.stage task = .dropping := by
      simp [board, hphase, Phase.stage]
    have hnowhere : place task = .nowhere :=
      hinv.nowhere (by simp [hphase, Phase.Waits])
    have hidle : ((world.setWaker task .none).setPhase task .idle).board =
        (world.board.setStage task .free).setAwake task false := by
      rw [board_setPhase, board_setWaker]
      rfl
    split at hnext
    case h_1 hwaker => exact absurd hwaker (htask.registered trivial)
    case h_2 waker hwaker =>
      cases hnext
      have hawake : world.board.awake task = false := by
        simp [board, hwaker, WaiterWaker.isDone]
      have hsame : (world.board.setStage task .free).setAwake task false =
          world.board.setStage task .free := Board.setAwake_self hawake
      rw [hidle, hsame]
      have hplaces := hinv.places
      refine .cancelSleeping hstage hawake ?_ ?_ ?_ ?_
      · simp [hplaces.inbox, board, hnowhere]
      · simp [hplaces.queues, board, hnowhere]
      · simp [hplaces.list, board, hnowhere]
      · simp [hplaces.hand, board, hnowhere]
    case h_3 hwaker =>
      cases hnext
      have hawake : world.board.awake task = true := by
        simp [board, hwaker, WaiterWaker.isDone]
      exact hidle.symm ▸ .cancelWoken hstage hawake
  case h_9 => cases hnext

omit [DecidableEq α] [DecidableEq ω] in
/-- `requeue` stores the owner of the next waiter. -/
theorem storeOwner_board (hinv : Inv world place) {task waiter : τ} {futex : φ}
    (hbusy : world.busy task = .requeueStore futex (some waiter)) :
    waiter ∈ world.store.list task ∧
      World.board { world.setBusy task (.requeueStore futex
          (FutexStore.listNext world.store task waiter)) with
        owner := Function.update world.owner waiter futex } =
        world.board.setOwner waiter futex := by
  obtain ⟨-, -, stored, rest, hlist, hhead, -⟩ := hinv.storing task futex _ hbusy
  have hmem : waiter ∈ world.store.list task := by
    rw [hlist]
    exact List.mem_append_right _ (List.mem_of_mem_head? hhead)
  have hplace := (hinv.places.list task waiter).mp hmem
  have hwaits := (hinv.task waiter).waits (by simp [hplace])
  refine ⟨hmem, ?_⟩
  simp only [board, World.setBusy, Board.setOwner, Board.mk.injEq, true_and]
  constructor
  · funext other
    by_cases hother : other = waiter
    · subst hother
      cases hphase : world.phase other <;>
        simp_all [Phase.Waits, Phase.stage]
    · simp [hother]
  · funext other
    by_cases hother : other = task
    · subst hother
      simp [hbusy, Busy.activity]
    · simp [hother]

theorem busyStep_board (hinv : Inv world place) {task : τ} {spurious : Bool}
    {outcome : Outcome (ListStore τ φ κ) τ φ α ω}
    (hnext : world.busyStep task spurious = some outcome) :
    world.board.Step task .go outcome.resp outcome.world.board := by
  unfold World.busyStep at hnext
  split at hnext
  case h_1 => cases hnext
  case h_2 waiter waker hbusy =>
    cases hnext
    have hactivity : world.board.activity task = .waking := by
      simp [board, hbusy, Busy.activity]
    have hdone : ((if world.lastWaker waiter = some waker then
        world.setLastWaker waiter none else world).setBusy task .none).board =
        world.board.setActivity task .none := by
      rw [board_setBusy]
      split <;> rfl
    exact hdone.symm ▸ .wakeDone hactivity
  case h_3 futex waiter hbusy =>
    cases hnext
    obtain ⟨hmem, hsame⟩ := hinv.storeOwner_board hbusy
    have hactivity : world.board.activity task = .requeueing futex := by
      simp [board, hbusy, Busy.activity]
    exact hsame.symm ▸ .requeueStore futex waiter hmem hactivity
  case h_4 futex hbusy =>
    cases hnext
    have hsame : (world.setBusy task (.requeueLink futex (world.word futex))).board =
        world.board := board_setBusy_of_activity (by rw [hbusy]; rfl)
    exact hsame.symm ▸ .silent
  case h_5 futex current hbusy =>
    have hactivity : world.board.activity task = .requeueing futex := by
      simp [board, hbusy, Busy.activity]
    obtain ⟨-, hlist, howner⟩ := hinv.linking task futex current hbusy
    split at hnext
    case isTrue =>
      cases hnext
      have hdone : World.board { (world.setBusy task .none) with
          store := FutexStore.listPush world.store futex task } =
          (world.board.setStore (FutexStore.listPush world.store futex task)).setActivity
            task .none :=
        congrArg (Board.setStore · _) (board_setBusy world task .none)
      exact hdone.symm ▸ .requeueDone futex hlist hactivity howner
    case isFalse =>
      cases hnext
      have hsame : (world.setBusy task (.requeueLink futex (world.word futex))).board =
          world.board := board_setBusy_of_activity (by rw [hbusy]; rfl)
      exact hsame.symm ▸ .silent

theorem call_board (hinv : Inv world place) {task : τ} {op : Op τ φ κ α}
    {spurious : Bool} {waker : ω}
    {outcome : Outcome (ListStore τ φ κ) τ φ α ω}
    (hready : world.board.Ready task op)
    (hnext : world.call task op spurious waker = some outcome) :
    world.board.Step task (.call op) outcome.resp outcome.world.board := by
  cases op with
  | waiter futex queue => exact newWaiter_board hready hnext
  | load futex =>
      cases hnext
      exact .load futex
  | cmpxchgWeak futex current new =>
      simp only [World.call, World.cmpxchgWeak] at hnext
      split at hnext
      case isTrue hword =>
        cases hnext
        obtain ⟨rfl, -⟩ := hword
        exact .cmpxchgWeak futex new
      case isFalse =>
        cases hnext
        exact .cmpxchgWeakFails futex current new
  | cmpxchgWaitWeak futex current new => exact hinv.pollEnter_board hready hnext
  | pending =>
      have hphase : world.phase task = .entered := by
        simp only [Board.Ready, board] at hready
        cases hphase : world.phase task <;> simp_all [Phase.stage]
      simp only [World.call, if_pos hphase] at hnext
      cases hnext
      have hpending : (world.setPhase task .pending).board =
          world.board.setStage task .waiting := board_setPhase ..
      exact hpending.symm ▸ .pending
  | lock futex =>
      have hread : task ∉ world.readers futex := hready
      simp only [World.call, World.lock, if_neg hread] at hnext
      split at hnext <;> cases hnext
      exact .lock futex
  | unlock futex =>
      obtain ⟨hread, hborrow, hhandle, hlist⟩ := hready
      have hempty : FutexStore.listEmpty world.store task = true :=
        List.isEmpty_iff.mpr hlist
      simp only [World.call, World.unlock, hempty] at hnext
      rw [if_pos ⟨hread, hborrow, hhandle, trivial⟩] at hnext
      cases hnext
      exact .unlock futex
  | borrow futex =>
      obtain ⟨hread, hborrow⟩ := hready
      have hread' : ¬ task ∉ world.readers futex := not_not.mpr hread
      have hfree : world.borrowed futex = none := hborrow
      simp only [World.call, World.borrow, if_neg hread', if_pos hfree] at hnext
      cases hnext
      exact .borrow futex
  | release futex =>
      have hborrow : world.borrowed futex = some task := hready
      simp only [World.call, World.release, if_pos hborrow] at hnext
      cases hnext
      exact .release futex
  | cmpxchgEnqueueWeak futex current new =>
      have hborrow : world.borrowed futex = some task := hready
      simp only [World.call, World.cmpxchgEnqueueWeak, ne_eq, hborrow,
        not_true_eq_false, if_false] at hnext
      split at hnext
      case isTrue hword =>
        rw [Option.map_eq_some_iff] at hnext
        obtain ⟨store, hstore, rfl⟩ := hnext
        cases hstore
        obtain ⟨rfl, -⟩ := hword
        exact .cmpxchgEnqueueWeak futex new
      case isFalse =>
        cases hnext
        exact .cmpxchgEnqueueWeakFails futex current new
  | isEmpty futex queue =>
      have hborrow : world.borrowed futex = some task := hready
      simp only [World.call, World.isEmpty, if_pos hborrow] at hnext
      cases hnext
      exact .isEmpty futex queue
  | pop futex queue =>
      have hguard : world.borrowed futex = some task ∧ world.handle task = none :=
        hready
      simp only [World.call, World.pop, if_pos hguard] at hnext
      cases hnext
      exact .pop futex queue
  | popMany futex count queue =>
      obtain ⟨hborrow, hlist⟩ := hready
      have hempty : FutexStore.listEmpty world.store task = true :=
        List.isEmpty_iff.mpr hlist
      simp only [World.call, World.popMany] at hnext
      rw [if_pos ⟨hborrow, hempty⟩] at hnext
      cases hnext
      exact .popMany futex count queue
  | count =>
      cases hnext
      exact .count
  | next =>
      have hhandle : world.handle task = none := hready
      simp only [World.call, World.next, if_pos hhandle] at hnext
      cases hnext
      exact .next
  | wake =>
      have hhandle : world.handle task ≠ none := hready
      obtain ⟨waiter, hwaiter⟩ := Option.ne_none_iff_exists'.mp hhandle
      obtain ⟨waker, hwaker⟩ := hinv.asleep_of_handle hwaiter
      simp only [World.call, World.wake, hwaiter, hwaker] at hnext
      cases hnext
      have hwoken : (((world.setWaker waiter .done).setHandle task none).setBusy
          task (.waking waiter waker)).board =
          ((world.board.setAwake waiter true).setHandle task none).setActivity
            task .waking := by
        rw [board_setBusy, board_setHandle, board_setWaker]
        rfl
      exact hwoken.symm ▸ .wake waiter hwaiter
  | requeue futex =>
      have hread : ¬ task ∉ world.readers futex := not_not.mpr hready
      simp only [World.call, World.requeue, if_neg hread] at hnext
      split at hnext
      case isTrue hempty =>
        cases hnext
        exact .requeueNone futex (List.isEmpty_iff.mp hempty)
      case isFalse hempty =>
        cases hnext
        have hlist : world.store.list task ≠ [] := fun hnil =>
          hempty (List.isEmpty_iff.mpr hnil)
        have hboard : (world.setBusy task (.requeueStore futex
            (FutexStore.listHead world.store task))).board =
            world.board.setActivity task (.requeueing futex) := board_setBusy ..
        exact hboard.symm ▸ .requeue futex hlist

/-- The input of a step. -/
def input : Act τ φ κ α ω → Board.Input τ φ κ α
  | .call op _ _ => .call op
  | .drop => .drop
  | _ => .go

theorem step_board (hinv : Inv world place) {task : τ} {act : Act τ φ κ α ω}
    {outcome : Outcome (ListStore τ φ κ) τ φ α ω}
    (hready : ∀ op spurious waker, act = .call op spurious waker →
      world.board.Ready task op)
    (hnext : world.step task act = some outcome) :
    world.board.Step task (input act) outcome.resp outcome.world.board := by
  cases act with
  | call op spurious waker =>
      simp only [World.step] at hnext
      split at hnext
      case isTrue => exact hinv.call_board (hready op spurious waker rfl) hnext
      case isFalse => cases hnext
  | poll waker =>
      simp only [World.step, World.poll] at hnext
      split at hnext <;> cases hnext
      case isTrue.refl hphase =>
        have hsame : (world.setPhase task
            (.polling waker (world.waker task))).board = world.board :=
          board_setPhase_of_stage (by rw [hphase.1]; rfl)
        exact hsame.symm ▸ .silent
  | drop =>
      simp only [World.step, World.drop] at hnext
      split at hnext <;> cases hnext
      case isTrue.refl hphase =>
        have hstage : world.board.stage task = .waiting := by
          simp [board, hphase.1, Phase.stage]
        have hdrop : (world.setPhase task (.dropLock (world.owner task))).board =
            world.board.setStage task .dropping := board_setPhase ..
        exact hdrop.symm ▸ .drop hstage
  | step spurious =>
      simp only [World.step] at hnext
      split at hnext
      case isTrue => exact hinv.busyStep_board hnext
      case isFalse =>
        split at hnext
        case h_1 newWaker seen hphase => exact hinv.pollWaiting_board hphase hnext
        case h_2 => exact hinv.dropStep_board hnext

end Inv

end World

end AsyncMutex
