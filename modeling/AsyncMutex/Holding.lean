import AsyncMutex.Client

/-!
# What a task holds

The guards, borrows, handles and the waiter that the code of a task holds at a
program point are the same in every run.  With them, each operation is neither
misused nor panics, apart from `borrow_mut`.
-/

namespace AsyncMutex

/-- What the code of a task knows of its waiter: nothing, a new waiter, or a
future that waits on it. -/
inductive Slot (φ κ : Type) where
  | free
  | fresh (futex : φ) (queue : κ)
  | entered (queue : κ)
  | waiting (queue : κ)

/-- The responses of an operation that does not panic. -/
def Op.Answers {τ φ κ α : Type} (op : Op τ φ κ α) (resp : Resp τ α) : Prop :=
  match op with
  | .load _ => ∃ current, resp = .atom current
  | .cmpxchgWeak _ _ _ => resp = .success ∨ ∃ current, resp = .failure current
  | .cmpxchgWaitWeak _ _ _ => resp = .success ∨ ∃ current, resp = .failure current
  | .cmpxchgEnqueueWeak _ _ _ =>
      resp = .success ∨ ∃ current, resp = .failure current
  | .isEmpty _ _ => ∃ value, resp = .bool value
  | .pop _ _ => ∃ waiter, resp = .handle waiter
  | .next => ∃ waiter, resp = .handle waiter
  | .count => ∃ value, resp = .count value
  | _ => resp = .unit

/-- What a task holds at a program point. -/
structure Holding (φ κ : Type) where
  slot : Slot φ κ := .free
  /-- The futexes whose `FutexWaitersGuard` it holds. -/
  reads : List φ := []
  /-- The futex whose `FutexQueueGuard` it holds. -/
  borrow : Option φ := none
  /-- It holds a `WaiterHandle`. -/
  hand : Bool := false
  /-- It may hold a `WaiterHandleList` that is not empty. -/
  list : Bool := false

namespace Slot

variable {φ κ : Type}

def Fits (slot : Slot φ κ) (stage : Stage φ) (queue : κ) : Prop :=
  match slot with
  | .free => stage = .free ∨ ∃ futex, stage = .fresh futex
  | .fresh futex queue' => stage = .fresh futex ∧ queue = queue'
  | .entered queue' => stage = .entered ∧ queue = queue'
  | .waiting queue' => (stage = .waiting ∨ stage = .dropping) ∧ queue = queue'

def enter : Slot φ κ → Slot φ κ
  | .fresh _ queue => .entered queue
  | slot => slot

def wait : Slot φ κ → Slot φ κ
  | .entered queue => .waiting queue
  | slot => slot

/-- The code will not use its new waiter any more. -/
def forget : Slot φ κ → Slot φ κ
  | .fresh _ _ => .free
  | slot => slot

end Slot

namespace Holding

variable {τ φ κ α : Type} [DecidableEq φ]

/-- The operations that are no misuse and panic at most in `borrow_mut`. -/
def Allows (holding : Holding φ κ) : Op τ φ κ α → Prop
  | .waiter _ _ =>
      holding.slot = .free ∨ ∃ futex queue, holding.slot = .fresh futex queue
  | .cmpxchgWaitWeak futex _ _ => ∃ queue, holding.slot = .fresh futex queue
  | .pending => ∃ queue, holding.slot = .entered queue
  | .lock futex => futex ∉ holding.reads
  | .unlock futex =>
      futex ∈ holding.reads ∧ holding.borrow ≠ some futex ∧
        holding.hand = false ∧ holding.list = false
  | .borrow futex => futex ∈ holding.reads ∧ holding.borrow = none
  | .release futex => holding.borrow = some futex
  | .cmpxchgEnqueueWeak futex _ _ => holding.borrow = some futex
  | .isEmpty futex _ => holding.borrow = some futex
  | .pop futex _ => holding.borrow = some futex ∧ holding.hand = false
  | .popMany futex _ _ => holding.borrow = some futex ∧ holding.list = false
  | .next => holding.hand = false
  | .wake => holding.hand = true
  | .requeue futex => futex ∈ holding.reads ∧ holding.hand = false
  | _ => True

def after (holding : Holding φ κ) (op : Op τ φ κ α) (resp : Resp τ α) :
    Holding φ κ :=
  match op, resp with
  | .waiter futex queue, _ => { holding with slot := .fresh futex queue }
  | .cmpxchgWaitWeak _ _ _, .success => { holding with slot := holding.slot.enter }
  | .pending, _ => { holding with slot := holding.slot.wait }
  | .lock futex, _ => { holding with reads := futex :: holding.reads }
  | .unlock futex, _ =>
      { holding with reads := holding.reads.filter fun other => other ≠ futex }
  | .borrow futex, _ => { holding with borrow := some futex }
  | .release _, _ => { holding with borrow := none }
  | .pop _ _, .handle waiter => { holding with hand := waiter.isSome }
  | .popMany _ _ _, _ => { holding with list := true }
  | .next, .handle waiter =>
      { holding with hand := waiter.isSome, list := holding.list && waiter.isSome }
  | .wake, _ => { holding with hand := false }
  | .requeue _, _ => { holding with list := false }
  | _, _ => holding

def forget (holding : Holding φ κ) : Holding φ κ :=
  { holding with slot := holding.slot.forget }

end Holding

/-- The board agrees with what the task holds. -/
structure Holding.Fits {τ φ κ α : Type} (holding : Holding φ κ)
    (board : Board τ φ κ α) (code : Code τ φ κ α) (task : τ) : Prop where
  slot : holding.slot.Fits (board.stage task) (board.store.queue task)
  reads : ∀ futex, task ∈ board.readers futex ↔ futex ∈ holding.reads
  borrow : ∀ futex, board.borrowed futex = some task ↔ holding.borrow = some futex
  hand : board.activity task = .none → (board.handle task).isSome = holding.hand
  busy : board.activity task ≠ .none → board.handle task = none
  list : holding.list = false → board.store.list task = []
  waking : board.activity task = .waking → code = .call .wake
  requeueing : ∀ futex, board.activity task = .requeueing futex →
    code = .call (.requeue futex)

namespace Holding.Fits

variable {τ φ κ α : Type}
  {holding : Holding φ κ} {board board' : Board τ φ κ α} {code : Code τ φ κ α}
  {task : τ}

theorem ready {op : Op τ φ κ α} (hfits : holding.Fits board code task)
    (hactivity : board.activity task = .none) (hallows : holding.Allows op)
    (hborrow : ∀ futex, op = .borrow futex → board.borrowed futex = none) :
    board.Ready task op := by
  obtain ⟨hslot, hreads, hborrowed, hhand, -, hlist, -, -⟩ := hfits
  have hhandle := hhand hactivity
  cases op with
  | waiter futex queue =>
      rcases hallows with hfree | ⟨futex', queue', hfresh⟩
      · rw [hfree] at hslot
        exact hslot
      · rw [hfresh] at hslot
        exact Or.inr ⟨futex', hslot.1⟩
  | cmpxchgWaitWeak futex current new =>
      obtain ⟨queue, hfresh⟩ := hallows
      rw [hfresh] at hslot
      exact hslot.1
  | pending =>
      obtain ⟨queue, hentered⟩ := hallows
      rw [hentered] at hslot
      exact hslot.1
  | lock futex => exact fun hread => hallows ((hreads futex).mp hread)
  | unlock futex =>
      obtain ⟨hread, hborrow', hhand', hlist'⟩ := hallows
      refine ⟨(hreads futex).mpr hread, ?_, ?_, hlist hlist'⟩
      · rw [Ne, hborrowed]
        exact hborrow'
      · simpa [hhand'] using hhandle
  | borrow futex => exact ⟨(hreads futex).mpr hallows.1, hborrow futex rfl⟩
  | release futex => exact (hborrowed futex).mpr hallows
  | cmpxchgEnqueueWeak futex current new => exact (hborrowed futex).mpr hallows
  | isEmpty futex queue => exact (hborrowed futex).mpr hallows
  | pop futex queue =>
      refine ⟨(hborrowed futex).mpr hallows.1, ?_⟩
      simpa [hallows.2] using hhandle
  | popMany futex count queue =>
      exact ⟨(hborrowed futex).mpr hallows.1, hlist hallows.2⟩
  | next =>
      have hhand' : holding.hand = false := hallows
      simpa [Board.Ready, hhand'] using hhandle
  | wake =>
      have hhand' : holding.hand = true := hallows
      rw [hhand', Option.isSome_iff_ne_none] at hhandle
      exact hhandle
  | requeue futex => exact (hreads futex).mpr hallows.1
  | load futex => trivial
  | cmpxchgWeak futex current new => trivial
  | count => trivial

variable [DecidableEq τ] [DecidableEq φ] [DecidableEq κ]

/-- An operation of the task that answers at once. -/
theorem call {op : Op τ φ κ α} {resp : Resp τ α}
    (hfits : holding.Fits board code task)
    (hactivity : board.activity task = .none) (hallows : holding.Allows op)
    (hstep : board.Step task (.call op) (some resp) board')
    (code' : Code τ φ κ α) : (holding.after op resp).Fits board' code' task := by
  obtain ⟨hslot, hreads, hborrowed, hhand, -, hlist, -, -⟩ := hfits
  have hhandle := hhand hactivity
  have hidle : board'.activity = board.activity := by cases hstep <;> rfl
  have hsame : ∀ holding' : Holding φ κ,
      holding'.slot.Fits (board'.stage task) (board'.store.queue task) →
      (∀ futex, task ∈ board'.readers futex ↔ futex ∈ holding'.reads) →
      (∀ futex, board'.borrowed futex = some task ↔ holding'.borrow = some futex) →
      (board'.handle task).isSome = holding'.hand →
      (holding'.list = false → board'.store.list task = []) →
      holding'.Fits board' code' task := by
    intro holding' hslot' hreads' hborrowed' hhand' hlist'
    rw [← congrFun hidle task] at hactivity
    exact ⟨hslot', hreads', hborrowed', fun _ => hhand',
      fun hbusy => absurd hactivity hbusy, hlist', by simp [hactivity],
      by simp [hactivity]⟩
  cases hstep <;> refine hsame _ ?_ ?_ ?_ ?_ ?_ <;>
    simp only [Holding.after, Board.setStore, Board.setStage, Board.setAwake,
      Board.setAtom, Board.setOwner, Board.setReaders, Board.setBorrowed, Board.setHandle,
      Board.flip, FutexStore.renew, FutexStore.push, FutexStore.popMany,
      FutexStore.listPop, ListStore.setQueue, Function.update_self] <;>
    try assumption
  case waiter.refine_1 => exact ⟨rfl, rfl⟩
  case cmpxchgWaitWeak.refine_1 =>
    obtain ⟨queue, hfresh⟩ := hallows
    rw [hfresh] at hslot ⊢
    exact ⟨rfl, hslot.2⟩
  case pending.refine_1 =>
    obtain ⟨queue, hentered⟩ := hallows
    rw [hentered] at hslot ⊢
    exact ⟨Or.inl rfl, hslot.2⟩
  case lock.refine_2 =>
    intro futex
    rw [Function.update_apply]
    split
    case isTrue heq => simp [heq]
    case isFalse hne => simp [hreads, hne]
  case unlock.refine_2 =>
    intro futex
    rw [Function.update_apply]
    split
    case isTrue heq => simp [heq]
    case isFalse hne => simp [hreads, hne]
  case borrow.refine_3 =>
    intro futex
    rw [Function.update_apply]
    split
    case isTrue heq => simp [heq]
    case isFalse hne => simp [hborrowed, hallows.2, Ne.symm hne]
  case release.refine_3 =>
    have hheld : holding.borrow = some _ := hallows
    intro futex
    rw [Function.update_apply]
    split
    case isTrue heq => simp
    case isFalse hne => simp [hborrowed, hheld, Ne.symm hne]
  case popMany.refine_5 => simp
  case next.refine_5 =>
    intro hnone
    cases hcase : holding.list with
    | false => simp [hlist hcase]
    | true =>
        rw [hcase] at hnone
        have hnil : board.store.list task = [] := by simpa using hnone
        simp [hnil]
  case requeueNone.refine_5 hnil => exact fun _ => hnil

/-- A step of the task that does not answer. -/
theorem quiet {input : Board.Input τ φ κ α} (hfits : holding.Fits board code task)
    (hinput : ∀ op, input = .call op →
      code = .call op ∧ board.activity task = .none ∧ holding.Allows op)
    (hstep : board.Step task input none board') :
    holding.Fits board' code task := by
  have hfits' := hfits
  obtain ⟨hslot, hreads, hborrowed, hhand, hbusy, hlist, hwaking, hrequeueing⟩ := hfits
  cases hstep with
  | wake waiter hhandle =>
      obtain ⟨hcode, -, -⟩ := hinput _ rfl
      refine ⟨hslot, hreads, hborrowed, ?_, ?_, hlist, fun _ => hcode, ?_⟩ <;>
        simp [Board.setAwake, Board.setHandle, Board.setActivity]
  | requeue futex hnonempty =>
      obtain ⟨hcode, hactivity, hread, hhand'⟩ := hinput _ rfl
      have hnone : board.handle task = none := by
        simpa [hhand'] using hhand hactivity
      refine ⟨hslot, hreads, hborrowed, ?_, fun _ => hnone, hlist, ?_, ?_⟩ <;>
        simp [Board.setActivity, hcode]
  | silent => exact hfits'
  | requeueStore futex waiter =>
      exact ⟨hslot, hreads, hborrowed, hhand, hbusy, hlist, hwaking, hrequeueing⟩
  | drop hstage =>
      refine ⟨?_, hreads, hborrowed, hhand, hbusy, hlist, hwaking, hrequeueing⟩
      simp only [Board.setStage, Function.update_self]
      cases hcase : holding.slot <;>
        simp_all [Slot.Fits]
  | dropFlip futex => 
      exact ⟨hslot, hreads, hborrowed, hhand, hbusy, hlist, hwaking, hrequeueing⟩
  | dropCancel futex =>
      exact ⟨hslot, hreads, hborrowed, hhand, hbusy, hlist, hwaking, hrequeueing⟩

/-- A step of another task. -/
theorem other {input : Board.Input τ φ κ α} {resp : Option (Resp τ α)} {actor : τ}
    (hfits : holding.Fits board code task) (hne : task ≠ actor)
    (hready : ∀ op, input = .call op → board.Ready actor op)
    (hstep : board.Step actor input resp board') :
    holding.Fits board' code task := by
  obtain ⟨hslot, hreads, hborrowed, hhand, hbusy, hlist, hwaking, hrequeueing⟩ := hfits
  have hstage' : board'.stage task = board.stage task := by
    cases hstep <;> first | rfl | exact Function.update_of_ne hne _ _
  have hqueue' : board'.store.queue task = board.store.queue task := by
    cases hstep <;> first | rfl | exact Function.update_of_ne hne _ _
  have hhandle' : board'.handle task = board.handle task := by
    cases hstep <;> first | rfl | exact Function.update_of_ne hne _ _
  have hlist' : board'.store.list task = board.store.list task := by
    cases hstep <;> first | rfl | exact Function.update_of_ne hne _ _
  have hactivity' : board'.activity task = board.activity task := by
    cases hstep <;> first | rfl | exact Function.update_of_ne hne _ _
  have hreads' : ∀ futex, task ∈ board'.readers futex ↔ task ∈ board.readers futex := by
    intro futex
    cases hstep with
    | lock other =>
        simp only [Board.setReaders, Function.update_apply]
        split
        case isTrue heq => simp [heq, hne]
        case isFalse => rfl
    | unlock other =>
        simp only [Board.setReaders, Function.update_apply]
        split
        case isTrue heq => simp [heq, hne]
        case isFalse => rfl
    | _ => rfl
  have hborrowed' : ∀ futex,
      board'.borrowed futex = some task ↔ board.borrowed futex = some task := by
    intro futex
    cases hstep with
    | borrow other =>
        have hfree : board.borrowed other = none := (hready _ rfl).2
        simp only [Board.setBorrowed, Function.update_apply]
        split
        case isTrue heq => simp [heq, hfree, Ne.symm hne]
        case isFalse => rfl
    | release other =>
        have hheld : board.borrowed other = some actor := hready _ rfl
        simp only [Board.setBorrowed, Function.update_apply]
        split
        case isTrue heq => simp [heq, hheld, Ne.symm hne]
        case isFalse => rfl
    | _ => rfl
  refine ⟨?_, fun futex => (hreads' futex).trans (hreads futex),
    fun futex => (hborrowed' futex).trans (hborrowed futex), ?_, ?_, ?_, ?_, ?_⟩
  · rw [hstage', hqueue']
    exact hslot
  · rw [hactivity', hhandle']
    exact hhand
  · rw [hactivity', hhandle']
    exact hbusy
  · rw [hlist']
    exact hlist
  · rw [hactivity']
    exact hwaking
  · rw [hactivity']
    exact hrequeueing

omit [DecidableEq τ] [DecidableEq φ] [DecidableEq κ] in
theorem handle_eq_none (hfits : holding.Fits board code task)
    (hhand : holding.hand = false) : board.handle task = none := by
  by_cases hactivity : board.activity task = .none
  · simpa [hhand] using hfits.hand hactivity
  · exact hfits.busy hactivity

omit [DecidableEq τ] [DecidableEq φ] [DecidableEq κ] in
theorem forget (hfits : holding.Fits board code task) :
    holding.forget.Fits board code task := by
  refine { hfits with slot := ?_ }
  have hslot := hfits.slot
  simp only [Holding.forget]
  cases hcase : holding.slot with
  | fresh futex queue =>
      rw [hcase] at hslot
      exact Or.inr ⟨futex, hslot.1⟩
  | _ =>
      rw [hcase] at hslot
      exact hslot

omit [DecidableEq τ] [DecidableEq φ] [DecidableEq κ] in
theorem slot_of_stage (hfits : holding.Fits board code task)
    (hstage : board.stage task = .waiting ∨ board.stage task = .dropping) :
    ∃ queue, holding.slot = .waiting queue := by
  have hslot := hfits.slot
  cases hcase : holding.slot with
  | waiting queue => exact ⟨queue, rfl⟩
  | free => rcases hstage with h | h <;> simp [hcase, h, Slot.Fits] at hslot
  | fresh futex queue =>
      rcases hstage with h | h <;> simp [hcase, h, Slot.Fits] at hslot
  | entered queue => rcases hstage with h | h <;> simp [hcase, h, Slot.Fits] at hslot

omit [DecidableEq τ] [DecidableEq φ] [DecidableEq κ] in
/-- The future of the task ends. -/
theorem free (hfits : holding.Fits board code task) (hrest : code = .rest)
    (board' : Board τ φ κ α) (hstage : board'.stage task = .free)
    (hreads : board'.readers = board.readers)
    (hborrowed : board'.borrowed = board.borrowed)
    (hhandle : board'.handle = board.handle)
    (hactivity : board'.activity = board.activity)
    (hlist : board'.store.list = board.store.list) (code' : Code τ φ κ α) :
    ({ holding with slot := .free }).Fits board' code' task := by
  have hnone : board.activity task = .none := by
    cases hcase : board.activity task with
    | none => rfl
    | waking =>
        have hcode := hfits.waking hcase
        rw [hrest] at hcode
        cases hcode
    | requeueing futex =>
        have hcode := hfits.requeueing futex hcase
        rw [hrest] at hcode
        cases hcode
  refine ⟨Or.inl hstage, hreads ▸ hfits.reads, hborrowed ▸ hfits.borrow, ?_, ?_,
    hlist ▸ hfits.list, ?_, ?_⟩
  · rw [hactivity, hhandle]
    exact hfits.hand
  · rw [hactivity, hhandle]
    exact hfits.busy
  · simp [hactivity, hnone]
  · simp [hactivity, hnone]

/-- The end of a longer operation, or of a poll or drop. -/
theorem answer {resp : Resp τ α} (hfits : holding.Fits board code task)
    (hallows : ∀ op, code = .call op → holding.Allows op)
    (hwaiting : ∀ queue, holding.slot = .waiting queue → code = .rest)
    (hstep : board.Step task .go (some resp) board') (code' : Code τ φ κ α) :
    (∃ op, code = .call op ∧ op.Answers resp ∧
        (holding.after op resp).Fits board' code' task) ∨
      (resp = .ready ∨ resp = .cancelWoken ∨ resp = .cancelSleeping) ∧
        (∃ queue, holding.slot = .waiting queue) ∧
        ({ holding with slot := .free }).Fits board' code' task := by
  cases hstep with
  | wakeDone hactivity =>
      have hnone := hfits.busy (by simp [hactivity])
      refine Or.inl ⟨.wake, hfits.waking hactivity, rfl, hfits.slot, hfits.reads,
        hfits.borrow, ?_, ?_, hfits.list, ?_, ?_⟩ <;>
        simp [Board.setActivity, Holding.after, hnone]
  | requeueDone futex hlist hactivity howner =>
      have hnone := hfits.busy (by simp [hactivity])
      have hcode := hfits.requeueing futex hactivity
      have hhand : holding.hand = false := (hallows _ hcode).2
      refine Or.inl ⟨.requeue futex, hcode, rfl, hfits.slot, hfits.reads,
        hfits.borrow, ?_, ?_, ?_, ?_, ?_⟩ <;>
        simp [Board.setActivity, Board.setStore, Holding.after, hnone, hhand,
          FutexStore.listPush]
  | ready hstage hawake =>
      obtain ⟨queue, hslot⟩ := hfits.slot_of_stage (Or.inl hstage)
      have hstage' : (board.setStage task .free).stage task = .free := by
        simp [Board.setStage]
      exact Or.inr ⟨Or.inl rfl, ⟨queue, hslot⟩,
        hfits.free (hwaiting queue hslot) _ hstage' rfl rfl rfl rfl rfl code'⟩
  | cancelWoken hstage hawake =>
      obtain ⟨queue, hslot⟩ := hfits.slot_of_stage (Or.inr hstage)
      have hstage' : ((board.setStage task .free).setAwake task false).stage task =
          .free := by
        simp [Board.setStage, Board.setAwake]
      exact Or.inr ⟨Or.inr (Or.inl rfl), ⟨queue, hslot⟩,
        hfits.free (hwaiting queue hslot) _ hstage' rfl rfl rfl rfl rfl code'⟩
  | cancelSleeping hstage hawake =>
      obtain ⟨queue, hslot⟩ := hfits.slot_of_stage (Or.inr hstage)
      have hstage' : (board.setStage task .free).stage task = .free := by
        simp [Board.setStage]
      exact Or.inr ⟨Or.inr (Or.inr rfl), ⟨queue, hslot⟩,
        hfits.free (hwaiting queue hslot) _ hstage' rfl rfl rfl rfl rfl code'⟩

end Holding.Fits

end AsyncMutex
