import AsyncMutex.Verified

/-!
# What a part of the tasks sees of a board

Several programs may run beside each other on one world of futexes.  A window
shows some of the futexes, under names of their own, and some of the tasks.
When no waiter of the one side is in a list of the other, a step of a task
inside is a step on what the window shows, and a step of a task outside
changes nothing there.
-/

namespace AsyncMutex

variable {τ φ φ' κ α : Type}

/-! ## Other names for the futexes -/

def Op.rename (name : φ → φ') : Op τ φ κ α → Op τ φ' κ α
  | .waiter futex queue => .waiter (name futex) queue
  | .load futex => .load (name futex)
  | .cmpxchgWeak futex current new => .cmpxchgWeak (name futex) current new
  | .cmpxchgWaitWeak futex current new => .cmpxchgWaitWeak (name futex) current new
  | .pending => .pending
  | .lock futex => .lock (name futex)
  | .unlock futex => .unlock (name futex)
  | .borrow futex => .borrow (name futex)
  | .release futex => .release (name futex)
  | .cmpxchgEnqueueWeak futex current new => .cmpxchgEnqueueWeak (name futex) current new
  | .isEmpty futex queue => .isEmpty (name futex) queue
  | .pop futex queue => .pop (name futex) queue
  | .popMany futex many queue => .popMany (name futex) many queue
  | .count => .count
  | .next => .next
  | .wake => .wake
  | .requeue futex => .requeue (name futex)

/-- The futex whose word, locks or lists an operation uses. -/
def Op.futex : Op τ φ κ α → Option φ
  | .load futex => some futex
  | .cmpxchgWeak futex _ _ => some futex
  | .cmpxchgWaitWeak futex _ _ => some futex
  | .lock futex => some futex
  | .unlock futex => some futex
  | .borrow futex => some futex
  | .release futex => some futex
  | .cmpxchgEnqueueWeak futex _ _ => some futex
  | .isEmpty futex _ => some futex
  | .pop futex _ => some futex
  | .popMany futex _ _ => some futex
  | .requeue futex => some futex
  | _ => none

def Board.Input.rename (name : φ → φ') : Board.Input τ φ κ α → Board.Input τ φ' κ α
  | .call op => .call (op.rename name)
  | .drop => .drop
  | .go => .go

def Code.rename (name : φ → φ') : Code τ φ κ α → Code τ φ' κ α
  | .rest => .rest
  | .call op => .call (op.rename name)
  | .own => .own

def Slot.rename (name : φ → φ') : Slot φ κ → Slot φ' κ
  | .free => .free
  | .fresh futex queue => .fresh (name futex) queue
  | .entered queue => .entered queue
  | .waiting queue => .waiting queue

def Holding.rename (name : φ → φ') (holding : Holding φ κ) : Holding φ' κ where
  slot := holding.slot.rename name
  reads := holding.reads.map name
  borrow := holding.borrow.map name
  hand := holding.hand
  list := holding.list

def Stage.rename (name : φ → φ') : Stage φ → Stage φ'
  | .free => .free
  | .fresh futex => .fresh (name futex)
  | .entered => .entered
  | .waiting => .waiting
  | .dropping => .dropping

def Place.rename (name : φ → φ') : Place τ φ κ → Place τ φ' κ
  | .nowhere => .nowhere
  | .inbox futex => .inbox (name futex)
  | .queue futex lane => .queue (name futex) lane
  | .list task => .list task
  | .hand task => .hand task

def Activity.rename (name : φ → φ') : Activity φ → Activity φ'
  | .none => .none
  | .waking => .waking
  | .requeueing futex => .requeueing (name futex)

theorem Op.answers_rename {name : φ → φ'} {op : Op τ φ κ α} {resp : Resp τ α} :
    (op.rename name).Answers resp ↔ op.Answers resp := by
  cases op <;> exact Iff.rfl

theorem Op.futex_rename {name : φ → φ'} {op : Op τ φ κ α} :
    (op.rename name).futex = op.futex.map name := by
  cases op <;> rfl

section Rename

variable {name : φ → φ'}

theorem Holding.allows_rename (hname : Function.Injective name) {holding : Holding φ κ}
    {op : Op τ φ κ α} (hallows : holding.Allows op) :
    (holding.rename name).Allows (op.rename name) := by
  have hmem (futex : φ) : name futex ∈ holding.reads.map name ↔ futex ∈ holding.reads :=
    List.mem_map_of_injective hname
  have hborrow (futex : φ) :
      holding.borrow.map name = some (name futex) ↔ holding.borrow = some futex := by
    rw [← Option.map_some, (Option.map_injective hname).eq_iff]
  cases op with
  | waiter futex queue =>
      rcases hallows with hfree | ⟨futex', queue', hfresh⟩
      · exact Or.inl (by simp [Holding.rename, hfree, Slot.rename])
      · exact Or.inr ⟨name futex', queue', by simp [Holding.rename, hfresh, Slot.rename]⟩
  | cmpxchgWaitWeak futex current new =>
      obtain ⟨queue, hfresh⟩ := hallows
      exact ⟨queue, by simp [Holding.rename, hfresh, Slot.rename]⟩
  | pending =>
      obtain ⟨queue, hentered⟩ := hallows
      exact ⟨queue, by simp [Holding.rename, hentered, Slot.rename]⟩
  | _ => simp_all [Holding.Allows, Op.rename, Holding.rename]

variable [DecidableEq φ] [DecidableEq φ']

theorem Holding.after_rename (hname : Function.Injective name) (holding : Holding φ κ)
    (op : Op τ φ κ α) (resp : Resp τ α) :
    (holding.rename name).after (op.rename name) resp =
      (holding.after op resp).rename name := by
  cases op with
  | cmpxchgWaitWeak futex current new =>
      cases resp <;> try rfl
      cases hslot : holding.slot <;> simp [Holding.after, Op.rename, Holding.rename, hslot,
        Slot.rename, Slot.enter]
  | pending =>
      cases hslot : holding.slot <;> simp [Holding.after, Op.rename, Holding.rename, hslot,
        Slot.rename, Slot.wait]
  | unlock futex =>
      have hfilter : (holding.reads.map name).filter (fun other => other ≠ name futex) =
          (holding.reads.filter fun other => other ≠ futex).map name := by
        rw [List.filter_map]
        congr 1
        refine List.filter_congr fun other _ => ?_
        simp [hname.eq_iff]
      simpa [Holding.after, Op.rename, Holding.rename] using hfilter
  | pop futex queue => cases resp <;> rfl
  | next => cases resp <;> rfl
  | _ => rfl

omit [DecidableEq φ] [DecidableEq φ'] in
theorem Holding.forget_rename (holding : Holding φ κ) :
    (holding.rename name).forget = holding.forget.rename name := by
  cases hslot : holding.slot <;>
    simp [Holding.forget, Holding.rename, hslot, Slot.rename, Slot.forget]

end Rename

/-! ## Windows -/

/-- Some of the futexes and some of the tasks. -/
structure Window (τ φ φ' κ α : Type) where
  /-- The futexes inside, and the names of all futexes. -/
  site : φ → φ'
  name : φ' → φ
  named : ∀ futex, name (site futex) = futex
  /-- A futex that is not shown looks unused. -/
  shown : φ → Bool
  unused : α
  mine : τ → Bool
  /-- What the waiters of the tasks outside seem to ask for. -/
  home : φ
  lane : κ

namespace Window

theorem site_injective (window : Window τ φ φ' κ α) : Function.Injective window.site :=
  Function.LeftInverse.injective window.named

variable {window : Window τ φ φ' κ α} {board board' : Board τ φ' κ α} {task waiter : τ}
  {futex : φ} {futex' : φ'}

/-- The lists that the window shows. -/
def lists (window : Window τ φ φ' κ α) (store : ListStore τ φ' κ) : ListStore τ φ κ where
  inbox futex := if window.shown futex then store.inbox (window.site futex) else []
  queues futex queue :=
    if window.shown futex then store.queues (window.site futex) queue else []
  queue task := if window.mine task then store.queue task else window.lane
  list task := if window.mine task then store.list task else []

/-- What the window shows of a board. -/
def sight (window : Window τ φ φ' κ α) (board : Board τ φ' κ α) : Board τ φ κ α where
  atom futex :=
    if window.shown futex then board.atom (window.site futex) else window.unused
  store := window.lists board.store
  handle task := if window.mine task then board.handle task else none
  readers futex := (board.readers (window.site futex)).filter fun task => window.mine task = true
  borrowed futex := (board.borrowed (window.site futex)).filter window.mine
  owner task := if window.mine task then window.name (board.owner task) else window.home
  stage task := if window.mine task then (board.stage task).rename window.name else .free
  awake task := window.mine task && board.awake task
  activity task :=
    if window.mine task then (board.activity task).rename window.name else .none

/-- The futex is on the side of the task. -/
def Beside (window : Window τ φ φ' κ α) (task : τ) (futex : φ') : Prop :=
  window.mine task = true ↔ ∃ inside, window.shown inside = true ∧ window.site inside = futex

/-- The waiters in the lists of one side are those of its own tasks. -/
structure Apart (window : Window τ φ φ' κ α) (board : Board τ φ' κ α) : Prop where
  inbox : ∀ futex waiter, waiter ∈ board.store.inbox futex → window.Beside waiter futex
  queues : ∀ futex queue waiter, waiter ∈ board.store.queues futex queue →
    window.Beside waiter futex
  list : ∀ task waiter, waiter ∈ board.store.list task →
    window.mine waiter = window.mine task
  hand : ∀ task waiter, board.handle task = some waiter →
    window.mine waiter = window.mine task

/-- The lists after a step, and the waiters that came from elsewhere. -/
theorem Apart.congr (hapart : window.Apart board)
    (hinbox : ∀ futex waiter, waiter ∈ board'.store.inbox futex →
      waiter ∈ board.store.inbox futex ∨ window.Beside waiter futex)
    (hqueues : ∀ futex queue waiter, waiter ∈ board'.store.queues futex queue →
      waiter ∈ board.store.inbox futex ∨ waiter ∈ board.store.queues futex queue)
    (hlist : ∀ task waiter, waiter ∈ board'.store.list task →
      waiter ∈ board.store.list task ∨ window.mine waiter = window.mine task)
    (hhand : ∀ task waiter, board'.handle task = some waiter →
      board.handle task = some waiter ∨ window.mine waiter = window.mine task) :
    window.Apart board' where
  inbox futex waiter hmem :=
    (hinbox futex waiter hmem).elim (hapart.inbox futex waiter) id
  queues futex queue waiter hmem :=
    (hqueues futex queue waiter hmem).elim (hapart.inbox futex waiter)
      (hapart.queues futex queue waiter)
  list task waiter hmem := (hlist task waiter hmem).elim (hapart.list task waiter) id
  hand task waiter hmem := (hhand task waiter hmem).elim (hapart.hand task waiter) id

/-- Two tasks beside one futex are on one side. -/
theorem Beside.mine_eq (hfirst : window.Beside task futex')
    (hsecond : window.Beside waiter futex') :
    window.mine waiter = window.mine task :=
  Bool.eq_iff_iff.mpr (hsecond.trans hfirst.symm)

/-- Whoever is on the side of a task is beside its futexes. -/
theorem Beside.of_mine (hbeside : window.Beside task futex')
    (hmine : window.mine waiter = window.mine task) : window.Beside waiter futex' := by
  unfold Beside
  rw [hmine]
  exact hbeside

/-! ### Parts of a board -/

variable [DecidableEq τ] [DecidableEq φ] [DecidableEq φ'] [DecidableEq κ]

section Own

omit [DecidableEq τ] [DecidableEq φ] [DecidableEq φ'] [DecidableEq κ] in
theorem sight_word (hshown : window.shown futex = true) :
    (window.sight board).word futex = board.word (window.site futex) := by
  simp [Board.word, sight, lists, hshown]

omit [DecidableEq τ] [DecidableEq φ] [DecidableEq φ'] [DecidableEq κ] in
theorem sight_setStore {store : ListStore τ φ' κ} {store' : ListStore τ φ κ}
    (hstore : window.lists store = store') :
    window.sight (board.setStore store) = (window.sight board).setStore store' := by
  rw [← hstore]
  rfl

omit [DecidableEq τ] [DecidableEq κ] in
theorem sight_setAtom (hshown : window.shown futex = true) (new : α) :
    window.sight (board.setAtom (window.site futex) new) =
      (window.sight board).setAtom futex new := by
  simp only [sight, Board.setAtom, Board.mk.injEq, and_true]
  funext other
  by_cases hother : other = futex
  · simp [hother, hshown]
  · have hne : window.site other ≠ window.site futex := fun heq =>
      hother (window.site_injective heq)
    simp [hother, hne]

omit [DecidableEq φ] [DecidableEq φ'] [DecidableEq κ] in
theorem sight_setStage (hmine : window.mine task = true) (stage : Stage φ') :
    window.sight (board.setStage task stage) =
      (window.sight board).setStage task (stage.rename window.name) := by
  simp only [sight, Board.setStage, Board.mk.injEq, true_and, and_true]
  funext other
  by_cases hother : other = task
  · simp [hother, hmine]
  · simp [hother]

omit [DecidableEq φ] [DecidableEq φ'] [DecidableEq κ] in
theorem sight_setAwake (hmine : window.mine task = true) (awake : Bool) :
    window.sight (board.setAwake task awake) = (window.sight board).setAwake task awake := by
  simp only [sight, Board.setAwake, Board.mk.injEq, true_and, and_true]
  funext other
  by_cases hother : other = task
  · simp [hother, hmine]
  · simp [hother]

omit [DecidableEq φ] [DecidableEq φ'] [DecidableEq κ] in
theorem sight_setHandle (hmine : window.mine task = true) (handle : Option τ) :
    window.sight (board.setHandle task handle) =
      (window.sight board).setHandle task handle := by
  simp only [sight, Board.setHandle, Board.mk.injEq, true_and, and_true]
  funext other
  by_cases hother : other = task
  · simp [hother, hmine]
  · simp [hother]

omit [DecidableEq φ] [DecidableEq φ'] [DecidableEq κ] in
theorem sight_setActivity (hmine : window.mine task = true) (activity : Activity φ') :
    window.sight (board.setActivity task activity) =
      (window.sight board).setActivity task (activity.rename window.name) := by
  simp only [sight, Board.setActivity, Board.mk.injEq, true_and]
  funext other
  by_cases hother : other = task
  · simp [hother, hmine]
  · simp [hother]

omit [DecidableEq φ] [DecidableEq φ'] [DecidableEq κ] in
theorem sight_setOwner (hmine : window.mine task = true) (futex : φ) :
    window.sight (board.setOwner task (window.site futex)) =
      (window.sight board).setOwner task futex := by
  simp only [sight, Board.setOwner, Board.mk.injEq, true_and, and_true]
  funext other
  by_cases hother : other = task
  · simp [hother, hmine, window.named]
  · simp [hother]

omit [DecidableEq κ] in
theorem sight_lock (hmine : window.mine task = true) (futex : φ) :
    window.sight (board.setReaders (window.site futex)
        (insert task (board.readers (window.site futex)))) =
      (window.sight board).setReaders futex
        (insert task ((window.sight board).readers futex)) := by
  simp only [sight, Board.setReaders, Board.mk.injEq, true_and, and_true]
  funext other
  by_cases hother : other = futex
  · simp [hother, Finset.filter_insert, hmine]
  · have hne : window.site other ≠ window.site futex := fun heq =>
      hother (window.site_injective heq)
    simp [hother, hne]

omit [DecidableEq κ] in
theorem sight_unlock (futex : φ) :
    window.sight (board.setReaders (window.site futex)
        ((board.readers (window.site futex)).erase task)) =
      (window.sight board).setReaders futex
        (((window.sight board).readers futex).erase task) := by
  simp only [sight, Board.setReaders, Board.mk.injEq, true_and, and_true]
  funext other
  by_cases hother : other = futex
  · simp [hother, Finset.filter_erase]
  · have hne : window.site other ≠ window.site futex := fun heq =>
      hother (window.site_injective heq)
    simp [hother, hne]

omit [DecidableEq τ] [DecidableEq κ] in
theorem sight_setBorrowed (futex : φ) (borrowed : Option τ) :
    window.sight (board.setBorrowed (window.site futex) borrowed) =
      (window.sight board).setBorrowed futex (borrowed.filter window.mine) := by
  simp only [sight, Board.setBorrowed, Board.mk.injEq, true_and, and_true]
  funext other
  by_cases hother : other = futex
  · simp [hother]
  · have hne : window.site other ≠ window.site futex := fun heq =>
      hother (window.site_injective heq)
    simp [hother, hne]

theorem lists_push (hshown : window.shown futex = true) (store : ListStore τ φ' κ) :
    window.lists (FutexStore.push store (window.site futex) task) =
      FutexStore.push (window.lists store) futex task := by
  simp only [lists, FutexStore.push, ListStore.mk.injEq, and_true]
  funext other
  by_cases hother : other = futex
  · simp [hother, hshown]
  · have hne : window.site other ≠ window.site futex := fun heq =>
      hother (window.site_injective heq)
    simp [hother, hne]

omit [DecidableEq τ] in
theorem lists_setQueue (hshown : window.shown futex = true) (store : ListStore τ φ' κ)
    (queue : κ) (waiters : List τ) :
    window.lists (store.setQueue (window.site futex) queue waiters) =
      (window.lists store).setQueue futex queue waiters := by
  simp only [lists, ListStore.setQueue, ListStore.mk.injEq, true_and, and_true]
  funext other queue'
  by_cases hother : other = futex
  · by_cases hqueue : queue' = queue
    · simp [hother, hqueue, hshown]
    · simp [hother, hqueue]
  · have hne : window.site other ≠ window.site futex := fun heq =>
      hother (window.site_injective heq)
    simp [hother, hne]

omit [DecidableEq τ] in
theorem sight_flip (hapart : window.Apart board) (hshown : window.shown futex = true) :
    window.sight (board.flip (window.site futex)) = (window.sight board).flip futex := by
  simp only [sight, Board.flip, Board.setStore, lists, Board.mk.injEq, ListStore.mk.injEq,
    true_and, and_true]
  constructor
  · funext other
    by_cases hother : other = futex
    · simp [hother]
    · have hne : window.site other ≠ window.site futex := fun heq =>
        hother (window.site_injective heq)
      simp [hother, hne]
  · funext other queue
    by_cases hother : other = futex
    · subst hother
      simp only [Function.update_self, hshown, if_true, ListStore.arrivals]
      congr 1
      apply List.filter_congr
      intro waiter hmem
      have hmine : window.mine waiter = true :=
        (hapart.inbox _ waiter (List.mem_reverse.mp hmem)).mpr ⟨other, hshown, rfl⟩
      simp [hmine]
    · have hne : window.site other ≠ window.site futex := fun heq =>
        hother (window.site_injective heq)
      simp [hother, hne]

theorem lists_renew (hmine : window.mine task = true) (store : ListStore τ φ' κ) (queue : κ) :
    window.lists (FutexStore.renew store task queue) =
      FutexStore.renew (window.lists store) task queue := by
  simp only [lists, FutexStore.renew, ListStore.mk.injEq, true_and, and_true]
  funext other
  by_cases hother : other = task
  · simp [hother, hmine]
  · simp [hother]

omit [DecidableEq φ] [DecidableEq φ'] [DecidableEq κ] in
/-- A list of handles belongs to the window with its task. -/
theorem lists_setList (hmine : window.mine task = true) (store : ListStore τ φ' κ)
    (waiters : List τ) :
    window.lists { store with list := Function.update store.list task waiters } =
      { window.lists store with
        list := Function.update (window.lists store).list task waiters } := by
  simp only [lists, ListStore.mk.injEq, true_and]
  funext other
  by_cases hother : other = task
  · simp [hother, hmine]
  · simp [hother]

theorem lists_popMany (hshown : window.shown futex = true) (hmine : window.mine task = true)
    (store : ListStore τ φ' κ) (count : ℕ) (queue : κ) :
    window.lists (FutexStore.popMany store task (window.site futex) count queue) =
      FutexStore.popMany (window.lists store) task futex count queue := by
  have hqueue : (window.lists store).queues futex queue =
      store.queues (window.site futex) queue := by
    simp [lists, hshown]
  refine (lists_setList hmine (store.setQueue (window.site futex) queue
    (WaiterList.back count (store.queues (window.site futex) queue)))
    (WaiterList.front count (store.queues (window.site futex) queue))).trans ?_
  rw [lists_setQueue hshown, ← hqueue]
  rfl

theorem lists_listPush (hshown : window.shown futex = true) (hmine : window.mine task = true)
    (store : ListStore τ φ' κ) :
    window.lists (FutexStore.listPush store (window.site futex) task) =
      FutexStore.listPush (window.lists store) futex task := by
  simp only [lists, FutexStore.listPush, ListStore.mk.injEq, true_and]
  constructor
  · funext other
    by_cases hother : other = futex
    · simp [hother, hshown, hmine]
    · have hne : window.site other ≠ window.site futex := fun heq =>
        hother (window.site_injective heq)
      simp [hother, hne]
  · funext other
    by_cases hother : other = task
    · simp [hother]
    · simp [hother]

theorem lists_cancel (hshown : window.shown futex = true) (hmine : window.mine task = true)
    (store : ListStore τ φ' κ) :
    window.lists (FutexStore.cancel store (window.site futex) task) =
      FutexStore.cancel (window.lists store) futex task := by
  have hlane : (window.lists store).queue task = store.queue task := if_pos hmine
  have hqueue (queue : κ) : (window.lists store).queues futex queue =
      store.queues (window.site futex) queue := by
    simp [lists, hshown]
  simp only [FutexStore.cancel]
  rw [lists_setQueue hshown, hqueue, hlane]

end Own

end Window

end AsyncMutex
