import AsyncMutex.Window

/-!
# Steps through a window

A step of a task inside a window is a step on what the window shows, and a
step of a task outside is not seen.  What the tasks inside hold they also hold
on the board that the window shows.
-/

namespace AsyncMutex

/-- A step that does not use a futex leaves its word and its lists. -/
theorem Board.Step.frame {τ φ κ α : Type} [DecidableEq τ] [DecidableEq φ] [DecidableEq κ]
    {board board' : Board τ φ κ α} {task : τ} {input : Board.Input τ φ κ α}
    {resp : Option (Resp τ α)} {futex : φ}
    (hstep : board.Step task input resp board')
    (huses : ∀ op, input = .call op → op.futex ≠ some futex)
    (hrequeue : board.activity task ≠ .requeueing futex)
    (hdrop : board.stage task = .dropping →
      (board.readers futex = ∅ → board' ≠ board.flip futex) ∧
        ∀ queue, task ∉ board.store.queues futex queue) :
    board'.atom futex = board.atom futex ∧
      board'.store.inbox futex = board.store.inbox futex ∧
        board'.store.queues futex = board.store.queues futex := by
  have hne {op : Op τ φ κ α} {other : φ} (hinput : input = .call op)
      (hfutex : op.futex = some other) : futex ≠ other := by
    rintro rfl
    exact huses op hinput hfutex
  cases hstep with
  | cmpxchgWeak other => exact ⟨Function.update_of_ne (hne rfl rfl) _ _, rfl, rfl⟩
  | cmpxchgWaitWeak other =>
      exact ⟨Function.update_of_ne (hne rfl rfl) _ _, Function.update_of_ne (hne rfl rfl) _ _, rfl⟩
  | cmpxchgEnqueueWeak other =>
      exact ⟨Function.update_of_ne (hne rfl rfl) _ _, Function.update_of_ne (hne rfl rfl) _ _,
        Function.update_of_ne (hne rfl rfl) _ _⟩
  | pop other => exact ⟨rfl, rfl, Function.update_of_ne (hne rfl rfl) _ _⟩
  | popMany other => exact ⟨rfl, rfl, Function.update_of_ne (hne rfl rfl) _ _⟩
  | requeueDone other hlist hactivity =>
      refine ⟨rfl, Function.update_of_ne ?_ _ _, rfl⟩
      rintro rfl
      exact hrequeue hactivity
  | dropFlip other hstage hreaders =>
      have hother : futex ≠ other := by
        rintro rfl
        exact (hdrop hstage).1 hreaders rfl
      exact ⟨rfl, Function.update_of_ne hother _ _, Function.update_of_ne hother _ _⟩
  | dropCancel other hstage hreaders hmem =>
      refine ⟨rfl, rfl, Function.update_of_ne ?_ _ _⟩
      rintro rfl
      exact (hdrop hstage).2 _ hmem
  | _ => exact ⟨rfl, rfl, rfl⟩

namespace Window

variable {τ φ φ' κ α : Type}
  {window : Window τ φ φ' κ α} {board board' : Board τ φ' κ α} {task waiter : τ} {futex : φ}
  {futex' : φ'}

/-! ## Steps of the tasks inside -/

/-- What a step of the task uses is on the side of the task. -/
structure Stays (window : Window τ φ φ' κ α) (board : Board τ φ' κ α) (task : τ)
    (input : Board.Input τ φ' κ α) : Prop where
  uses : ∀ op futex, input = .call op → op.futex = some futex → window.Beside task futex
  requeues : ∀ futex, board.activity task = .requeueing futex → window.Beside task futex

variable {resp : Option (Resp τ α)}

theorem shown_of_uses (hmine : window.mine task = true) {op : Op τ φ κ α}
    (hstays : window.Stays board task (.call (op.rename window.site)))
    (hfutex : op.futex = some futex) : window.shown futex = true := by
  have hrenamed : (op.rename window.site).futex = some (window.site futex) := by
    rw [Op.futex_rename, hfutex]
    rfl
  obtain ⟨inside, hshown, hsite⟩ := (hstays.uses _ _ rfl hrenamed).mp hmine
  rwa [← window.site_injective hsite]

variable [DecidableEq φ'] [DecidableEq κ]

/-- An operation of a task inside is the same operation on what the window
shows. -/
theorem call_of_mine [DecidableEq φ] [DecidableEq τ] (hapart : window.Apart board)
    (hmine : window.mine task = true)
    {op : Op τ φ κ α} (hstays : window.Stays board task (.call (op.rename window.site)))
    (hstep : board.Step task (.call (op.rename window.site)) resp board') :
    (window.sight board).Step task (.call op) resp (window.sight board') := by
  have hshown (futex : φ) (hfutex : op.futex = some futex) : window.shown futex = true :=
    shown_of_uses hmine hstays hfutex
  cases op with
  | waiter futex queue =>
      cases hstep
      rw [sight_setAwake hmine, sight_setStage hmine, sight_setOwner hmine,
        sight_setStore (lists_renew hmine board.store queue)]
      have hstage : (Stage.fresh (window.site futex)).rename window.name = .fresh futex := by
        simp [Stage.rename, window.named]
      rw [hstage]
      exact .waiter futex queue
  | load futex =>
      cases hstep
      rw [← sight_word (hshown futex rfl)]
      exact .load futex
  | cmpxchgWeak futex current new =>
      cases hstep
      · rw [← sight_word (hshown futex rfl), sight_setAtom (hshown futex rfl)]
        exact .cmpxchgWeak futex new
      · rw [← sight_word (hshown futex rfl)]
        exact .cmpxchgWeakFails futex current new
  | cmpxchgWaitWeak futex current new =>
      cases hstep
      · rw [← sight_word (hshown futex rfl), sight_setStage hmine]
        have hstore : window.sight ((board.setAtom (window.site futex) new).setStore
            (FutexStore.push board.store (window.site futex) task)) =
            ((window.sight board).setAtom futex new).setStore
              (FutexStore.push (window.sight board).store futex task) := by
          rw [← sight_setAtom (hshown futex rfl)]
          exact sight_setStore (lists_push (hshown futex rfl) board.store)
        rw [hstore]
        exact .cmpxchgWaitWeak futex new
      · rw [← sight_word (hshown futex rfl)]
        exact .cmpxchgWaitWeakFails futex current new
  | pending =>
      cases hstep
      rw [sight_setStage hmine]
      exact .pending
  | lock futex =>
      cases hstep
      rw [sight_lock hmine]
      exact .lock futex
  | unlock futex =>
      cases hstep
      rw [sight_unlock]
      exact .unlock futex
  | borrow futex =>
      cases hstep
      rw [sight_setBorrowed, Option.filter_some, if_pos hmine]
      exact .borrow futex
  | release futex =>
      cases hstep
      rw [sight_setBorrowed]
      exact .release futex
  | cmpxchgEnqueueWeak futex current new =>
      cases hstep
      · rw [← sight_word (hshown futex rfl), sight_setAtom (hshown futex rfl),
          sight_flip hapart (hshown futex rfl)]
        exact .cmpxchgEnqueueWeak futex new
      · rw [← sight_word (hshown futex rfl)]
        exact .cmpxchgEnqueueWeakFails futex current new
  | isEmpty futex queue =>
      cases hstep
      have hqueue : (window.sight board).store.queues futex queue =
          board.store.queues (window.site futex) queue := by
        simp [sight, lists, hshown futex rfl]
      rw [← hqueue]
      exact .isEmpty futex queue
  | pop futex queue =>
      cases hstep
      have hqueue : (window.sight board).store.queues futex queue =
          board.store.queues (window.site futex) queue := by
        simp [sight, lists, hshown futex rfl]
      rw [sight_setHandle hmine]
      have hstore : window.sight (board.setStore (board.store.setQueue (window.site futex)
          queue (board.store.queues (window.site futex) queue).tail)) =
          (window.sight board).setStore ((window.sight board).store.setQueue futex queue
            ((window.sight board).store.queues futex queue).tail) := by
        rw [hqueue]
        exact sight_setStore (lists_setQueue (hshown futex rfl) ..)
      rw [hstore, ← hqueue]
      exact .pop futex queue
  | popMany futex count queue =>
      cases hstep
      have hstore : window.sight (board.setStore
          (FutexStore.popMany board.store task (window.site futex) count queue)) =
          (window.sight board).setStore
            (FutexStore.popMany (window.sight board).store task futex count queue) :=
        sight_setStore (lists_popMany (hshown futex rfl) hmine ..)
      rw [hstore]
      exact .popMany futex count queue
  | count =>
      cases hstep
      have hlist : (window.sight board).store.list task = board.store.list task := by
        simp [sight, lists, hmine]
      rw [← hlist]
      exact .count
  | next =>
      cases hstep
      have hlist : (window.sight board).store.list task = board.store.list task := by
        simp [sight, lists, hmine]
      rw [sight_setHandle hmine]
      have hstore : window.sight (board.setStore (FutexStore.listPop board.store task).2) =
          (window.sight board).setStore
            (FutexStore.listPop (window.sight board).store task).2 := by
        refine sight_setStore ((lists_setList hmine board.store _).trans ?_)
        rw [← hlist]
        rfl
      rw [hstore, ← hlist]
      exact .next
  | wake =>
      cases hstep with
      | wake waiter hhandle =>
          rw [sight_setActivity hmine, sight_setHandle hmine,
            sight_setAwake ((hapart.hand task waiter hhandle).trans hmine)]
          refine .wake waiter ?_
          simp [sight, hmine, hhandle]
  | requeue futex =>
      have hlist : (window.sight board).store.list task = board.store.list task := by
        simp [sight, lists, hmine]
      cases hstep with
      | requeueNone _ hempty => exact .requeueNone futex (hlist.trans hempty)
      | requeue _ hnonempty =>
          rw [sight_setActivity hmine]
          have hactivity : (Activity.requeueing (window.site futex)).rename window.name =
              .requeueing futex := by
            simp [Activity.rename, window.named]
          rw [hactivity]
          exact .requeue futex (hlist.trans_ne hnonempty)

/-- A flip is seen where the window shows its futex. -/
theorem sight_flip_or [DecidableEq φ] (hapart : window.Apart board) (futex' : φ') :
    (∃ futex, window.site futex = futex' ∧
        window.sight (board.flip futex') = (window.sight board).flip futex) ∨
      window.sight (board.flip futex') = window.sight board := by
  by_cases hshown : ∃ futex, window.shown futex = true ∧ window.site futex = futex'
  · obtain ⟨futex, hshown, rfl⟩ := hshown
    exact Or.inl ⟨futex, rfl, sight_flip hapart hshown⟩
  · refine Or.inr (sight_setStore ?_)
    simp only [lists, ListStore.mk.injEq, and_true]
    constructor
    · funext futex
      by_cases hfutex : window.shown futex = true
      · have hne : window.site futex ≠ futex' := fun heq => hshown ⟨futex, hfutex, heq⟩
        simp [hne]
      · simp [hfutex]
    · funext futex queue
      by_cases hfutex : window.shown futex = true
      · have hne : window.site futex ≠ futex' := fun heq => hshown ⟨futex, hfutex, heq⟩
        simp [hne]
      · simp [hfutex]

/-- A poll, a drop or a longer operation of a task inside goes on. -/
theorem go_of_mine [DecidableEq φ] [DecidableEq τ] (hapart : window.Apart board)
    (hmine : window.mine task = true)
    (hstays : window.Stays board task .go) (hstep : board.Step task .go resp board') :
    (window.sight board).Step task .go resp (window.sight board') := by
  have hstage : (window.sight board).stage task = (board.stage task).rename window.name := by
    simp [sight, hmine]
  have hawake : (window.sight board).awake task = board.awake task := by
    simp [sight, hmine]
  have hactivity : (window.sight board).activity task =
      (board.activity task).rename window.name := by
    simp [sight, hmine]
  have hlist : (window.sight board).store.list task = board.store.list task := by
    simp [sight, lists, hmine]
  have howner (waiter : τ) (hmem : waiter ∈ board.store.list task) :
      window.mine waiter = true := (hapart.list task waiter hmem).trans hmine
  cases hstep with
  | wakeDone hwaking =>
      rw [sight_setActivity hmine]
      refine .wakeDone ?_
      rw [hactivity, hwaking]
      rfl
  | requeueStore futex' waiter hmem hrequeueing =>
      obtain ⟨futex, hshown, rfl⟩ := (hstays.requeues futex' hrequeueing).mp hmine
      rw [sight_setOwner (howner waiter hmem)]
      refine .requeueStore futex waiter (hlist.symm ▸ hmem) ?_
      rw [hactivity, hrequeueing, Activity.rename, window.named]
  | requeueDone futex' hnonempty hrequeueing hmoved =>
      obtain ⟨futex, hshown, rfl⟩ := (hstays.requeues futex' hrequeueing).mp hmine
      rw [sight_setActivity hmine, sight_setStore (lists_listPush hshown hmine board.store)]
      refine .requeueDone futex (hlist.trans_ne hnonempty) ?_ fun waiter hmem => ?_
      · rw [hactivity, hrequeueing, Activity.rename, window.named]
      · rw [hlist] at hmem
        simp [sight, howner waiter hmem, hmoved waiter hmem, window.named]
  | silent => exact .silent
  | ready hwaiting hwoken =>
      rw [sight_setStage hmine]
      refine .ready ?_ (hawake.trans hwoken)
      rw [hstage, hwaiting]
      rfl
  | dropFlip futex' hdropping hreaders =>
      rcases sight_flip_or hapart futex' with ⟨futex, rfl, hflip⟩ | hsame
      · rw [hflip]
        refine .dropFlip futex ?_ ?_
        · rw [hstage, hdropping]
          rfl
        · simp [sight, hreaders]
      · rw [hsame]
        exact .silent
  | dropCancel futex' hdropping hreaders hmem =>
      obtain ⟨futex, hshown, rfl⟩ := (hapart.queues futex' _ task hmem).mp hmine
      rw [sight_setStore (lists_cancel hshown hmine board.store)]
      refine .dropCancel futex ?_ ?_ ?_
      · rw [hstage, hdropping]
        rfl
      · simp [sight, hreaders]
      · simpa [sight, lists, hshown, hmine] using hmem
  | cancelWoken hdropping hwoken =>
      rw [sight_setAwake hmine, sight_setStage hmine]
      refine .cancelWoken ?_ (hawake.trans hwoken)
      rw [hstage, hdropping]
      rfl
  | cancelSleeping hdropping hasleep hinbox hqueues hlists hhandle =>
      rw [sight_setStage hmine]
      refine .cancelSleeping ?_ (hawake.trans hasleep) ?_ ?_ ?_ ?_
      · rw [hstage, hdropping]
        rfl
      · intro futex
        simp only [sight, lists]
        split
        · exact hinbox _
        · exact List.not_mem_nil
      · intro futex queue
        simp only [sight, lists]
        split
        · exact hqueues _ queue
        · exact List.not_mem_nil
      · intro other
        simp only [sight, lists]
        split
        · exact hlists other
        · exact List.not_mem_nil
      · intro other
        simp only [sight]
        split
        · exact hhandle other
        · simp

/-- A step of a task inside is a step on what the window shows. -/
theorem step_of_mine [DecidableEq φ] [DecidableEq τ] (hapart : window.Apart board)
    (hmine : window.mine task = true)
    {input : Board.Input τ φ κ α} (hstays : window.Stays board task (input.rename window.site))
    (hstep : board.Step task (input.rename window.site) resp board') :
    (window.sight board).Step task input resp (window.sight board') := by
  cases input with
  | call op => exact call_of_mine hapart hmine hstays hstep
  | go => exact go_of_mine hapart hmine hstays hstep
  | drop =>
      cases hstep with
      | drop hwaiting =>
          rw [sight_setStage hmine]
          refine .drop ?_
          simp [sight, hmine, hwaiting, Stage.rename]

theorem mem_flip_inbox {other : φ'}
    (hmem : waiter ∈ (board.flip futex').store.inbox other) :
    waiter ∈ board.store.inbox other := by
  simp only [Board.flip, Board.setStore, Function.update_apply] at hmem
  split at hmem
  · cases hmem
  · exact hmem

theorem mem_flip_queues {other : φ'} {queue : κ}
    (hmem : waiter ∈ (board.flip futex').store.queues other queue) :
    waiter ∈ board.store.inbox other ∨ waiter ∈ board.store.queues other queue := by
  simp only [Board.flip, Board.setStore, Function.update_apply] at hmem
  split at hmem
  case isFalse => exact Or.inr hmem
  case isTrue heq =>
    subst heq
    rcases List.mem_append.mp hmem with hold | harrived
    · exact Or.inr hold
    · exact Or.inl (List.mem_reverse.mp (List.mem_filter.mp harrived).1)

theorem mem_setQueue {store : ListStore τ φ' κ} {other : φ'} {queue queue' : κ}
    {waiters : List τ} (hsubset : waiters ⊆ store.queues futex' queue)
    (hmem : waiter ∈ (store.setQueue futex' queue waiters).queues other queue') :
    waiter ∈ store.queues other queue' := by
  simp only [ListStore.setQueue, Function.update_apply] at hmem
  split at hmem
  case isFalse => exact hmem
  case isTrue heq =>
    subst heq
    rw [Function.update_apply] at hmem
    split at hmem
    case isFalse => exact hmem
    case isTrue heq =>
      subst heq
      exact hsubset hmem

/-- The waiters stay on their sides in a step that does. -/
theorem Apart.step [DecidableEq τ] {input : Board.Input τ φ' κ α} (hapart : window.Apart board)
    (hstays : window.Stays board task input)
    (hstep : board.Step task input resp board') : window.Apart board' := by
  cases hstep with
  | cmpxchgWaitWeak other new =>
      refine hapart.congr (fun third waiter hmem => ?_) (fun _ _ _ hmem => Or.inr hmem)
        (fun _ _ hmem => Or.inl hmem) fun _ _ hhandle => Or.inl hhandle
      simp only [Board.setStage, Board.setStore, FutexStore.push,
        Function.update_apply] at hmem
      split at hmem
      case isFalse => exact Or.inl hmem
      case isTrue heq =>
        subst heq
        rcases List.mem_cons.mp hmem with rfl | hold
        · exact Or.inr (hstays.uses _ third rfl rfl)
        · exact Or.inl hold
  | cmpxchgEnqueueWeak other new =>
      exact hapart.congr (fun _ _ hmem => Or.inl (mem_flip_inbox hmem))
        (fun _ _ _ hmem => mem_flip_queues hmem) (fun _ _ hmem => Or.inl hmem)
        fun _ _ hhandle => Or.inl hhandle
  | dropFlip other hstage hreaders =>
      exact hapart.congr (fun _ _ hmem => Or.inl (mem_flip_inbox hmem))
        (fun _ _ _ hmem => mem_flip_queues hmem) (fun _ _ hmem => Or.inl hmem)
        fun _ _ hhandle => Or.inl hhandle
  | pop other queue =>
      have hbeside := hstays.uses _ other rfl rfl
      refine hapart.congr (fun _ _ hmem => Or.inl hmem)
        (fun _ _ _ hmem => Or.inr (mem_setQueue (List.tail_subset _) hmem))
        (fun _ _ hmem => Or.inl hmem) fun third waiter hhandle => ?_
      simp only [Board.setHandle, Board.setStore, Function.update_apply] at hhandle
      split at hhandle
      case isFalse => exact Or.inl hhandle
      case isTrue heq =>
        subst heq
        have hmem := List.mem_of_mem_head? (Option.mem_def.mpr hhandle)
        exact Or.inr (hbeside.mine_eq (hapart.queues other queue waiter hmem))
  | popMany other count queue =>
      have hbeside := hstays.uses _ other rfl rfl
      have hsplit := WaiterList.front_append_back count (board.store.queues other queue)
      refine hapart.congr (fun _ _ hmem => Or.inl hmem) (fun _ _ _ hmem => Or.inr ?_)
        (fun third waiter hmem => ?_) fun _ _ hhandle => Or.inl hhandle
      · refine mem_setQueue (fun waiter hmem => ?_) hmem
        rw [← hsplit]
        exact List.mem_append_right _ hmem
      · simp only [Board.setStore, FutexStore.popMany, Function.update_apply] at hmem
        split at hmem
        case isFalse => exact Or.inl hmem
        case isTrue heq =>
          subst heq
          have hqueued : waiter ∈ board.store.queues other queue := by
            rw [← hsplit]
            exact List.mem_append_left _ hmem
          exact Or.inr (hbeside.mine_eq (hapart.queues other queue waiter hqueued))
  | next =>
      refine hapart.congr (fun _ _ hmem => Or.inl hmem) (fun _ _ _ hmem => Or.inr hmem)
        (fun third waiter hmem => Or.inl ?_) fun third waiter hhandle => ?_
      · simp only [Board.setHandle, Board.setStore, FutexStore.listPop,
          Function.update_apply] at hmem
        split at hmem
        case isFalse => exact hmem
        case isTrue heq =>
          subst heq
          exact List.mem_of_mem_tail hmem
      · simp only [Board.setHandle, Board.setStore, Function.update_apply] at hhandle
        split at hhandle
        case isFalse => exact Or.inl hhandle
        case isTrue heq =>
          subst heq
          have hmem := List.mem_of_mem_head? (Option.mem_def.mpr hhandle)
          exact Or.inr (hapart.list third waiter hmem)
  | wake other hother =>
      refine hapart.congr (fun _ _ hmem => Or.inl hmem) (fun _ _ _ hmem => Or.inr hmem)
        (fun _ _ hmem => Or.inl hmem) fun third waiter hhandle => Or.inl ?_
      simp only [Board.setActivity, Board.setHandle, Board.setAwake,
        Function.update_apply] at hhandle
      split at hhandle
      · cases hhandle
      · exact hhandle
  | requeueDone other hlist hactivity howner =>
      have hbeside := hstays.requeues other hactivity
      refine hapart.congr (fun third waiter hmem => ?_) (fun _ _ _ hmem => Or.inr hmem)
        (fun third waiter hmem => Or.inl ?_) fun _ _ hhandle => Or.inl hhandle
      · simp only [Board.setActivity, Board.setStore, FutexStore.listPush,
          Function.update_apply] at hmem
        split at hmem
        case isFalse => exact Or.inl hmem
        case isTrue heq =>
          subst heq
          rcases List.mem_append.mp hmem with hmoved | hold
          · have hmine := hapart.list task waiter (List.mem_reverse.mp hmoved)
            exact Or.inr (hbeside.of_mine hmine)
          · exact Or.inl hold
      · simp only [Board.setActivity, Board.setStore, FutexStore.listPush,
          Function.update_apply] at hmem
        split at hmem
        · cases hmem
        · exact hmem
  | dropCancel other hstage hreaders hqueued =>
      exact hapart.congr (fun _ _ hmem => Or.inl hmem)
        (fun _ _ _ hmem => Or.inr (mem_setQueue List.erase_subset hmem))
        (fun _ _ hmem => Or.inl hmem) fun _ _ hhandle => Or.inl hhandle
  | _ =>
      exact hapart.congr (fun _ _ hmem => Or.inl hmem) (fun _ _ _ hmem => Or.inr hmem)
        (fun _ _ hmem => Or.inl hmem) fun _ _ hhandle => Or.inl hhandle

/-! ## Steps of the tasks outside -/

omit [DecidableEq φ'] [DecidableEq κ] in
/-- The window shows the same when its futexes and its tasks are the same. -/
theorem sight_congr
    (hatom : ∀ futex, window.shown futex = true →
      board'.atom (window.site futex) = board.atom (window.site futex))
    (hinbox : ∀ futex, window.shown futex = true →
      board'.store.inbox (window.site futex) = board.store.inbox (window.site futex))
    (hqueues : ∀ futex queue, window.shown futex = true →
      board'.store.queues (window.site futex) queue =
        board.store.queues (window.site futex) queue)
    (hreaders : ∀ futex other, window.mine other = true →
      (other ∈ board'.readers futex ↔ other ∈ board.readers futex))
    (hborrowed : ∀ futex,
      (board'.borrowed futex).filter window.mine = (board.borrowed futex).filter window.mine)
    (hown : ∀ other, window.mine other = true →
      (board'.stage other = board.stage other ∧
        board'.store.queue other = board.store.queue other ∧
          board'.handle other = board.handle other) ∧
      (board'.store.list other = board.store.list other ∧
        board'.activity other = board.activity other) ∧
      board'.owner other = board.owner other ∧ board'.awake other = board.awake other) :
    window.sight board' = window.sight board := by
  have hmasked (P : Prop) [Decidable P] {β : Type} {one other none : β} (h : P → one = other) :
      (if P then one else none) = if P then other else none := by
    split
    · exact h ‹P›
    · rfl
  simp only [sight, lists, Board.mk.injEq, ListStore.mk.injEq]
  refine ⟨?_, ⟨?_, ?_, ?_, ?_⟩, ?_, ?_, ?_, ?_, ?_, ?_, ?_⟩
  · exact funext fun futex => hmasked _ (hatom futex)
  · exact funext fun futex => hmasked _ (hinbox futex)
  · exact funext fun futex => funext fun queue => hmasked _ (hqueues futex queue)
  · exact funext fun other => hmasked _ fun hmine => (hown other hmine).1.2.1
  · exact funext fun other => hmasked _ fun hmine => (hown other hmine).2.1.1
  · exact funext fun other => hmasked _ fun hmine => (hown other hmine).1.2.2
  · funext futex
    ext other
    simp only [Finset.mem_filter]
    exact and_congr_left (hreaders _ other)
  · exact funext fun futex => hborrowed _
  · exact funext fun other => hmasked _ fun hmine => by rw [(hown other hmine).2.2.1]
  · exact funext fun other => hmasked _ fun hmine => by rw [(hown other hmine).1.1]
  · funext other
    cases hmine : window.mine other with
    | true => rw [(hown other hmine).2.2.2]
    | false => rfl
  · exact funext fun other => hmasked _ fun hmine => by rw [(hown other hmine).2.1.2]

variable {input : Board.Input τ φ' κ α}

omit [DecidableEq φ'] [DecidableEq κ] in
/-- A task outside uses no futex that the window shows. -/
theorem Stays.not_uses (hstays : window.Stays board task input)
    (hmine : window.mine task = false) (hshown : window.shown futex = true) {op : Op τ φ' κ α}
    (hinput : input = .call op) : op.futex ≠ some (window.site futex) := by
  intro hfutex
  have hinside := (hstays.uses op _ hinput hfutex).mpr ⟨futex, hshown, rfl⟩
  simp [hmine] at hinside

omit [DecidableEq φ'] [DecidableEq κ] in
theorem Stays.not_requeues (hstays : window.Stays board task input)
    (hmine : window.mine task = false) (hshown : window.shown futex = true) :
    board.activity task ≠ .requeueing (window.site futex) := by
  intro hactivity
  have hinside := (hstays.requeues _ hactivity).mpr ⟨futex, hshown, rfl⟩
  simp [hmine] at hinside

theorem own_of_not_mine [DecidableEq τ] (hapart : window.Apart board)
    (hmine : window.mine task = false)
    (hstep : board.Step task input resp board') {other : τ}
    (hother : window.mine other = true) :
    (board'.stage other = board.stage other ∧
      board'.store.queue other = board.store.queue other ∧
        board'.handle other = board.handle other) ∧
    (board'.store.list other = board.store.list other ∧
      board'.activity other = board.activity other) ∧
    board'.owner other = board.owner other ∧ board'.awake other = board.awake other := by
  have hne : other ≠ task := by
    rintro rfl
    rw [hmine] at hother
    cases hother
  have hapart' : ∀ waiter, window.mine waiter = window.mine task → other ≠ waiter := by
    rintro waiter hwaiter rfl
    rw [hwaiter, hmine] at hother
    cases hother
  refine ⟨⟨?_, ?_, ?_⟩, ⟨?_, ?_⟩, ?_, ?_⟩
  · cases hstep <;> first | rfl | exact Function.update_of_ne hne _ _
  · cases hstep <;> first | rfl | exact Function.update_of_ne hne _ _
  · cases hstep <;> first | rfl | exact Function.update_of_ne hne _ _
  · cases hstep <;> first | rfl | exact Function.update_of_ne hne _ _
  · cases hstep <;> first | rfl | exact Function.update_of_ne hne _ _
  · cases hstep with
    | waiter => exact Function.update_of_ne hne _ _
    | requeueStore _ waiter hmem =>
        exact Function.update_of_ne (hapart' waiter (hapart.list task waiter hmem)) _ _
    | _ => rfl
  · cases hstep with
    | waiter => exact Function.update_of_ne hne _ _
    | cancelWoken => exact Function.update_of_ne hne _ _
    | wake waiter hhandle =>
        exact Function.update_of_ne (hapart' waiter (hapart.hand task waiter hhandle)) _ _
    | _ => rfl

theorem readers_of_not_mine [DecidableEq τ] (hmine : window.mine task = false)
    (hstep : board.Step task input resp board') (futex' : φ') {other : τ}
    (hother : window.mine other = true) :
    other ∈ board'.readers futex' ↔ other ∈ board.readers futex' := by
  have hne : other ≠ task := by
    rintro rfl
    rw [hmine] at hother
    cases hother
  cases hstep with
  | lock futex =>
      simp only [Board.setReaders, Function.update_apply]
      split
      case isTrue heq => simp [heq, hne]
      case isFalse => rfl
  | unlock futex =>
      simp only [Board.setReaders, Function.update_apply]
      split
      case isTrue heq => simp [heq, hne]
      case isFalse => rfl
  | _ => rfl

theorem borrowed_of_not_mine [DecidableEq τ] (hmine : window.mine task = false)
    (hborrow : ∀ futex, input = .call (.borrow futex) → board.borrowed futex = none)
    (hrelease : ∀ futex, input = .call (.release futex) →
      board.borrowed futex = some task)
    (hstep : board.Step task input resp board') (futex' : φ') :
    (board'.borrowed futex').filter window.mine =
      (board.borrowed futex').filter window.mine := by
  cases hstep with
  | borrow futex =>
      have hfree := hborrow futex rfl
      simp only [Board.setBorrowed, Function.update_apply]
      split
      case isTrue heq => simp [heq, hfree, hmine]
      case isFalse => rfl
  | release futex =>
      have hhidden : (some task).filter window.mine = none := by simp [hmine]
      simp only [Board.setBorrowed, Function.update_apply]
      split
      case isTrue heq => rw [heq, hrelease futex rfl, hhidden, Option.filter_none]
      case isFalse => rfl
  | _ => rfl

/-- A step of a task outside is not seen, apart from the flip of an inbox by a
drop. -/
theorem step_of_not_mine [DecidableEq φ] [DecidableEq τ] (hapart : window.Apart board)
    (hmine : window.mine task = false)
    (hstays : window.Stays board task input)
    (hborrow : ∀ futex, input = .call (.borrow futex) → board.borrowed futex = none)
    (hrelease : ∀ futex, input = .call (.release futex) →
      board.borrowed futex = some task)
    (hstep : board.Step task input resp board') :
    window.sight board' = window.sight board ∨
      ∃ futex, (window.sight board).readers futex = ∅ ∧
        window.sight board' = (window.sight board).flip futex := by
  by_cases hflip : ∃ futex', board.readers futex' = ∅ ∧ board' = board.flip futex'
  · obtain ⟨futex', hreaders, rfl⟩ := hflip
    rcases sight_flip_or hapart futex' with ⟨futex, rfl, hseen⟩ | hsame
    · exact Or.inr ⟨futex, by simp [sight, hreaders], hseen⟩
    · exact Or.inl hsame
  have hframe (futex : φ) (hshown : window.shown futex = true) :=
    hstep.frame (fun _ => hstays.not_uses hmine hshown) (hstays.not_requeues hmine hshown)
      fun _ => ⟨fun hreaders hsame => hflip ⟨_, hreaders, hsame⟩, fun queue hmem => by
        have hinside := (hapart.queues _ queue task hmem).mpr ⟨futex, hshown, rfl⟩
        simp [hmine] at hinside⟩
  refine Or.inl (sight_congr (fun futex hshown => (hframe futex hshown).1)
    (fun futex hshown => (hframe futex hshown).2.1)
    (fun futex queue hshown => congrFun (hframe futex hshown).2.2 queue)
    (fun futex' _ => readers_of_not_mine hmine hstep futex')
    (borrowed_of_not_mine hmine hborrow hrelease hstep)
    fun _ => own_of_not_mine hapart hmine hstep)

/-! ## Agreement with the tasks inside -/

/-- Where the window shows each waiter. -/
def seat (window : Window τ φ φ' κ α) (place : τ → Place τ φ' κ) (task : τ) : Place τ φ κ :=
  if window.mine task then (place task).rename window.name else .nowhere

omit [DecidableEq φ'] [DecidableEq κ] in
theorem Beside.name_eq (hbeside : window.Beside waiter futex')
    (hmine : window.mine waiter = true) :
    window.name futex' = futex ↔ window.shown futex = true ∧ window.site futex = futex' := by
  obtain ⟨inside, hshown, rfl⟩ := hbeside.mp hmine
  rw [window.named]
  constructor
  · rintro rfl
    exact ⟨hshown, rfl⟩
  · rintro ⟨-, hsite⟩
    exact (window.site_injective hsite).symm

section Seat

variable {place : τ → Place τ φ' κ} (hapart : window.Apart board) (hplaced : board.Placed place)
include hapart hplaced

omit [DecidableEq φ'] [DecidableEq κ] in
theorem seat_inbox :
    waiter ∈ (window.sight board).store.inbox futex ↔ window.seat place waiter = .inbox futex := by
  have hplaces := hplaced.places.inbox
  constructor
  · intro hmem
    simp only [sight, lists] at hmem
    split at hmem
    case isFalse => cases hmem
    case isTrue hshown =>
      have hmine := (hapart.inbox _ waiter hmem).mpr ⟨futex, hshown, rfl⟩
      rw [seat, if_pos hmine, (hplaces _ waiter).mp hmem, Place.rename, window.named]
  · intro hseat
    simp only [seat] at hseat
    split at hseat
    case isFalse => cases hseat
    case isTrue hmine =>
      cases hplace : place waiter <;> rw [hplace] at hseat <;> cases hseat
      case inbox.refl futex' =>
        have hmem := (hplaces futex' waiter).mpr hplace
        obtain ⟨hshown, hsite⟩ := ((hapart.inbox _ waiter hmem).name_eq hmine).mp rfl
        simpa [sight, lists, hshown, hsite] using hmem

omit [DecidableEq φ'] [DecidableEq κ] in
theorem seat_queue {queue : κ} :
    waiter ∈ (window.sight board).store.queues futex queue ↔
      window.seat place waiter = .queue futex queue := by
  have hplaces := hplaced.places.queues
  constructor
  · intro hmem
    simp only [sight, lists] at hmem
    split at hmem
    case isFalse => cases hmem
    case isTrue hshown =>
      have hmine := (hapart.queues _ _ waiter hmem).mpr ⟨futex, hshown, rfl⟩
      rw [seat, if_pos hmine, (hplaces _ _ waiter).mp hmem, Place.rename, window.named]
  · intro hseat
    simp only [seat] at hseat
    split at hseat
    case isFalse => cases hseat
    case isTrue hmine =>
      cases hplace : place waiter <;> rw [hplace] at hseat <;> cases hseat
      case queue.refl futex' =>
        have hmem := (hplaces futex' queue waiter).mpr hplace
        obtain ⟨hshown, hsite⟩ := ((hapart.queues _ _ waiter hmem).name_eq hmine).mp rfl
        simpa [sight, lists, hshown, hsite] using hmem

omit [DecidableEq φ'] [DecidableEq κ] in
theorem seat_list :
    waiter ∈ (window.sight board).store.list task ↔ window.seat place waiter = .list task := by
  have hplaces := hplaced.places.list
  constructor
  · intro hmem
    simp only [sight, lists] at hmem
    split at hmem
    case isFalse => cases hmem
    case isTrue hmine =>
      rw [seat, if_pos ((hapart.list task waiter hmem).trans hmine), (hplaces task waiter).mp hmem]
      rfl
  · intro hseat
    simp only [seat] at hseat
    split at hseat
    case isFalse => cases hseat
    case isTrue hmine =>
      cases hplace : place waiter <;> rw [hplace] at hseat <;> cases hseat
      have hmem := (hplaces task waiter).mpr hplace
      have hsame := hapart.list task waiter hmem
      simpa [sight, lists, ← hsame, hmine] using hmem

omit [DecidableEq φ'] [DecidableEq κ] in
theorem seat_hand :
    (window.sight board).handle task = some waiter ↔ window.seat place waiter = .hand task := by
  have hplaces := hplaced.places.hand
  constructor
  · intro hhandle
    simp only [sight] at hhandle
    split at hhandle
    case isFalse => cases hhandle
    case isTrue hmine =>
      rw [seat, if_pos ((hapart.hand task waiter hhandle).trans hmine),
        (hplaces task waiter).mp hhandle]
      rfl
  · intro hseat
    simp only [seat] at hseat
    split at hseat
    case isFalse => cases hseat
    case isTrue hmine =>
      cases hplace : place waiter <;> rw [hplace] at hseat <;> cases hseat
      have hhandle := (hplaces task waiter).mpr hplace
      have hsame := hapart.hand task waiter hhandle
      simpa [sight, ← hsame, hmine] using hhandle

omit hapart [DecidableEq φ'] [DecidableEq κ] in
theorem seat_index {queue : κ} (hseat : window.seat place waiter = .queue futex queue) :
    (window.sight board).store.queue waiter = queue := by
  simp only [seat] at hseat
  split at hseat
  case isFalse => cases hseat
  case isTrue hmine =>
    cases hplace : place waiter <;> rw [hplace] at hseat <;> cases hseat
    simpa [sight, lists, hmine] using hplaced.places.index _ queue waiter hplace

omit hapart hplaced [DecidableEq φ'] [DecidableEq κ] in
theorem seat_ne_nowhere :
    window.seat place task ≠ .nowhere ↔ window.mine task = true ∧ place task ≠ .nowhere := by
  unfold seat
  split
  case isFalse hmine => simp [hmine]
  case isTrue hmine => cases hplace : place task <;> simp [hmine, Place.rename]

omit [DecidableEq φ'] [DecidableEq κ] in
/-- What the window shows is a board with every waiter in its place. -/
theorem placed_sight : (window.sight board).Placed (window.seat place) where
  places :=
    { inbox := fun _ _ => seat_inbox hapart hplaced
      queues := fun _ _ _ => seat_queue hapart hplaced
      list := fun _ _ => seat_list hapart hplaced
      hand := fun _ _ => seat_hand hapart hplaced
      inboxNodup := fun futex => by
        simp only [sight, lists]
        split
        · exact hplaced.places.inboxNodup _
        · exact List.nodup_nil
      queuesNodup := fun futex queue => by
        simp only [sight, lists]
        split
        · exact hplaced.places.queuesNodup _ queue
        · exact List.nodup_nil
      listNodup := fun task => by
        simp only [sight, lists]
        split
        · exact hplaced.places.listNodup task
        · exact List.nodup_nil
      index := fun _ _ _ hseat => seat_index hplaced hseat }
  waits task hseat := by
    obtain ⟨hmine, hplace⟩ := seat_ne_nowhere.mp hseat
    rcases hplaced.waits task hplace with h | h | h <;> simp [sight, hmine, h, Stage.rename]
  asleep task hseat := by
    obtain ⟨hmine, hplace⟩ := seat_ne_nowhere.mp hseat
    simp [sight, hplaced.asleep task hplace]
  somewhere task hstage hawake := by
    cases hmine : window.mine task with
    | false => simp [sight, hmine] at hstage
    | true =>
        simp only [sight, hmine, if_true, Bool.true_and] at hstage hawake
        apply seat_ne_nowhere.mpr
        refine ⟨hmine, hplaced.somewhere task ?_ hawake⟩
        cases hcase : board.stage task <;> simp_all [Stage.rename]
  owned task futex hfutex := by
    simp only [seat] at hfutex
    split at hfutex
    case isFalse => cases hfutex
    case isTrue hmine =>
      have howned := hplaced.owned task
      cases hplace : place task <;> rw [hplace] at hfutex howned <;> cases hfutex
      all_goals simp [sight, hmine, howned _ rfl]
  fresh task futex hstage := by
    cases hmine : window.mine task with
    | false => simp [sight, hmine] at hstage
    | true =>
        simp only [sight, hmine, if_true] at hstage
        cases hcase : board.stage task <;> rw [hcase] at hstage <;> cases hstage
        obtain ⟨hawake, howner⟩ := hplaced.fresh task _ hcase
        simp [sight, hmine, hawake, howner]

end Seat

variable {holding : Holding φ κ} {code : Code τ φ κ α}

omit [DecidableEq φ'] [DecidableEq κ] in
theorem slot_fits_rename {slot : Slot φ κ} {stage : Stage φ'} {queue : κ}
    (hslot : (slot.rename window.site).Fits stage queue) :
    slot.Fits (stage.rename window.name) queue := by
  cases slot with
  | free =>
      rcases hslot with rfl | ⟨futex, rfl⟩
      · exact Or.inl rfl
      · exact Or.inr ⟨window.name futex, rfl⟩
  | fresh futex queue' =>
      obtain ⟨rfl, rfl⟩ := hslot
      exact ⟨by simp [Stage.rename, window.named], rfl⟩
  | entered queue' =>
      obtain ⟨rfl, rfl⟩ := hslot
      exact ⟨rfl, rfl⟩
  | waiting queue' =>
      obtain ⟨rfl | rfl, rfl⟩ := hslot
      · exact ⟨Or.inl rfl, rfl⟩
      · exact ⟨Or.inr rfl, rfl⟩

omit [DecidableEq φ'] [DecidableEq κ] in
theorem activity_rename_none {activity : Activity φ'} :
    activity.rename window.name = .none ↔ activity = .none := by
  cases activity <;> simp [Activity.rename]

omit [DecidableEq φ'] [DecidableEq κ] in
/-- What a task inside holds is what it holds of the futexes inside. -/
theorem fits_of_mine (hmine : window.mine task = true)
    (hfits : (holding.rename window.site).Fits board (code.rename window.site) task) :
    holding.Fits (window.sight board) code task := by
  have hactivity : (window.sight board).activity task =
      (board.activity task).rename window.name := by
    simp [sight, hmine]
  have hhandle : (window.sight board).handle task = board.handle task := by
    simp [sight, hmine]
  constructor
  · simpa [sight, lists, hmine] using slot_fits_rename hfits.slot
  · intro futex
    have hreads := hfits.reads (window.site futex)
    rw [show (holding.rename window.site).reads = holding.reads.map window.site from rfl,
      List.mem_map_of_injective window.site_injective] at hreads
    simpa [sight, hmine] using hreads
  · intro futex
    have hborrow := hfits.borrow (window.site futex)
    rw [show (holding.rename window.site).borrow = holding.borrow.map window.site from rfl,
      ← Option.map_some, (Option.map_injective window.site_injective).eq_iff] at hborrow
    simpa [sight, Option.filter_eq_some_iff, hmine] using hborrow
  · rw [hactivity, activity_rename_none, hhandle]
    exact hfits.hand
  · rw [hactivity, Ne, activity_rename_none, hhandle]
    exact hfits.busy
  · intro hlist
    simp [sight, lists, hfits.list hlist]
  · intro hwaking
    have hcode : code.rename window.site = .call .wake := by
      apply hfits.waking
      cases hcase : board.activity task with
      | waking => rfl
      | _ =>
          rw [hactivity, hcase] at hwaking
          cases hwaking
    cases code with
    | call op =>
        cases op <;> cases hcode
        rfl
    | _ => cases hcode
  · intro futex hrequeueing
    rw [hactivity] at hrequeueing
    cases hcase : board.activity task <;> rw [hcase] at hrequeueing <;> cases hrequeueing
    case requeueing.refl futex' =>
      have hcode := hfits.requeueing futex' hcase
      cases code with
      | call op =>
          cases op with
          | requeue inside =>
              cases hcode
              rw [window.named]
          | _ => cases hcode
      | _ => cases hcode

omit [DecidableEq φ'] [DecidableEq κ] in
/-- A task outside seems to hold nothing. -/
theorem fits_of_not_mine (hmine : window.mine task = false) :
    ({} : Holding φ κ).Fits (window.sight board) code task := by
  constructor <;> simp [sight, lists, hmine, Slot.Fits, Option.filter_eq_some_iff]

end Window

end AsyncMutex
