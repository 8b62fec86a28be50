import AsyncMutex.FairMutex
import AsyncMutex.FifoRefinement
import AsyncMutex.Requeueing

/-!
# The history of the fair mutex

The marks of a run tell when a waiter enters, moves from a condition variable
to the mutex and leaves the queue of the mutex.  `Turn` lists what one step can
do to the queues of waiters and to the history at the same time.
-/

namespace AsyncMutex

namespace FairMutex

variable {τ K ω : Type}

/-- What the history tells about the waiters. -/
inductive News (τ K : Type) where
  /-- A compare-exchange of `Condvar::wait` succeeded. -/
  | waits (task : τ) (which : K)
  /-- A waiting compare-exchange of `Mutex::lock` succeeded. -/
  | locks (task : τ)
  /-- `notify` stored the mutex as the owner of a waiter. -/
  | moves (waiter : τ)
  /-- `notify` pushed the moved waiters on the inbox of the mutex. -/
  | links
  /-- `unlock` popped a waiter. -/
  | pops (waiter : τ)

def news : Mark τ (Cell K) ℕ ω (Point τ K) (Call K) → Option (News τ K)
  | .responded task (.waitLoop which _) .success => some (.waits task which)
  | .responded task (.lockLoop current) .success =>
      if current.atom = 0 then none else some (.locks task)
  | .event (.requeued waiter .mutex) => some (.moves waiter)
  | .responded _ (.notify .requeue _) .unit => some .links
  | .responded _ (.unlock _ _) (.handle (some waiter)) => some (.pops waiter)
  | _ => none

theorem news_handle (task : τ) (point : Unlock τ) (caller : Caller K)
    (waiter : Option τ) :
    news (.responded task (.unlock point caller) (.handle waiter) :
      Mark τ (Cell K) ℕ ω (Point τ K) (Call K)) = waiter.map .pops := by
  cases waiter <;> rfl

/-- `notify` has not popped its waiters yet. -/
def Point.asks : Point τ K → Option (ℕ × K)
  | .notify (.load count) which => some (count, which)
  | .notify (.lock count _) which => some (count, which)
  | .notify (.borrow count _) which => some (count, which)
  | .notify (.enqueue count _) which => some (count, which)
  | .notify (.popMany count) which => some (count, which)
  | _ => none

/-- `notify` has popped its waiters and not pushed them on the mutex. -/
def Point.carries : Point τ K → Option K
  | .notify .release which => some which
  | .notify .lockMutex which => some which
  | .notify .requeue which => some which
  | _ => none

/-- The waiters of each futex in their order, those that each task has popped,
and those of them that it has not moved yet. -/
structure View (τ K : Type) where
  line : Cell K → List τ
  list : τ → List τ
  unmoved : τ → List τ

def View.of [DecidableEq τ] [DecidableEq K] (board : MutexBoard τ K)
    (unmoved : τ → List τ) : View τ K :=
  ⟨fun futex => board.store.contents futex 0, board.store.list, unmoved⟩

section Turns

variable [DecidableEq τ] [DecidableEq K]

def View.setLine (view : View τ K) (futex : Cell K) (waiters : List τ) : View τ K :=
  { view with line := Function.update view.line futex waiters }

def View.setList (view : View τ K) (task : τ) (waiters : List τ) : View τ K :=
  { view with list := Function.update view.list task waiters }

def View.setUnmoved (view : View τ K) (task : τ) (waiters : List τ) : View τ K :=
  { view with unmoved := Function.update view.unmoved task waiters }

/-- One step of `task`, which comes to a new program point. -/
inductive Turn (task : τ) (old : Point τ K) (view : View τ K) :
    Option (News τ K) → Point τ K → View τ K → Prop
  | keep {point : Point τ K} (hasks : point.asks = old.asks)
      (hcarries : point.carries = old.carries)
      (hwaitsOn : ∀ which, point.waitsOn = some which → old.waitsOn = some which) :
      Turn task old view none point view
  | ask {count : ℕ} {which : K} (hold : old = .guard) :
      Turn task old view none (.notify (.load count) which) view
  | unused {count : ℕ} {which : K} (hold : old = .notify (.load count) which)
      (hline : view.line (.condvar which) = []) :
      Turn task old view none .guard view
  /-- A dropped future takes its waiter out of the mutex. -/
  | cancel (waiter : τ) :
      Turn task old view none old
        (view.setLine .mutex ((view.line .mutex).filter fun other => other ≠ waiter))
  | wait {which : K} {current : FutexAtom τ ℕ} (hold : old = .waitLoop which current)
      (hfresh : ∀ futex, task ∉ view.line futex) :
      Turn task old view (some (.waits task which)) (.unlock .lock (.wait which))
        (view.setLine (.condvar which) (view.line (.condvar which) ++ [task]))
  | lock {current : FutexAtom τ ℕ} (hold : old = .lockLoop current)
      (hfresh : ∀ futex, task ∉ view.line futex) :
      Turn task old view (some (.locks task)) .lockEntered
        (view.setLine .mutex (view.line .mutex ++ [task]))
  | take {count : ℕ} {which : K} (hold : old = .notify (.popMany count) which) :
      Turn task old view none (.notify .release which)
        (((view.setLine (.condvar which)
          (WaiterList.back count (view.line (.condvar which)))).setList task
            (WaiterList.front count (view.line (.condvar which)))).setUnmoved task
              (WaiterList.front count (view.line (.condvar which))))
  | move {which : K} {waiter : τ} {rest : List τ} (hold : old = .notify .requeue which)
      (hunmoved : view.unmoved task = waiter :: rest) (hrest : waiter ∉ rest)
      (hfresh : ∀ futex, waiter ∉ view.line futex) :
      Turn task old view (some (.moves waiter)) old (view.setUnmoved task rest)
  | link {which : K} (hold : old = .notify .requeue which)
      (hunmoved : view.unmoved task = [])
      (hnodup : (view.line .mutex ++ view.list task).Nodup) :
      Turn task old view (some .links) (.notify .unlockMutex which)
        ((view.setLine .mutex (view.line .mutex ++ view.list task)).setList task [])
  | pop {point : Unlock τ} {caller : Caller K} {waiter : τ} {rest : List τ}
      (hold : old = .unlock point caller) (hline : view.line .mutex = waiter :: rest) :
      Turn task old view (some (.pops waiter)) (.unlock .release caller)
        (view.setLine .mutex rest)

/-! ## One step -/

/-- What is known of the moved waiters before and after a step of `task`. -/
structure Seen (board board' : MutexBoard τ K) (task : τ) (unmoved unmoved' : τ → List τ) :
    Prop where
  same : ∀ other, board'.store.list other = board.store.list other →
    unmoved' other = unmoved other
  before : board.activity task = .none → unmoved task = board.store.list task
  after : board'.activity task = .none → unmoved' task = board'.store.list task
  finished : board.activity task ≠ .none →
    board'.store.list task ≠ board.store.list task → unmoved task = []

variable {address : ℕ+} {board board' : MutexBoard τ K} {pc : τ → Point τ K}
  {task : τ} {unmoved unmoved' : τ → List τ}

/-- No queue and no handle list changes. -/
theorem Seen.keep (hseen : Seen board board' task unmoved unmoved') {old point : Point τ K}
    (hlist : board'.store.list = board.store.list)
    (hline : ∀ futex, board'.store.contents futex 0 = board.store.contents futex 0)
    (hasks : point.asks = old.asks) (hcarries : point.carries = old.carries)
    (hwaitsOn : ∀ which, point.waitsOn = some which → old.waitsOn = some which) :
    Turn task old (View.of board unmoved) none point (View.of board' unmoved') := by
  have hsame : unmoved' = unmoved := funext fun other =>
    hseen.same other (congrFun hlist other)
  have hview : View.of board' unmoved' = View.of board unmoved := by
    simp only [View.of, hsame, hlist, View.mk.injEq, and_true]
    exact funext hline
  rw [hview]
  exact .keep hasks hcarries hwaitsOn

theorem Seen.unlock (hseen : Seen board board' task unmoved unmoved')
    {point point' : Unlock τ} {caller : Caller K}
    (hlist : board'.store.list = board.store.list)
    (hline : ∀ futex, board'.store.contents futex 0 = board.store.contents futex 0) :
    Turn task (.unlock point caller) (View.of board unmoved) none (.unlock point' caller)
      (View.of board' unmoved') := by
  refine hseen.keep hlist hline rfl rfl fun _ hwhich => ?_
  cases caller with
  | drop => cases hwhich
  | wait which => exact hwhich

theorem contents_flip (board : MutexBoard τ K) (futex other : Cell K) :
    (board.flip futex).store.contents other 0 = board.store.contents other 0 := by
  have hflip : FutexStore.enqueue board.store futex = some (board.flip futex).store := rfl
  rw [Places.contents_enqueue hflip]

section Coherent

variable (hco : (client address).Coherent holds board pc)
include hco

omit [DecidableEq τ] [DecidableEq K] in
/-- A task that makes a new waiter is in no queue. -/
theorem not_listed_of_free (hstage : board.stage task = .free ∨
      ∃ futex, board.stage task = .fresh futex) (futex : Cell K) :
    task ∉ board.store.contents futex 0 := by
  obtain ⟨place, hplaced⟩ := hco.placed
  intro hmem
  have hplace := hplaced.places.mem_contents hmem
  rcases hplaced.waits task (by rintro heq; simp [heq] at hplace) with h | h | h <;>
    simp [h] at hstage

omit [DecidableEq τ] [DecidableEq K] in
theorem stage_of_slot {futex : Cell K} {queue : Fin 1}
    (hslot : (holds (pc task)).slot = .fresh futex queue) :
    board.stage task = .fresh futex := by
  have hfits := (hco.fits task).slot
  rw [hslot] at hfits
  exact hfits.1

omit hco in
/-- `unlock` pops the first waiter of the mutex. -/
theorem pop_turn (hseen : Seen board ((board.setStore (board.store.setQueue .mutex 0
        (board.store.queues .mutex 0).tail)).setHandle task
          (board.store.queues .mutex 0).head?) task unmoved unmoved')
    {point : Unlock τ} {caller : Caller K} {waiter : τ}
    (hhead : (board.store.queues .mutex 0).head? = some waiter) :
    Turn task (.unlock point caller) (View.of board unmoved) (some (.pops waiter))
      (.unlock .release caller)
      (View.of ((board.setStore (board.store.setQueue .mutex 0
        (board.store.queues .mutex 0).tail)).setHandle task
          (board.store.queues .mutex 0).head?) unmoved') := by
  obtain ⟨rest, hqueue⟩ := List.head?_eq_some_iff.mp hhead
  have hsame : unmoved' = unmoved := funext fun other => hseen.same other rfl
  have hsplit : board.store.queues .mutex 0 = [waiter] ++ rest := hqueue
  have hpop := Places.contents_setQueue hsplit
  have hview : View.of ((board.setStore (board.store.setQueue .mutex 0
      (board.store.queues .mutex 0).tail)).setHandle task
        (board.store.queues .mutex 0).head?) unmoved' =
      (View.of board unmoved).setLine .mutex (rest ++ board.store.arrivals .mutex 0) := by
    simp only [View.of, View.setLine, hsame, View.mk.injEq, and_true]
    refine ⟨funext fun futex => ?_, rfl⟩
    have hpop' := hpop futex 0
    simp only [Board.setStore, Board.setHandle, hqueue, List.tail_cons] at hpop' ⊢
    rw [hpop']
    by_cases hfutex : futex = .mutex
    · subst hfutex
      simp [ListStore.contents, hqueue]
    · simp [hfutex]
  rw [hview]
  exact .pop rfl (by simp [View.of, ListStore.contents, hqueue])

omit hco in
theorem popNone_turn (hseen : Seen board ((board.setStore (board.store.setQueue .mutex 0
        (board.store.queues .mutex 0).tail)).setHandle task
          (board.store.queues .mutex 0).head?) task unmoved unmoved')
    {caller : Caller K} (hhead : (board.store.queues .mutex 0).head? = none) :
    Turn task (.unlock .pop caller) (View.of board unmoved) none (.unlock .load caller)
      (View.of ((board.setStore (board.store.setQueue .mutex 0
        (board.store.queues .mutex 0).tail)).setHandle task
          (board.store.queues .mutex 0).head?) unmoved') := by
  have hnil := List.head?_eq_none_iff.mp hhead
  refine hseen.unlock rfl fun futex => ?_
  have hsame : (board.store.setQueue .mutex 0
      (board.store.queues .mutex 0).tail) = board.store := by
    have htail : (board.store.queues .mutex 0).tail = board.store.queues .mutex 0 := by
      rw [hnil]
      rfl
    simp [ListStore.setQueue, htail]
  simp only [Board.setStore, Board.setHandle, hsame]

omit hco in
theorem unlock_turn {point : Unlock τ} {caller : Caller K} {resp : Resp τ ℕ}
    {point' : Point τ K}
    (hstep : board.Step task (.call (unlockOp point)) (some resp) board')
    (hresume : resumeUnlock caller point resp = some point')
    (hseen : Seen board board' task unmoved unmoved') :
    Turn task (.unlock point caller) (View.of board unmoved)
      (news (.responded task (.unlock point caller) resp : Mark τ (Cell K) ℕ ω _ _))
      point' (View.of board' unmoved') := by
  cases point with
  | pop =>
      cases hstep
      cases hhead : (board.store.queues .mutex 0).head? with
      | none =>
          rw [hhead] at hresume
          cases hresume
          rw [news_handle]
          exact popNone_turn hseen hhead
      | some waiter =>
          rw [hhead] at hresume
          cases hresume
          rw [news_handle]
          exact pop_turn hseen hhead
  | popEnqueued =>
      cases hstep
      cases hhead : (board.store.queues .mutex 0).head? with
      | none =>
          rw [hhead] at hresume
          cases hresume
      | some waiter =>
          rw [hhead] at hresume
          cases hresume
          rw [news_handle]
          exact pop_turn hseen hhead
  | loop current =>
      by_cases hnew : current.hasNewWaiters = true
      · simp only [unlockOp, hnew, if_true] at hstep
        cases hstep
        case cmpxchgEnqueueWeak =>
          cases hresume
          exact hseen.unlock rfl (contents_flip board .mutex)
        case cmpxchgEnqueueWeakFails =>
          cases hresume
          exact hseen.unlock rfl fun _ => rfl
      · simp only [unlockOp, hnew] at hstep
        cases hstep
        cases hresume
        exact hseen.unlock rfl fun _ => rfl
  | done =>
      cases hstep
      cases hresume
      cases caller <;> exact hseen.keep rfl (fun _ => rfl) rfl rfl (fun _ => id)
  | wake => cases hstep
  | store current =>
      cases hstep <;> cases hresume <;>
        exact hseen.unlock rfl fun _ => rfl
  | _ =>
      cases hstep
      cases hresume
      exact hseen.unlock rfl fun _ => rfl

omit hco in
/-- `notify` pops a part of the queue of its condition variable, whose inbox is
empty. -/
theorem take_turn {count : ℕ} {which : K}
    (hinbox : board.store.inbox (.condvar which) = [])
    (hactivity : board.activity task = .none)
    (hseen : Seen board (board.setStore (FutexStore.popMany board.store task
      (.condvar which) count 0)) task unmoved unmoved') :
    Turn task (.notify (.popMany count) which) (View.of board unmoved) none
      (.notify .release which) (View.of (board.setStore (FutexStore.popMany board.store
        task (.condvar which) count 0)) unmoved') := by
  have hline : board.store.contents (.condvar which) 0 =
      board.store.queues (.condvar which) 0 := by
    simp [ListStore.contents, ListStore.arrivals, hinbox]
  have hpop := Places.contents_setQueue
    (WaiterList.front_append_back count (board.store.queues (.condvar which) 0)).symm
  have hview : View.of (board.setStore (FutexStore.popMany board.store task
        (.condvar which) count 0)) unmoved' =
      ((((View.of board unmoved).setLine (.condvar which)
        (WaiterList.back count ((View.of board unmoved).line (.condvar which)))).setList task
          (WaiterList.front count ((View.of board unmoved).line (.condvar which)))).setUnmoved
            task (WaiterList.front count ((View.of board unmoved).line (.condvar which)))) := by
    simp only [View.of, View.setLine, View.setList, View.setUnmoved,
      View.mk.injEq, hline]
    refine ⟨funext fun futex => ?_, rfl, funext fun other => ?_⟩
    · rw [show (board.setStore (FutexStore.popMany board.store task
        (.condvar which) count 0)).store.contents futex 0 =
          (board.store.setQueue (.condvar which) 0 (WaiterList.back count
            (board.store.queues (.condvar which) 0))).contents futex 0 from rfl,
        hpop futex 0]
      by_cases hfutex : futex = .condvar which
      · subst hfutex
        rw [hline]
        nth_rewrite 2 [← WaiterList.front_append_back count
          (board.store.queues (.condvar which) 0)]
        simp
      · simp [hfutex]
    · by_cases hother : other = task
      · subst hother
        rw [hseen.after hactivity]
        simp [Board.setStore, FutexStore.popMany]
      · rw [hseen.same other (by simp [Board.setStore, FutexStore.popMany, hother])]
        simp [hother]
  rw [hview]
  exact .take rfl

/-- `requeue` pushes its list on the inbox of the mutex. -/
theorem link_turn {which : K} (hdone : unmoved task = [])
    (hafter : unmoved' task = [])
    {store : ListStore τ (Cell K) (Fin 1)}
    (hstore : store = FutexStore.listPush board.store .mutex task)
    (hothers : ∀ other, other ≠ task → unmoved' other = unmoved other) :
    Turn task (.notify .requeue which) (View.of board unmoved) (some .links)
      (.notify .unlockMutex which)
      ⟨fun futex => store.contents futex 0, store.list, unmoved'⟩ := by
  have hqueue : ∀ waiter, board.store.queue waiter = 0 := fun _ => Subsingleton.elim _ _
  have hsame : unmoved' = unmoved := by
    funext other
    by_cases hother : other = task
    · rw [hother, hdone, hafter]
    · exact hothers other hother
  have hview : (⟨fun futex => store.contents futex 0, store.list, unmoved'⟩ : View τ K) =
      ((View.of board unmoved).setLine .mutex ((View.of board unmoved).line .mutex ++
        (View.of board unmoved).list task)).setList task [] := by
    subst hstore
    simp only [View.of, View.setLine, View.setList, View.mk.injEq, hsame,
      and_true]
    refine ⟨funext fun futex => ?_, rfl⟩
    rw [Places.contents_listPush]
    by_cases hfutex : futex = .mutex
    · subst hfutex
      simp [hqueue]
    · simp [hfutex]
  rw [hview]
  refine .link rfl hdone ?_
  obtain ⟨place, hplaced⟩ := hco.placed
  have hplaces := hplaced.places
  simp only [View.of, ListStore.contents, ListStore.arrivals, hqueue,
    decide_true, List.filter_true]
  refine List.nodup_append.mpr ⟨List.nodup_append.mpr
    ⟨hplaces.queuesNodup _ _, List.nodup_reverse.mpr (hplaces.inboxNodup _), ?_⟩,
    hplaces.listNodup task, ?_⟩
  · rintro waiter hmem other hother rfl
    rw [hplaces.queues] at hmem
    rw [List.mem_reverse, hplaces.inbox, hmem] at hother
    cases hother
  · rintro waiter hmem other hother rfl
    rw [hplaces.list] at hother
    rcases List.mem_append.mp hmem with hmem | hmem
    · rw [hplaces.queues, hother] at hmem
      cases hmem
    · rw [List.mem_reverse, hplaces.inbox, hother] at hmem
      cases hmem

theorem notify_turn (hinv : Inv address board pc) {point : Notify τ} {which : K}
    (hpc : pc task = .notify point which) (hactivity : board.activity task = .none)
    {resp : Resp τ ℕ} {point' : Point τ K}
    (hstep : board.Step task (.call (notifyOp address which point)) (some resp) board')
    (hresume : resumeNotify address which point resp = some point')
    (hseen : Seen board board' task unmoved unmoved') :
    Turn task (.notify point which) (View.of board unmoved)
      (news (.responded task (.notify point which) resp : Mark τ (Cell K) ℕ ω _ _))
      point' (View.of board' unmoved') := by
  cases point with
  | load count =>
      cases hstep
      simp only [resumeNotify] at hresume
      split at hresume
      case isTrue hzero =>
        cases hresume
        have hempty : board.store.contents (.condvar which) 0 = [] := by
          rcases hinv.used which with haddress | ⟨-, hinbox, hqueue⟩
          · have hatom : board.atom (.condvar which) = 0 := hzero
            rw [haddress] at hatom
            exact absurd hatom address.ne_zero
          · simp [ListStore.contents, ListStore.arrivals, hinbox, hqueue]
        have hsame : unmoved' = unmoved := funext fun other => hseen.same other rfl
        rw [hsame]
        exact .unused rfl hempty
      case isFalse =>
        split at hresume <;> cases hresume
        exact hseen.keep rfl (fun _ => rfl) rfl rfl (fun _ => id)
  | enqueue count current =>
      cases hstep
      case cmpxchgEnqueueWeak =>
        cases hresume
        exact hseen.keep rfl (contents_flip board (.condvar which)) rfl rfl (fun _ => id)
      case cmpxchgEnqueueWeakFails =>
        cases hresume
        exact hseen.keep rfl (fun _ => rfl) rfl rfl (fun _ => id)
  | popMany count =>
      have hinbox : board.store.inbox (.condvar which) = [] := by
        have hhere := (hinv.tasks task).here
        rw [hpc] at hhere
        exact hhere
      cases hstep
      cases hresume
      exact take_turn hinbox hactivity hseen
  | requeue =>
      cases hstep
      case requeueNone hnil =>
        cases hresume
        have hunmoved : unmoved task = [] := (hseen.before hactivity).trans hnil
        have hafter : unmoved' task = [] := (hseen.after hactivity).trans hnil
        have hlist : Function.update board.store.list task [] = board.store.list := by
          rw [← hnil]
          exact Function.update_eq_self task board.store.list
        have hpush : board.store = FutexStore.listPush board.store .mutex task := by
          simp [FutexStore.listPush, hnil, hlist]
        exact link_turn hco hunmoved hafter hpush fun other _ => hseen.same other rfl
  | _ =>
      cases hstep
      cases hresume
      exact hseen.keep rfl (fun _ => rfl) rfl rfl (fun _ => id)

omit hco in
/-- The compare-exchange of `lock` or `wait` pushes its waiter. -/
theorem push_line (futex : Cell K) (new : ℕ) (hsame : unmoved' = unmoved) :
    View.of (((board.setAtom futex new).setStore
        (FutexStore.push board.store futex task)).setStage task .entered) unmoved' =
      (View.of board unmoved).setLine futex
        ((View.of board unmoved).line futex ++ [task]) := by
  have hzero : board.store.queue task = 0 := Subsingleton.elim _ _
  simp only [View.of, View.setLine, View.mk.injEq, hsame, and_true]
  refine ⟨funext fun other => ?_, rfl⟩
  have hpush := Places.contents_push board.store futex task other 0
  simp only [Board.setStage, Board.setStore, Board.setAtom] at hpush ⊢
  rw [hpush]
  by_cases hother : other = futex
  · subst hother
    simp [hzero]
  · simp [hother]

theorem waiter_line {queue : Fin 1} (hstage : board.stage task = .free ∨
      ∃ futex, board.stage task = .fresh futex) (other : Cell K) :
    (FutexStore.renew board.store task queue).contents other 0 =
      board.store.contents other 0 := by
  obtain ⟨place, hplaced⟩ := hco.placed
  have hplace : place task = .nowhere := by
    by_contra hplace
    rcases hplaced.waits task hplace with h | h | h <;> simp [h] at hstage
  exact congrFun (congrFun (hplaced.places.contents_renew hplace queue) other) 0

/-- An operation of `lock` or `wait`. -/
theorem call_turn (hinv : Inv address board pc) {op : Op τ (Cell K) (Fin 1) ℕ}
    (hcode : code address (pc task) = .call op) (hactivity : board.activity task = .none)
    {resp : Resp τ ℕ} {point : Point τ K}
    (hstep : board.Step task (.call op) (some resp) board')
    (hresume : resume address (pc task) resp = some point)
    (hseen : Seen board board' task unmoved unmoved') :
    Turn task (pc task) (View.of board unmoved)
      (news (.responded task (pc task) resp : Mark τ (Cell K) ℕ ω _ _)) point
      (View.of board' unmoved') := by
  have hfresh : ∀ futex queue, (holds (pc task)).slot = .fresh futex queue →
      ∀ other, task ∉ board.store.contents other 0 := fun futex queue hslot =>
    not_listed_of_free hco (Or.inr ⟨futex, stage_of_slot hco hslot⟩)
  have hfree : (holds (pc task)).slot = .free → board.stage task = .free ∨
      ∃ futex, board.stage task = .fresh futex := by
    intro hslot
    have hfits := (hco.fits task).slot
    rw [hslot] at hfits
    exact hfits
  cases hpc : pc task with
  | unlock point caller =>
      rw [hpc] at hcode hresume
      cases hcode
      exact unlock_turn hstep hresume hseen
  | notify point which =>
      rw [hpc] at hcode hresume
      cases hcode
      exact notify_turn hco hinv hpc hactivity hstep hresume hseen
  | lockWaiter =>
      rw [hpc] at hcode hresume hfree
      cases hcode
      cases hstep
      cases hresume
      exact hseen.keep rfl (waiter_line hco (hfree rfl)) rfl rfl (fun _ => id)
  | waitWaiter which =>
      rw [hpc] at hcode hresume hfree
      cases hcode
      cases hstep
      cases hresume
      exact hseen.keep rfl (waiter_line hco (hfree rfl)) rfl rfl (fun _ => id)
  | lockLoop current =>
      rw [hpc] at hcode hresume hfresh
      by_cases hzero : current.atom = 0
      · simp only [code, hzero, if_true] at hcode
        cases hcode
        cases hstep
        case cmpxchgWeak =>
          simp only [resume, hzero, if_true] at hresume
          cases hresume
          simp only [news, hzero, if_true]
          exact hseen.keep rfl (fun _ => rfl) rfl rfl (fun _ h => by cases h)
        case cmpxchgWeakFails =>
          cases hresume
          exact hseen.keep rfl (fun _ => rfl) rfl rfl (fun _ => id)
      · simp only [code, hzero, if_false] at hcode
        cases hcode
        cases hstep
        case cmpxchgWaitWeak =>
          simp only [resume, hzero, if_false] at hresume
          cases hresume
          simp only [news, hzero, if_false]
          have hsame : unmoved' = unmoved := funext fun other => hseen.same other rfl
          rw [push_line .mutex 1 hsame]
          exact .lock rfl (hfresh .mutex 0 rfl)
        case cmpxchgWaitWeakFails =>
          cases hresume
          exact hseen.keep rfl (fun _ => rfl) rfl rfl (fun _ => id)
  | waitLoad which =>
      rw [hpc] at hcode hresume
      cases hcode
      cases hstep
      simp only [resume, waitAt] at hresume
      split at hresume <;> cases hresume
      exact hseen.keep rfl (fun _ => rfl) rfl rfl (fun _ => id)
  | waitLoop which current =>
      rw [hpc] at hcode hresume hfresh
      cases hcode
      cases hstep
      case cmpxchgWaitWeak =>
        cases hresume
        have hsame : unmoved' = unmoved := funext fun other => hseen.same other rfl
        rw [push_line (.condvar which) address hsame]
        exact .wait rfl (hfresh (.condvar which) 0 rfl)
      case cmpxchgWaitWeakFails =>
        simp only [resume, waitAt] at hresume
        split at hresume <;> cases hresume
        exact hseen.keep rfl (fun _ => rfl) rfl rfl (fun _ => id)
  | idle =>
      rw [hpc] at hcode
      cases hcode
  | lockWaiting =>
      rw [hpc] at hcode
      cases hcode
  | guard =>
      rw [hpc] at hcode
      cases hcode
  | waitWaiting which =>
      rw [hpc] at hcode
      cases hcode
  | _ =>
      rw [hpc] at hcode hresume
      cases hcode
      cases hstep
      cases hresume
      exact hseen.keep rfl (fun _ => rfl) rfl rfl (fun _ => id)

omit [DecidableEq τ] [DecidableEq K] in
theorem waiting_of_stage (hstage : board.stage task = .waiting ∨
      board.stage task = .dropping) :
    pc task = .lockWaiting ∨ ∃ which, pc task = .waitWaiting which := by
  obtain ⟨queue, hslot⟩ := (hco.fits task).slot_of_stage hstage
  cases hpc : pc task with
  | unlock point caller =>
      rw [hpc] at hslot
      cases point <;> cases caller <;> cases hslot
  | notify point which =>
      rw [hpc] at hslot
      cases point <;> cases hslot
  | lockWaiting => exact Or.inl rfl
  | waitWaiting which => exact Or.inr ⟨which, rfl⟩
  | _ =>
      rw [hpc] at hslot
      cases hslot

/-- The end of a longer operation, of a poll or of a drop. -/
theorem go_turn {resp : Resp τ ℕ} {point : Point τ K}
    (hstep : board.Step task .go (some resp) board')
    (hresume : resume address (pc task) resp = some point)
    (hseen : Seen board board' task unmoved unmoved') :
    Turn task (pc task) (View.of board unmoved)
      (news (.responded task (pc task) resp : Mark τ (Cell K) ℕ ω _ _)) point
      (View.of board' unmoved') := by
  cases hstep with
  | wakeDone hactivity =>
      obtain ⟨caller, hpc⟩ := Inv.point_of_wake ((hco.fits task).waking hactivity)
      rw [hpc] at hresume ⊢
      cases hresume
      exact hseen.unlock rfl fun _ => rfl
  | requeueDone futex hlist hactivity howner =>
      obtain ⟨hfutex, which, hpc⟩ :=
        Inv.point_of_requeue ((hco.fits task).requeueing futex hactivity)
      subst hfutex
      rw [hpc] at hresume ⊢
      cases hresume
      have hnil : (FutexStore.listPush board.store Cell.mutex task).list task = [] := by
        simp [FutexStore.listPush]
      have hunmoved : unmoved task = [] := by
        refine hseen.finished (by simp [hactivity]) ?_
        simp only [Board.setActivity, Board.setStore, hnil]
        exact fun heq => hlist heq.symm
      have hafter : unmoved' task = [] :=
        (hseen.after (by simp [Board.setActivity])).trans hnil
      refine link_turn hco hunmoved hafter rfl fun other hother => hseen.same other ?_
      simp [Board.setActivity, Board.setStore, FutexStore.listPush, hother]
  | ready hstage hawake =>
      rcases waiting_of_stage hco (Or.inl hstage) with hpc | ⟨which, hpc⟩ <;>
        rw [hpc] at hresume ⊢ <;> cases hresume <;>
          exact hseen.keep rfl (fun _ => rfl) rfl rfl (fun _ h => by cases h)
  | cancelWoken hstage hawake =>
      rcases waiting_of_stage hco (Or.inr hstage) with hpc | ⟨which, hpc⟩ <;>
        rw [hpc] at hresume ⊢ <;> cases hresume <;>
          exact hseen.keep rfl (fun _ => rfl) rfl rfl (fun _ h => by cases h)
  | cancelSleeping hstage hawake =>
      rcases waiting_of_stage hco (Or.inr hstage) with hpc | ⟨which, hpc⟩ <;>
        rw [hpc] at hresume ⊢ <;> cases hresume
      exact hseen.keep rfl (fun _ => rfl) rfl rfl (fun _ h => by cases h)

/-- A step that does not answer and stores no owner. -/
theorem quiet_turn (hinv : Inv address board pc)
    {input : Board.Input τ (Cell K) (Fin 1) ℕ}
    (hstep : board.Step task input none board')
    (hseen : Seen board board' task unmoved unmoved') :
    Turn task (pc task) (View.of board unmoved) none (pc task)
      (View.of board' unmoved') := by
  cases hstep with
  | dropFlip futex hstage hreaders =>
      exact hseen.keep rfl (contents_flip board futex) rfl rfl (fun _ => id)
  | dropCancel futex hstage hreaders hmem =>
      obtain ⟨place, hplaced⟩ := hco.placed
      have hplace := (hplaced.places.queues _ _ task).mp hmem
      have howned : board.owner task = futex := hplaced.owned task futex (by simp [hplace])
      have hmutex : board.owner task = .mutex := by
        rcases waiting_of_stage hco (Or.inr hstage) with hpc | ⟨which, hpc⟩
        · exact (hinv.tasks task).locking (by rw [hpc]; rfl) (by rw [hpc]; rfl)
        · have hwoken := (hinv.tasks task).dropping which hpc hstage
          rw [hplaced.asleep task (by simp [hplace])] at hwoken
          cases hwoken
      rw [howned] at hmutex
      subst hmutex
      have hsame : unmoved' = unmoved := funext fun other => hseen.same other rfl
      have hview : View.of (board.setStore (FutexStore.cancel board.store .mutex task))
          unmoved' = (View.of board unmoved).setLine .mutex
            (((View.of board unmoved).line .mutex).filter fun other => other ≠ task) := by
        have hcancel := hplaced.places.contents_cancel (Or.inr ⟨_, hplace⟩)
        simp only [View.of, View.setLine, View.mk.injEq, hsame, and_true]
        refine ⟨funext fun other => ?_, rfl⟩
        simp only [Board.setStore]
        rw [hcancel other 0]
        by_cases hother : other = .mutex
        · subst hother
          simp
        · have hnot : ∀ waiter ∈ board.store.contents other 0, waiter ≠ task := by
            rintro waiter hwaiter rfl
            have hother' := hplaced.places.mem_contents hwaiter
            rw [hplace] at hother'
            exact hother (by simpa using hother'.symm)
          rw [Function.update_of_ne hother, List.filter_eq_self]
          simpa using hnot
      rw [hview]
      exact .cancel task
  | _ => exact hseen.keep rfl (fun _ => rfl) rfl rfl (fun _ => id)

end Coherent

theorem Turn.line_of_pops {old point : Point τ K} {view view' : View τ K} {waiter : τ}
    (hturn : Turn task old view (some (.pops waiter)) point view') :
    ∃ rest, view.line .mutex = waiter :: rest := by
  cases hturn with
  | pop _ hline => exact ⟨_, hline⟩

theorem Turn.line_of_links {old point : Point τ K} {view view' : View τ K}
    (hturn : Turn task old view (some .links) point view') :
    view'.line .mutex = view.line .mutex ++ view.list task := by
  cases hturn with
  | link => simp [View.setLine, View.setList]

end Turns

/-! ## One step of a system -/

section Systems

variable [DecidableEq τ] [DecidableEq K] [DecidableEq ω] {address : ℕ+}

abbrev LockSystem (τ K ω : Type) := ListSystem τ (Cell K) (Fin 1) ℕ ω Unit (Point τ K)

def viewOf (sys : LockSystem τ K ω) : View τ K :=
  .of sys.world.board sys.world.unmoved

abbrev Locked (address : ℕ+) (sys : LockSystem τ K ω) : Prop :=
  sys.Verified (client address) holds fun board _ pc => Inv address board pc

/-- Every step of a system is a turn of its task. -/
theorem turn {sys : LockSystem τ K ω} (hsys : Locked address sys) {task : τ}
    {label : Label (Call K) ω}
    {result : LockSystem τ K ω × List (Mark τ (Cell K) ℕ ω (Point τ K) (Call K))}
    (hnext : sys.next (client address) task label = some result) :
    ∃ item point, result.2.filterMap news = item.toList ∧
      result.1.pc = Function.update sys.pc task point ∧
        Turn task (sys.pc task) (viewOf sys) item point (viewOf result.1) := by
  obtain ⟨-, hstep⟩ := System.next_spec hnext
  cases hstep with
  | start hcode hstart =>
      rename_i call point
      refine ⟨none, point, rfl, rfl, ?_⟩
      simp only [client] at hstart
      unfold FairMutex.start at hstart
      split at hstart <;> cases hstart
      case h_4.refl hpc => exact .ask hpc
      case h_5.refl hpc => exact .ask hpc
      all_goals
        rename_i hpc
        exact .keep (by rw [hpc]; rfl) (by rw [hpc]; rfl) (fun _ h => by cases h)
  | act hcode => exact absurd hcode (code_ne_own address _)
  | fail hcode => exact absurd hcode (code_ne_own address _)
  | @move _ act outcome hrequest hstep =>
      obtain ⟨hcalls, hboard⟩ :=
        hsys.step_board (typed address) (invariant address) hrequest hstep
      have hco := hsys.coherent
      obtain ⟨place, hplace⟩ := hsys.placed
      rcases hplace.step_moves hstep with ⟨waiter, futex, hstores⟩ | hunstored
      · -- `requeue` stores an owner
        obtain ⟨hevents, hresp, hactivity, hboard', hhere, hothers⟩ := hstores
        obtain ⟨hfutex, which, hpc⟩ :=
          Inv.point_of_requeue ((hco.fits task).requeueing futex hactivity)
        subst hfutex
        refine ⟨some (.moves waiter), sys.pc task, ?_, ?_, ?_⟩
        · simp [System.settle, hresp, hevents, news]
        · simp [System.settle, hresp]
        · have hview : viewOf (sys.settle (client address) task outcome).1 =
              (viewOf sys).setUnmoved task (outcome.world.unmoved task) := by
            have hunmoved : outcome.world.unmoved =
                Function.update sys.world.unmoved task (outcome.world.unmoved task) := by
              funext other
              by_cases hother : other = task
              · simp [hother]
              · simp [hother, hothers other hother]
            simp only [viewOf, System.settle_world, View.of, hboard', View.setUnmoved,
              View.mk.injEq]
            exact ⟨rfl, rfl, hunmoved⟩
          have hsublist : (waiter :: outcome.world.unmoved task).Sublist
              (sys.world.store.list task) := hhere ▸ World.unmoved_sublist
          have hmem : waiter ∈ sys.world.store.list task :=
            hsublist.subset List.mem_cons_self
          have hlisted := (hplace.places.list task waiter).mp hmem
          rw [hview]
          refine .move hpc hhere ?_ fun futex hline => ?_
          · exact (List.nodup_cons.mp
              ((hplace.places.listNodup task).sublist hsublist)).1
          · have hother := hplace.places.mem_contents hline
            rw [hlisted] at hother
            cases hother
      · have hfree : ∀ {world : ListWorld τ (Cell K) (Fin 1) ℕ ω},
            world.board.activity task = .none →
              world.unmoved task = world.store.list task := by
          intro world hactivity
          refine World.unmoved_of_free ?_
          simp only [World.board] at hactivity
          cases hbusy : world.busy task <;> simp_all [Busy.activity]
        have hseen : Seen sys.world.board outcome.world.board task sys.world.unmoved
            outcome.world.unmoved := by
          refine ⟨hunstored.unmoved, hfree, hfree, fun hactivity => hunstored.finished ?_⟩
          intro hbusy
          simp [World.board, hbusy, Busy.activity] at hactivity
        have hquiet : (outcome.events.map Mark.event).filterMap
            (news : Mark τ (Cell K) ℕ ω (Point τ K) (Call K) → _) = [] := by
          rw [List.filterMap_map, List.filterMap_eq_nil_iff]
          intro event hevent
          cases event with
          | requeued waiter futex => exact absurd hevent (hunstored.quiet waiter futex)
          | _ => rfl
        cases hresp : outcome.resp with
        | none =>
            rw [hresp] at hboard
            refine ⟨none, sys.pc task, ?_, ?_, ?_⟩
            · simpa [System.settle, hresp] using hquiet
            · simp [System.settle, hresp]
            · have hturn := quiet_turn hco hsys.inv hboard hseen
              simpa only [viewOf, System.settle_world] using hturn
        | some resp =>
            rw [hresp] at hboard
            obtain ⟨point, hgo, -⟩ :=
              hsys.answer (typed address) (invariant address) hrequest hstep hresp
            have hresume : resume address (sys.pc task) resp = some point := by
              obtain ⟨hpanic, hmisuse⟩ := hboard.resp_ne
              rw [← hgo]
              cases resp <;>
                first | rfl | exact absurd rfl hpanic | exact absurd rfl hmisuse
            refine ⟨news (.responded task (sys.pc task) resp :
              Mark τ (Cell K) ℕ ω _ _), point, ?_, ?_, ?_⟩
            · simp only [System.settle, hresp, hgo, List.filterMap_append, hquiet,
                List.nil_append]
              cases hnews : news (.responded task (sys.pc task) resp :
                Mark τ (Cell K) ℕ ω _ _) <;> simp [hnews]
            · simp [System.settle, hresp, hgo, System.setPc]
            · simp only [viewOf, System.settle_world]
              cases hinput : World.Inv.input act with
              | call op =>
                  rw [hinput] at hboard
                  obtain ⟨hcode, hactivity, -⟩ := hcalls op hinput
                  exact call_turn hco hsys.inv hcode hactivity hboard hresume hseen
              | go =>
                  rw [hinput] at hboard
                  exact go_turn hco hboard hresume hseen
              | drop =>
                  rw [hinput] at hboard
                  cases hboard

end Systems

end FairMutex

end AsyncMutex
