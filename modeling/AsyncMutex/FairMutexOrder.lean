import AsyncMutex.FairMutexHistory

/-!
# The fair mutex serves its waiters in the order of their arrival

A waiter arrives at the mutex by its own waiting compare-exchange or by the
compare-exchange of `requeue`, which brings a whole list.  The history stamps
every arrival.
-/

namespace AsyncMutex

namespace FairMutex

variable {τ K ω : Type} [DecidableEq τ]

/-- The last arrival of every task at the mutex, and the waiters that `notify`
moved and has still to push on the mutex. -/
structure Arrivals (τ : Type) where
  count : ℕ
  stamp : τ → ℕ
  batch : List τ

namespace Arrivals

def none : Arrivals τ :=
  ⟨1, fun _ => 0, []⟩

def arrive (arrivals : Arrivals τ) (task : τ) : Arrivals τ :=
  { arrivals with
    count := arrivals.count + 1
    stamp := Function.update arrivals.stamp task arrivals.count }

def hear (arrivals : Arrivals τ) : News τ K → Arrivals τ
  | .locks task => arrivals.arrive task
  | .moves waiter => { arrivals with batch := arrivals.batch ++ [waiter] }
  | .links => { arrivals.batch.foldl arrive arrivals with batch := [] }
  | _ => arrivals

/-- `line` is in the order of arrival. -/
structure Sorted (arrivals : Arrivals τ) (line : List τ) : Prop where
  bounded : ∀ task, arrivals.stamp task < arrivals.count
  pairwise : line.Pairwise fun task other => arrivals.stamp task < arrivals.stamp other

variable {arrivals : Arrivals τ} {line : List τ}

omit [DecidableEq τ] in
theorem Sorted.sublist (hsorted : arrivals.Sorted line) {line' : List τ}
    (hline : line'.Sublist line) : arrivals.Sorted line' :=
  ⟨hsorted.bounded, hsorted.pairwise.sublist hline⟩

theorem Sorted.arrive (hsorted : arrivals.Sorted line) {task : τ} (hfresh : task ∉ line) :
    (arrivals.arrive task).Sorted (line ++ [task]) := by
  have hold : ∀ other ∈ line,
      (arrivals.arrive task).stamp other = arrivals.stamp other := by
    intro other hother
    have hne : other ≠ task := fun heq => hfresh (heq ▸ hother)
    simp [Arrivals.arrive, hne]
  constructor
  · intro other
    simp only [Arrivals.arrive, Function.update_apply]
    split
    · exact Nat.lt_succ_self _
    · exact Nat.lt_succ_of_lt (hsorted.bounded other)
  · refine List.pairwise_append.mpr ⟨?_, List.pairwise_singleton _ _, ?_⟩
    · refine hsorted.pairwise.imp_of_mem fun {first second} hfirst hsecond hlt => ?_
      rw [hold first hfirst, hold second hsecond]
      exact hlt
    · intro other hother last hlast
      rw [List.mem_singleton.mp hlast, hold other hother]
      simpa [Arrivals.arrive] using hsorted.bounded other

/-- A whole list arrives, its first waiter first. -/
theorem Sorted.arriveAll {batch : List τ} (hsorted : arrivals.Sorted line)
    (hfresh : (line ++ batch).Nodup) :
    (batch.foldl Arrivals.arrive arrivals).Sorted (line ++ batch) := by
  induction batch generalizing arrivals line with
  | nil => simpa using hsorted
  | cons task batch ih =>
      rw [List.append_cons] at hfresh ⊢
      refine ih (hsorted.arrive ?_) hfresh
      have hnodup := (List.nodup_append.mp hfresh).1
      rw [List.nodup_append] at hnodup
      exact fun hmem => hnodup.2.2 task hmem task (List.mem_singleton_self task) rfl

end Arrivals

def arrivals (history : List (Mark τ (Cell K) ℕ ω (Point τ K) (Call K))) : Arrivals τ :=
  (history.filterMap news).foldl Arrivals.hear .none

theorem arrivals_append
    (history marks : List (Mark τ (Cell K) ℕ ω (Point τ K) (Call K))) :
    arrivals (history ++ marks) =
      (marks.filterMap news).foldl Arrivals.hear (arrivals history) := by
  simp [arrivals, List.filterMap_append, List.foldl_append]

/-- The queue of the mutex is in the order of arrival, and the history knows
the waiters that are about to arrive. -/
structure Ordered (pc : τ → Point τ K) (view : View τ K) (arrivals : Arrivals τ) : Prop where
  sorted : arrivals.Sorted (view.line .mutex)
  carried : ∀ task which, (pc task).carries = some which →
    view.list task = arrivals.batch ++ view.unmoved task
  batch : (∀ task, (pc task).carries = none) → arrivals.batch = []

omit [DecidableEq τ] in
theorem owns_of_carries {point : Point τ K} {which : K}
    (hcarries : point.carries = some which) : point.owns = true := by
  cases point with
  | notify point which => rfl
  | _ => cases hcarries

namespace Ordered

variable {pc : τ → Point τ K} {view view' : View τ K}
  {arrivals : Arrivals τ} {task : τ}

omit [DecidableEq τ] in
/-- Nobody else carries waiters while `task` has the lock. -/
theorem alone (hunique : ∀ task other, (pc task).owns = true → (pc other).owns = true →
    task = other) (howns : (pc task).owns = true) (hcarries : (pc task).carries = none)
    (other : τ) : (pc other).carries = none := by
  cases hother : (pc other).carries with
  | none => rfl
  | some which =>
      have heq := hunique other task (owns_of_carries hother) howns
      rw [heq, hcarries] at hother
      cases hother

/-- A step that changes no handle list. -/
theorem same (hordered : Ordered pc view arrivals) {arrivals' : Arrivals τ}
    {point : Point τ K} (hsorted : arrivals'.Sorted (view'.line .mutex))
    (hlist : view'.list = view.list) (hunmoved : view'.unmoved = view.unmoved)
    (hbatch : arrivals'.batch = arrivals.batch)
    (hcarries : point.carries = (pc task).carries) :
    Ordered (Function.update pc task point) view' arrivals' := by
  have hsame : ∀ other, (Function.update pc task point other).carries =
      (pc other).carries :=
    (Function.forall_update_iff pc fun other point => point.carries = (pc other).carries).mpr
      ⟨hcarries, fun _ _ => rfl⟩
  refine ⟨hsorted, ?_, ?_⟩
  · simpa only [hsame, hlist, hunmoved, hbatch] using hordered.carried
  · simpa only [hsame, hbatch] using hordered.batch

variable [DecidableEq K]

theorem turn (hordered : Ordered pc view arrivals)
    (hunique : ∀ task other, (pc task).owns = true → (pc other).owns = true →
      task = other) {item : Option (News τ K)} {point : Point τ K}
    (hturn : Turn task (pc task) view item point view') :
    Ordered (Function.update pc task point) view'
      (item.toList.foldl Arrivals.hear arrivals) := by
  obtain ⟨hsorted, hcarried, hbatch⟩ := hordered
  have hordered : Ordered pc view arrivals := ⟨hsorted, hcarried, hbatch⟩
  generalize hold : pc task = old at hturn
  cases hturn with
  | keep hasks hcarries => exact hordered.same hsorted rfl rfl rfl (hold ▸ hcarries)
  | ask hguard =>
      subst hguard
      exact hordered.same hsorted rfl rfl rfl (by rw [hold]; rfl)
  | unused hload =>
      subst hload
      exact hordered.same hsorted rfl rfl rfl (by rw [hold]; rfl)
  | cancel waiter =>
      refine hordered.same ?_ rfl rfl rfl (by rw [hold])
      simpa [View.setLine] using hsorted.sublist List.filter_sublist
  | wait hloop hfresh =>
      subst hloop
      refine hordered.same ?_ rfl rfl rfl (by rw [hold]; rfl)
      simpa [View.setLine, Arrivals.hear] using hsorted
  | lock hloop hfresh =>
      subst hloop
      refine hordered.same ?_ rfl rfl rfl (by rw [hold]; rfl)
      simpa [View.setLine, Arrivals.hear] using hsorted.arrive (hfresh .mutex)
  | @take count which hpop =>
      subst hpop
      have hnone := alone hunique (by rw [hold]; rfl) (by rw [hold]; rfl)
      have hempty := hbatch hnone
      refine ⟨by simpa [View.setUnmoved, View.setList, View.setLine] using hsorted,
        fun other which' hcarries => ?_, fun hall => ?_⟩
      · by_cases hother : other = task
        · subst hother
          simp [View.setUnmoved, View.setList, hempty]
        · rw [Function.update_of_ne hother, hnone other] at hcarries
          cases hcarries
      · exact hempty
  | @move which waiter rest hrequeue hunmoved hrest hfresh =>
      subst hrequeue
      have hself := hcarried task which (by rw [hold]; rfl)
      have hothers : ∀ other which', (pc other).carries = some which' → other = task :=
        fun other which' hcarries =>
          hunique other task (owns_of_carries hcarries) (by rw [hold]; rfl)
      have hpc : Function.update pc task (Point.notify .requeue which) = pc := by
        rw [← hold, Function.update_eq_self]
      rw [hpc]
      refine ⟨⟨hsorted.bounded, hsorted.pairwise⟩, fun other which' hcarries => ?_,
        fun hall => ?_⟩
      · obtain rfl := hothers other which' hcarries
        rw [hunmoved] at hself
        simpa [View.setUnmoved, Arrivals.hear] using hself
      · have hcarries := hall task
        rw [hold] at hcarries
        cases hcarries
  | @link which hrequeue hunmoved hnodup =>
      subst hrequeue
      have hself := hcarried task which (by rw [hold]; rfl)
      rw [hunmoved, List.append_nil] at hself
      have hnone : ∀ other, (Function.update pc task (Point.notify .unlockMutex which)
          other).carries = none := by
        refine (Function.forall_update_iff pc fun _ point => point.carries = none).mpr
          ⟨rfl, fun other hother => ?_⟩
        cases hcarries : (pc other).carries with
        | none => rfl
        | some which' =>
            exact absurd (hunique other task (owns_of_carries hcarries)
              (by rw [hold]; rfl)) hother
      refine ⟨?_, fun other which' hcarries => ?_, fun _ => rfl⟩
      · have hall := hsorted.arriveAll hnodup
        rw [hself] at hall
        refine ⟨hall.bounded, ?_⟩
        simpa [View.setList, View.setLine, hself, Arrivals.hear] using hall.pairwise
      · rw [hnone other] at hcarries
        cases hcarries
  | @pop point' caller waiter rest hunlock hline =>
      subst hunlock
      refine hordered.same ?_ rfl rfl rfl (by rw [hold]; rfl)
      rw [hline] at hsorted
      simpa [View.setLine, Arrivals.hear] using
        hsorted.sublist (List.sublist_cons_self waiter rest)

end Ordered

variable [DecidableEq K] [DecidableEq ω] {address : ℕ+}

section Runs

/-- The runs of the mutex on plain lists. -/
abbrev lists (address : ℕ+) :
    Machine (LockSystem τ K ω) (τ × Label (Call K) ω)
      (Mark τ (Cell K) ℕ ω (Point τ K) (Call K)) :=
  System.machine (client address) usage (ListStore.empty 0) (fun _ => 0) .mutex ()

variable {sys : LockSystem τ K ω}
  {history : List (Mark τ (Cell K) ℕ ω (Point τ K) (Call K))}

theorem locked_of_trace (htrace : (lists address).Trace history sys) :
    Locked address sys :=
  System.Verified.of_reachable (typed address) (invariant address) (inv_initial address)
    htrace.reachable

omit [DecidableEq τ] [DecidableEq K] in
theorem Inv.unique_owns {board : MutexBoard τ K} {pc : τ → Point τ K}
    (hinv : Inv address board pc) (task other : τ) (htask : (pc task).owns = true)
    (hother : (pc other).owns = true) : task = other :=
  hinv.unique task other (Or.inl htask) (Or.inl hother)

/-- In every run the queue of the mutex is in the order of arrival. -/
theorem ordered_of_trace (htrace : (lists address).Trace history sys) :
    Ordered sys.pc (viewOf sys) (arrivals history) := by
  refine htrace.invariant
    (motive := fun history sys => Ordered sys.pc (viewOf sys) (arrivals history)) ?_ ?_
  · refine ⟨⟨fun _ => Nat.one_pos, List.Pairwise.nil⟩, fun _ _ h => (by cases h), fun _ => rfl⟩
  · rintro history sys ⟨task, label⟩ next marks htrace hordered hnext
    obtain ⟨hnext, -⟩ := System.machine_next.mp hnext
    have hlocked := locked_of_trace htrace
    obtain ⟨item, point, hnews, hpc, hturn⟩ := FairMutex.turn hlocked hnext
    rw [arrivals_append, hnews, hpc]
    exact hordered.turn hlocked.inv.unique_owns hturn

/-- The mark of a response comes from the program point of the task at hand. -/
theorem responded_of_next {task : τ} {label : Label (Call K) ω}
    {result : LockSystem τ K ω × List (Mark τ (Cell K) ℕ ω (Point τ K) (Call K))}
    (hlocked : Locked address sys)
    (hnext : sys.next (client address) task label = some result) {actor : τ}
    {point : Point τ K} {resp : Resp τ ℕ} (hmark : .responded actor point resp ∈ result.2) :
    actor = task ∧ point = sys.pc task ∧ ∃ input board',
      (client address).Asks (sys.pc task) input ∧
        sys.world.board.Step task input (some resp) board' := by
  obtain ⟨-, hstep⟩ := System.next_spec hnext
  cases hstep with
  | start => simp at hmark
  | act => simp at hmark
  | fail => simp at hmark
  | @move _ act outcome hrequest hstep =>
      obtain ⟨hcalls, hboard⟩ :=
        hlocked.step_board (typed address) (invariant address) hrequest hstep
      cases hresp : outcome.resp with
      | none => simp [System.settle, hresp] at hmark
      | some resp' =>
          obtain ⟨pc', hgo, -⟩ :=
            hlocked.answer (typed address) (invariant address) hrequest hstep hresp
          simp only [System.settle, hresp, hgo, List.mem_append, List.mem_map, reduceCtorEq,
            and_false, exists_false, List.mem_singleton, Mark.responded.injEq, false_or]
            at hmark
          obtain ⟨rfl, rfl, rfl⟩ := hmark
          rw [hresp] at hboard
          exact ⟨rfl, rfl, _, _, fun op hop => (hcalls op hop).1, hboard⟩

omit [DecidableEq ω] in
/-- A compare-exchange of `lock` from 0 to 1 finds nobody waiting. -/
theorem free_of_acquire {task : τ} {current : FutexAtom τ ℕ}
    (hlocked : Locked address sys) (hpc : sys.pc task = .lockLoop current)
    (hzero : current.atom = 0) {input : Board.Input τ (Cell K) (Fin 1) ℕ}
    {board' : MutexBoard τ K} (hasks : (client address).Asks (sys.pc task) input)
    (hstep : sys.world.board.Step task input (some .success) board') :
    sys.world.store.inbox .mutex = [] ∧ sys.world.store.queues .mutex 0 = [] ∧
      ∀ other, ¬ Owns sys.world.board other (sys.pc other) := by
  have hatom : sys.world.board.atom .mutex = 0 := by
    cases input with
    | call op =>
        have hcode : code address (sys.pc task) = .call op := hasks op rfl
        rw [hpc] at hcode
        simp only [code, hzero, if_true] at hcode
        cases hcode
        cases hstep
        exact hzero
    | go => cases hstep
    | drop => cases hstep
  rcases hlocked.inv.locked with ⟨hone, -⟩ | ⟨-, hfree, hinbox, hqueue⟩
  · rw [hatom] at hone
    cases hone
  · exact ⟨hinbox, hqueue, hfree⟩

end Runs

variable [Fintype τ]

/-- A step of a run serves the waiters in the order of their arrival, and
overtakes nobody. -/
structure Fair (history : List (Mark τ (Cell K) ℕ ω (Point τ K) (Call K)))
    (sys : HeapSystem τ (Cell K) (Fin 1) ℕ ω Unit (Point τ K))
    (marks : List (Mark τ (Cell K) ℕ ω (Point τ K) (Call K))) : Prop where
  /-- A popped waiter arrived before all others in the queue and the inbox. -/
  first : ∀ task point caller waiter,
    .responded task (.unlock point caller) (.handle (some waiter)) ∈ marks →
      waiter ∈ sys.world.lists.store.contents .mutex 0 ∧
        ∀ other ∈ sys.world.lists.store.contents .mutex 0, other ≠ waiter →
          (arrivals history).stamp waiter < (arrivals history).stamp other
  /-- A compare-exchange from 0 to 1 finds the inbox and the queue empty, and no
  owner of the lock. -/
  barging : ∀ task current, .responded task (.lockLoop current) .success ∈ marks →
    current.atom = 0 →
      FutexStore.top sys.world.store .mutex = none ∧
        FutexStore.isEmpty sys.world.store .mutex 0 = true ∧
          ∀ other, ¬ Owner sys.world.handle sys.world.awake other (sys.pc other)

/-- In every run the fair mutex is first in, first out and has no barging. -/
theorem fair_of_trace {history : List (Mark τ (Cell K) ℕ ω (Point τ K) (Call K))}
    {sys : HeapSystem τ (Cell K) (Fin 1) ℕ ω Unit (Point τ K)} {label : τ × Label (Call K) ω}
    {result : HeapSystem τ (Cell K) (Fin 1) ℕ ω Unit (Point τ K) ×
      List (Mark τ (Cell K) ℕ ω (Point τ K) (Call K))}
    (htrace : (machine address).Trace history sys)
    (hnext : (machine address).next sys label = some result) :
    Fair history sys result.2 := by
  obtain ⟨hlists, hrep⟩ := System.lists_of_trace htrace
  obtain ⟨before, hstore, -⟩ := hrep.lists
  obtain ⟨hnext', -⟩ := System.machine_next.mp (System.next_lists htrace hnext)
  have hlocked := locked_of_trace hlists
  have hordered := ordered_of_trace hlists
  obtain ⟨item, point', hnews, -, hturn⟩ := turn hlocked hnext'
  constructor
  · intro task point caller waiter hmark
    have hitem : .pops waiter ∈ item.toList := by
      rw [← hnews]
      exact List.mem_filterMap.mpr ⟨_, hmark, rfl⟩
    rw [Option.mem_toList] at hitem
    subst hitem
    obtain ⟨rest, hline⟩ := hturn.line_of_pops
    have hsorted := hordered.sorted.pairwise
    have hcontents : sys.world.lists.store.contents .mutex 0 = waiter :: rest := hline
    rw [hline] at hsorted
    rw [hcontents]
    refine ⟨List.mem_cons_self, fun other hother hne => ?_⟩
    exact List.rel_of_pairwise_cons hsorted ((List.mem_cons.mp hother).resolve_left hne)
  · intro task current hmark hzero
    obtain ⟨rfl, hpc, input, board', hasks, hstep⟩ := responded_of_next hlocked hnext' hmark
    obtain ⟨hinbox, hqueue, hfree⟩ := free_of_acquire hlocked hpc.symm hzero hasks hstep
    refine ⟨?_, ?_, hfree⟩
    · rw [hstore.top]
      exact List.head?_eq_none_iff.mpr hinbox
    · rw [hstore.isEmpty]
      exact List.isEmpty_iff.mpr hqueue

/-- Two tasks wait, and the first one is popped. -/
theorem fair_of_pop :
    ∃ (history : List (Mark (Fin 3) (Cell Empty) ℕ Unit (Point (Fin 3) Empty) (Call Empty)))
      (sys : HeapSystem (Fin 3) (Cell Empty) (Fin 1) ℕ Unit Unit (Point (Fin 3) Empty))
      (marks : List (Mark (Fin 3) (Cell Empty) ℕ Unit (Point (Fin 3) Empty) (Call Empty))),
      .responded 0 (.unlock .popEnqueued .drop) (.handle (some 1)) ∈ marks ∧
        Fair history sys marks := by
  let lock (task : Fin 3) : List (Fin 3 × Label (Call Empty) Unit) :=
    [(task, .start .lock), (task, .call false ()), (task, .call false ()),
      (task, .call false ())]
  let unlock : List (Fin 3 × Label (Call Empty) Unit) :=
    (0, .start .dropGuard) :: List.replicate 5 (0, .call false ())
  have htrace : (machine 1 : Machine (HeapSystem (Fin 3) (Cell Empty) (Fin 1) ℕ Unit
      Unit (Point (Fin 3) Empty)) _ _).Trace _ _ :=
    ⟨lock 0 ++ lock 1 ++ lock 2 ++ unlock, rfl⟩
  have hfair := fair_of_trace htrace (show (machine 1).next _ (0, .call false ()) = some _
    from rfl)
  exact ⟨_, _, _, List.mem_singleton_self _, hfair⟩

end FairMutex

end AsyncMutex
