import AsyncMutex.FairMutexInvariant

/-!
# The steps of the fair mutex

A future of `lock` or `wait` ends after it was woken, or it is dropped asleep;
with that, every step keeps the invariant and none panics.
-/

namespace AsyncMutex

namespace FairMutex

variable {τ K : Type} {address : ℕ+} {board board' : MutexBoard τ K}
  {pc : τ → Point τ K} {task : τ}

namespace Inv

variable [DecidableEq τ]

/-! ## The end of a pending future -/

/-- The future of a task that waits ends after it was woken, and the task has
the lock. -/
theorem awake (hinv : Inv address board pc) (hwaits : (pc task).waits = true)
    (hawake : board.awake task = true) {pc' : Point τ K} (howns : pc'.owns = true)
    (hwaitsOn : pc'.waitsOn = none) (hpoint : PointInv board pc')
    (hhandle : board'.handle = board.handle) (hatom : board'.atom = board.atom)
    (hstore : board'.store = board.store) (howner : board'.owner = board.owner)
    (hawake' : ∀ other, other ≠ task → board'.awake other = board.awake other)
    (hstage' : ∀ other, other ≠ task → board'.stage other = board.stage other) :
    Inv address board' (Function.update pc task pc') := by
  refine hinv.keep (iff_of_true (Or.inl howns) (Or.inr ⟨hwaits, Or.inr hawake⟩))
    (fun other hother => ?_) (by rw [hatom]) ?_ ?_ (fun other hother => ?_) ?_
  · simp only [Owns, Owner, Handed, hhandle, hawake' other hother]
  · rw [hstore]
    exact fun _ hinbox hqueue => ⟨hinbox, hqueue⟩
  · refine ⟨?_, by simp [hwaitsOn], fun which hpc => ?_, by simp [hwaitsOn],
      fun hwaits' hnone => absurd hnone (waitsOn_of_owns howns hwaits')⟩
    · unfold PointInv at hpoint ⊢
      rw [hstore]
      exact hpoint
    · simp [hpc, Point.waitsOn] at hwaitsOn
  · refine (hinv.tasks other).congr (fun hpoint => ?_) ?_ ?_ ?_ ?_ ?_
    · unfold PointInv at hpoint ⊢
      rw [hstore]
      exact hpoint
    · rw [hstore]
      exact fun _ => id
    · simp only [Handed, hhandle, hawake' other hother]
      exact id
    · rw [hawake' other hother]
      exact id
    · rw [hstage' other hother]
      exact id
    · rw [howner]
      exact id
  · rw [hatom, hstore]
    exact hinv.used

/-- The future of `lock` is dropped before it was woken. -/
theorem cancel (hinv : Inv address board pc) (hpc : pc task = .lockWaiting)
    (hawake : board.awake task = false)
    (hhandle : ∀ other, board.handle other ≠ some task) :
    Inv address (board.setStage task .free) (Function.update pc task .idle) := by
  refine hinv.keep ?_ (fun _ _ => Iff.rfl) rfl
    (fun _ hinbox hqueue => ⟨hinbox, hqueue⟩) (.of_idle rfl rfl)
    (fun other hother => ?_) hinv.used
  · refine iff_of_false (not_owns_of_idle rfl rfl) ?_
    rw [hpc]
    rintro (howns | ⟨-, ⟨other, hother⟩ | hdone⟩)
    · cases howns
    · exact hhandle other hother
    · simp [hawake] at hdone
  · refine (hinv.tasks other).congr id (fun _ => id) id id ?_ id
    simp [Board.setStage, Function.update_of_ne hother]

omit [DecidableEq τ] in
/-- A program point depends only on futexes whose read lock the task has. -/
theorem pointInv_of_unread {point : Point τ K} {futex : Cell K}
    (hread : futex ∉ (holds point).reads) (hpoint : PointInv board point)
    (hinbox : ∀ other, other ≠ futex →
      board'.store.inbox other = board.store.inbox other)
    (hqueues : ∀ other, other ≠ futex →
      board'.store.queues other = board.store.queues other) :
    PointInv board' point := by
  cases point with
  | unlock point caller =>
      cases point <;> try exact trivial
      all_goals
        have hmutex : Cell.mutex ≠ futex := by
          rintro rfl
          exact hread (by simp [holds, unlockHolds])
        simpa only [PointInv, hqueues _ hmutex] using hpoint
  | notify point which =>
      cases point <;> try exact trivial
      have hcondvar : Cell.condvar which ≠ futex := by
        rintro rfl
        exact hread (by simp [holds, notifyHolds])
      simpa only [PointInv, hinbox _ hcondvar] using hpoint
  | _ => trivial

variable [DecidableEq K]

omit [DecidableEq τ] in
/-- A drop flips an inbox while nobody has the read lock. -/
theorem dropFlip (hinv : Inv address board pc)
    (hco : (client address).Coherent holds board pc) {futex : Cell K}
    (hreaders : board.readers futex = ∅) : Inv address (board.flip futex) pc := by
  have hread : ∀ other, futex ∉ (holds (pc other)).reads := by
    intro other hmem
    rw [← (hco.fits other).reads, hreaders] at hmem
    simp at hmem
  refine hinv.still (fun _ => Iff.rfl) rfl ?_ (fun other => ?_) ?_
  · intro _ hinbox hqueue
    by_cases hfutex : futex = .mutex
    · subst hfutex
      simp [Board.flip, Board.setStore, ListStore.arrivals, hinbox, hqueue]
    · simp only [Board.flip, Board.setStore]
      rw [Function.update_of_ne (Ne.symm hfutex), Function.update_of_ne (Ne.symm hfutex)]
      exact ⟨hinbox, hqueue⟩
  · refine (hinv.tasks other).congr (fun hpoint => ?_) ?_ id id id id
    · refine pointInv_of_unread (hread other) hpoint ?_ ?_ <;>
        intro other' hne <;>
        simp [Board.flip, Board.setStore, Function.update_of_ne hne]
    · intro which hlisted
      by_cases hfutex : futex = .condvar which
      · subst hfutex
        have hzero : board.store.queue other = 0 := Subsingleton.elim _ _
        refine Or.inr ?_
        simp only [Board.flip, Board.setStore, Function.update_self, List.mem_append,
          ListStore.arrivals, List.mem_filter, List.mem_reverse]
        rcases hlisted with hinbox | hqueue
        · exact Or.inr ⟨hinbox, by simp [hzero]⟩
        · exact Or.inl hqueue
      · simp only [Board.flip, Board.setStore]
        rw [Function.update_of_ne (Ne.symm hfutex),
          Function.update_of_ne (Ne.symm hfutex)]
        exact hlisted
  · intro which
    rcases hinv.used which with haddress | ⟨hzero, hinbox, hqueue⟩
    · exact Or.inl haddress
    · refine Or.inr ⟨hzero, ?_⟩
      by_cases hfutex : futex = .condvar which
      · subst hfutex
        simp [Board.flip, Board.setStore, ListStore.arrivals, hinbox, hqueue]
      · simp only [Board.flip, Board.setStore]
        rw [Function.update_of_ne (Ne.symm hfutex),
          Function.update_of_ne (Ne.symm hfutex)]
        exact ⟨hinbox, hqueue⟩

/-- A drop takes its waiter out of a queue while nobody has the read lock. -/
theorem dropCancel (hinv : Inv address board pc)
    (hco : (client address).Coherent holds board pc) {futex : Cell K}
    (hstage : board.stage task = .dropping) (hreaders : board.readers futex = ∅) :
    Inv address (board.setStore (FutexStore.cancel board.store futex task)) pc := by
  have hread : ∀ other, futex ∉ (holds (pc other)).reads := by
    intro other hmem
    rw [← (hco.fits other).reads, hreaders] at hmem
    simp at hmem
  have hqueue : ∀ other, other ≠ futex →
      (FutexStore.cancel board.store futex task).queues other =
        board.store.queues other := by
    intro other hne
    simp [FutexStore.cancel, ListStore.setQueue, Function.update_of_ne hne]
  have herase : (FutexStore.cancel board.store futex task).queues futex 0 =
      (board.store.queues futex 0).erase task := by
    have hzero : board.store.queue task = 0 := Subsingleton.elim _ _
    simp [FutexStore.cancel, ListStore.setQueue, hzero]
  refine hinv.still (fun _ => Iff.rfl) rfl ?_ (fun other => ?_) ?_
  · intro _ hinbox hnil
    refine ⟨hinbox, ?_⟩
    by_cases hfutex : futex = .mutex
    · subst hfutex
      simp only [Board.setStore]
      rw [herase, hnil]
      rfl
    · simp only [Board.setStore]
      rw [hqueue _ (Ne.symm hfutex)]
      exact hnil
  · by_cases hother : other = task
    · subst hother
      obtain ⟨queue, hslot⟩ := (hco.fits other).slot_of_stage (Or.inr hstage)
      have hidle := not_owns_of_waiting hslot
      obtain ⟨-, -, hdropping, hmoved, hlocking⟩ := hinv.tasks other
      exact ⟨pointInv_of_not_owns hidle, by simp [hidle], hdropping, hmoved, hlocking⟩
    · refine (hinv.tasks other).congr (fun hpoint => ?_) ?_ id id id id
      · exact pointInv_of_unread (hread other) hpoint (fun _ _ => rfl) hqueue
      · intro which hlisted
        refine hlisted.imp_right fun hmem => ?_
        by_cases hfutex : futex = .condvar which
        · subst hfutex
          simp only [Board.setStore]
          rw [herase]
          exact (List.mem_erase_of_ne hother).mpr hmem
        · simp only [Board.setStore]
          rw [hqueue _ (Ne.symm hfutex)]
          exact hmem
  · intro which
    rcases hinv.used which with haddress | ⟨hzero, hinbox, hnil⟩
    · exact Or.inl haddress
    · refine Or.inr ⟨hzero, hinbox, ?_⟩
      by_cases hfutex : futex = .condvar which
      · subst hfutex
        simp only [Board.setStore]
        rw [herase, hnil]
        rfl
      · simp only [Board.setStore]
        rw [hqueue _ (Ne.symm hfutex)]
        exact hnil

omit [DecidableEq K] in
/-- A drop begins. -/
theorem drop (hinv : Inv address board pc)
    (hawake : ∀ which, pc task = .waitWaiting which → board.awake task = true) :
    Inv address (board.setStage task .dropping) pc := by
  refine hinv.still (fun _ => Iff.rfl) rfl
    (fun _ hinbox hqueue => ⟨hinbox, hqueue⟩) (fun other => ?_) hinv.used
  obtain ⟨hhere, hentering, hdropping, hmoved, hlocking⟩ := hinv.tasks other
  refine ⟨hhere, hentering, fun which hpc hstage => ?_, hmoved, hlocking⟩
  by_cases hother : other = task
  · subst hother
    exact hawake which hpc
  · simp only [Board.setStage, Function.update_of_ne hother] at hstage
    exact hdropping which hpc hstage

/-! ## All steps -/

omit [DecidableEq τ] [DecidableEq K] in
theorem point_of_requeue {point : Point τ K} {futex : Cell K}
    (hcode : code address point = .call (.requeue futex)) :
    futex = .mutex ∧ ∃ which, point = .notify .requeue which := by
  cases point with
  | unlock point caller =>
      cases point <;> simp [code, unlockOp] at hcode
      split at hcode <;> cases hcode
  | notify point which =>
      cases point <;> cases hcode
      exact ⟨rfl, which, rfl⟩
  | lockLoop current =>
      simp only [code] at hcode
      split at hcode <;> cases hcode
  | _ => cases hcode

omit [DecidableEq τ] [DecidableEq K] in
theorem point_of_wake {point : Point τ K}
    (hcode : code address point = .call .wake) :
    ∃ caller, point = .unlock .wake caller := by
  cases point with
  | unlock point caller =>
      cases point <;> simp [code, unlockOp] at hcode ⊢
      split at hcode <;> cases hcode
  | notify point which => cases point <;> cases hcode
  | lockLoop current =>
      simp only [code] at hcode
      split at hcode <;> cases hcode
  | _ => cases hcode

omit [DecidableEq K] in
theorem dropping_of_pending (other : τ)
    (hstage : (board.setStage task .waiting).stage other = .dropping) :
    board.stage other = .dropping := by
  by_cases hother : other = task
  · simp [Board.setStage, hother] at hstage
  · simpa [Board.setStage, Function.update_of_ne hother] using hstage

variable (hco : (client address).Coherent holds board pc)
include hco

omit [DecidableEq τ] in
/-- `borrow_mut` never finds the cell borrowed. -/
theorem borrow (hinv : Inv address board pc) {futex : Cell K}
    (hcode : code address (pc task) = .call (.borrow futex)) :
    board.borrowed futex = none := by
  have howns : (pc task).owns = true := by
    cases hpc : pc task with
    | unlock point caller =>
        rw [hpc] at hcode
        cases point <;> first | rfl | simp [code, unlockOp] at hcode
    | notify point which => rfl
    | lockLoop current =>
        rw [hpc] at hcode
        simp only [code] at hcode
        split at hcode <;> cases hcode
    | _ =>
        rw [hpc] at hcode
        cases hcode
  have hnone : (holds (pc task)).borrow = none :=
    ((typed address).allows (pc task) _ hcode).2
  cases hborrowed : board.borrowed futex with
  | none => rfl
  | some other =>
      have hholds := ((hco.fits other).borrow futex).mp hborrowed
      have hother : other ≠ task := by
        rintro rfl
        simp [hnone] at hholds
      have hidle : (pc other).owns = false := by
        by_contra hother'
        exact not_owns_of_owns hinv howns hother (Or.inl (by simpa using hother'))
      -- the only borrow without the lock is that of a task that popped a waiter
      obtain ⟨caller, hrelease⟩ : ∃ caller, pc other = .unlock .release caller := by
        cases hpc : pc other with
        | unlock point caller =>
            rw [hpc] at hidle hholds
            cases point <;> simp_all [Point.owns, Unlock.owns, holds, unlockHolds]
        | notify point which => simp [hpc, Point.owns] at hidle
        | _ => simp [hpc, holds] at hholds
      have hactivity : board.activity other = .none := by
        cases hcase : board.activity other with
        | none => rfl
        | waking =>
            have hwaking := (hco.fits other).waking hcase
            rw [hrelease] at hwaking
            cases hwaking
        | requeueing futex =>
            have hrequeueing := (hco.fits other).requeueing futex hcase
            rw [hrelease] at hrequeueing
            cases hrequeueing
      have hhand := (hco.fits other).hand hactivity
      rw [hrelease] at hhand
      obtain ⟨waiter, hwaiter⟩ := Option.isSome_iff_exists.mp hhand
      have hhanded := handed_of_handle hco hwaiter
      have htask := hinv.unique waiter task (Or.inr hhanded) (Or.inl howns)
      subst htask
      exact absurd hhanded (not_handed_of_owns hco hinv howns rfl)

theorem quiet (hinv : Inv address board pc) {input : Board.Input τ (Cell K) (Fin 1) ℕ}
    (hasks : (client address).Asks (pc task) input)
    (hdrop : input = .drop → (usage (τ := τ) (K := K)).mayDrop (pc task) (board.awake task) = true)
    (hstep : board.Step task input none board') : Inv address board' pc := by
  cases hstep with
  | wake waiter hhandle => exact wake hco hinv hhandle
  | requeue futex hlist =>
      refine hinv.still (fun _ => Iff.rfl) rfl
        (fun _ hinbox hqueue => ⟨hinbox, hqueue⟩) (fun other => ?_) hinv.used
      exact (hinv.tasks other).congr id (fun _ => id) id id id id
  | silent => exact hinv
  | requeueStore futex waiter hmem hactivity =>
      have hcode := (hco.fits task).requeueing futex hactivity
      rw [(point_of_requeue hcode).1]
      exact hinv.requeueStore waiter
  | drop hstage =>
      refine hinv.drop fun which hpc => ?_
      have hmay := hdrop rfl
      rw [hpc] at hmay
      exact hmay
  | dropFlip futex hstage hreaders => exact hinv.dropFlip hco hreaders
  | dropCancel futex hstage hreaders hmem =>
      exact hinv.dropCancel hco hstage hreaders

omit hco [DecidableEq K] in
/-- A step of `unlock` after which the code has the lock as before. -/
theorem unlockOn (hinv : Inv address board pc) {point point' : Unlock τ}
    {caller : Caller K} (hpc : pc task = .unlock point caller)
    (howns : point'.owns = point.owns)
    (hpoint : PointInv board' (.unlock point' caller))
    (hatom : board'.atom = board.atom) (hstore : board'.store = board.store)
    (hhandle : board'.handle = board.handle) (hawake : board'.awake = board.awake)
    (howner : board'.owner = board.owner) (hstage : board'.stage = board.stage) :
    Inv address board' (Function.update pc task (.unlock point' caller)) := by
  refine hinv.advance hatom (by rw [hstore]) (by rw [hstore]) hhandle hawake howner
    (fun other => by rw [hstage]; exact id) ?_ ?_ ?_ hpoint (by simp)
  · rw [hpc]
    exact howns
  · rw [hpc]
    cases caller <;> rfl
  · rw [hpc]
    cases caller <;> rfl

theorem unlock_answer (hinv : Inv address board pc) {point : Unlock τ}
    {caller : Caller K} (hpc : pc task = .unlock point caller) {resp : Resp τ ℕ}
    (hstep : board.Step task (.call (unlockOp point)) (some resp) board') :
    ∃ pc', resumeUnlock caller point resp = some pc' ∧
      Inv address board' (Function.update pc task pc') := by
  have hhere := (hinv.tasks task).here
  rw [hpc] at hhere
  cases point with
  | lock =>
      cases hstep
      exact ⟨_, rfl, unlockOn hinv hpc rfl trivial rfl rfl rfl rfl rfl rfl⟩
  | borrow =>
      cases hstep
      exact ⟨_, rfl, unlockOn hinv hpc rfl trivial rfl rfl rfl rfl rfl rfl⟩
  | pop =>
      cases hstep
      cases hhead : (board.store.queues .mutex 0).head? with
      | none => exact ⟨_, rfl, popNone hco hinv hpc hhead⟩
      | some waiter => exact ⟨_, rfl, popped hco hinv hpc rfl hhead⟩
  | load =>
      cases hstep
      exact ⟨_, rfl, unlockOn hinv hpc rfl hhere rfl rfl rfl rfl rfl rfl⟩
  | loop current =>
      by_cases hnew : current.hasNewWaiters = true
      · simp only [unlockOp, hnew, if_true] at hstep
        cases hstep
        case cmpxchgEnqueueWeak =>
          refine ⟨_, rfl, enqueue hinv hpc ?_⟩
          intro hnil
          simp [FutexAtom.hasNewWaiters, Board.word, hnil] at hnew
        case cmpxchgEnqueueWeakFails =>
          exact ⟨_, rfl, unlockOn hinv hpc rfl hhere rfl rfl rfl rfl rfl rfl⟩
      · simp only [unlockOp, hnew] at hstep
        cases hstep
        have hinbox : current.inbox = none := by
          simpa [FutexAtom.hasNewWaiters] using hnew
        exact ⟨_, rfl,
          unlockOn hinv hpc rfl ⟨hhere, hinbox⟩ rfl rfl rfl rfl rfl rfl⟩
  | popEnqueued =>
      cases hstep
      cases hhead : (board.store.queues .mutex 0).head? with
      | none => exact absurd (List.head?_eq_none_iff.mp hhead) hhere
      | some waiter => exact ⟨_, rfl, popped hco hinv hpc rfl hhead⟩
  | store current =>
      cases hstep
      case cmpxchgWeak =>
        have hinbox : board.store.inbox .mutex = [] :=
          List.head?_eq_none_iff.mp hhere.2
        exact ⟨_, rfl, release hco hinv hpc hinbox⟩
      case cmpxchgWeakFails =>
        exact ⟨_, rfl, unlockOn hinv hpc rfl hhere.1 rfl rfl rfl rfl rfl rfl⟩
  | borrowAgain current =>
      cases hstep
      exact ⟨_, rfl, unlockOn hinv hpc rfl hhere rfl rfl rfl rfl rfl rfl⟩
  | release =>
      cases hstep
      exact ⟨_, rfl, unlockOn hinv hpc rfl trivial rfl rfl rfl rfl rfl rfl⟩
  | wake => cases hstep
  | done =>
      cases hstep
      refine ⟨_, rfl, hinv.advance rfl rfl rfl rfl rfl rfl (fun _ => id) ?_ ?_ ?_ ?_ ?_⟩
      all_goals cases caller <;> simp [hpc, Caller.resume, Point.owns, Unlock.owns,
        Point.waits, Point.waitsOn, PointInv]

omit hco [DecidableEq K] in
/-- A step of `notify` that changes no queue. -/
theorem notifyOn (hinv : Inv address board pc) {point point' : Notify τ} {which : K}
    (hpc : pc task = .notify point which)
    (hpoint : PointInv board' (.notify point' which))
    (hatom : board'.atom = board.atom)
    (hinbox : board'.store.inbox = board.store.inbox)
    (hqueues : board'.store.queues = board.store.queues)
    (hhandle : board'.handle = board.handle) (hawake : board'.awake = board.awake)
    (howner : board'.owner = board.owner) (hstage : board'.stage = board.stage) :
    Inv address board' (Function.update pc task (.notify point' which)) := by
  refine hinv.advance hatom hinbox hqueues hhandle hawake howner
    (fun other => by rw [hstage]; exact id) ?_ ?_ ?_ hpoint (by simp) <;>
    rw [hpc] <;> rfl

omit hco in
theorem notify_answer (hinv : Inv address board pc) {point : Notify τ} {which : K}
    (hpc : pc task = .notify point which) {resp : Resp τ ℕ}
    (hstep : board.Step task (.call (notifyOp address which point)) (some resp)
      board') :
    ∃ pc', resumeNotify address which point resp = some pc' ∧
      Inv address board' (Function.update pc task pc') := by
  cases point with
  | load count =>
      cases hstep
      rcases hinv.used which with haddress | ⟨hzero, -⟩
      · refine ⟨.notify (.lock count (board.word (.condvar which))) which, ?_,
          notifyOn hinv hpc trivial rfl rfl rfl rfl rfl rfl rfl⟩
        have hatom : (board.word (.condvar which)).atom = address := haddress
        simp [resumeNotify, hatom]
      · refine ⟨.guard, ?_, ?_⟩
        · have hatom : (board.word (.condvar which)).atom = 0 := hzero
          simp [resumeNotify, hatom]
        · refine hinv.advance rfl rfl rfl rfl rfl rfl (fun _ => id) ?_ ?_ ?_ trivial
            (by simp) <;> rw [hpc] <;> rfl
  | enqueue count current =>
      cases hstep
      case cmpxchgEnqueueWeak => exact ⟨_, rfl, collect hinv hpc⟩
      case cmpxchgEnqueueWeakFails =>
        exact ⟨_, rfl, notifyOn hinv hpc trivial rfl rfl rfl rfl rfl rfl rfl⟩
  | popMany count =>
      cases hstep
      exact ⟨_, rfl, popMany hinv hpc⟩
  | requeue =>
      cases hstep
      exact ⟨_, rfl, notifyOn hinv hpc trivial rfl rfl rfl rfl rfl rfl rfl⟩
  | unlock =>
      cases hstep
      refine ⟨.guard, rfl, ?_⟩
      refine hinv.advance rfl rfl rfl rfl rfl rfl (fun _ => id) ?_ ?_ ?_ trivial
        (by simp) <;> rw [hpc] <;> rfl
  | _ =>
      cases hstep
      exact ⟨_, rfl, notifyOn hinv hpc trivial rfl rfl rfl rfl rfl rfl rfl⟩

/-- An operation of `lock` or `wait`. -/
theorem call_answer (hinv : Inv address board pc) {op : Op τ (Cell K) (Fin 1) ℕ}
    (hcode : code address (pc task) = .call op) {resp : Resp τ ℕ}
    (hstep : board.Step task (.call op) (some resp) board') :
    ∃ pc', resume address (pc task) resp = some pc' ∧
      Inv address board' (Function.update pc task pc') := by
  cases hpc : pc task with
  | unlock point caller =>
      rw [hpc] at hcode
      cases hcode
      exact unlock_answer hco hinv hpc hstep
  | notify point which =>
      rw [hpc] at hcode
      cases hcode
      exact notify_answer hinv hpc hstep
  | lockWaiter =>
      rw [hpc] at hcode
      cases hcode
      cases hstep
      refine ⟨.lockLoad, rfl, hinv.newWaiter _ rfl rfl ?_ ?_ rfl trivial⟩ <;>
        rw [hpc] <;> rfl
  | waitWaiter which =>
      rw [hpc] at hcode
      cases hcode
      cases hstep
      refine ⟨.waitLoad which, rfl, hinv.newWaiter _ rfl rfl ?_ ?_ rfl trivial⟩ <;>
        rw [hpc] <;> rfl
  | lockLoad =>
      rw [hpc] at hcode
      cases hcode
      cases hstep
      refine ⟨_, rfl, hinv.advance rfl rfl rfl rfl rfl rfl (fun _ => id) ?_ ?_ ?_
        trivial (by simp)⟩ <;> rw [hpc] <;> rfl
  | lockLoop current =>
      rw [hpc] at hcode
      by_cases hzero : current.atom = 0
      · simp only [code, hzero, if_true] at hcode
        cases hcode
        cases hstep
        case cmpxchgWeak =>
          refine ⟨.guard, by simp [resume, hzero], hinv.acquire hzero⟩
        case cmpxchgWeakFails =>
          refine ⟨_, rfl, hinv.advance rfl rfl rfl rfl rfl rfl (fun _ => id) ?_ ?_ ?_
            trivial (by simp)⟩ <;> rw [hpc] <;> rfl
      · simp only [code, hzero, if_false] at hcode
        cases hcode
        cases hstep
        case cmpxchgWaitWeak =>
          refine ⟨.lockEntered, by simp [resume, hzero], enterLock hco hinv hpc hzero⟩
        case cmpxchgWaitWeakFails =>
          refine ⟨_, rfl, hinv.advance rfl rfl rfl rfl rfl rfl (fun _ => id) ?_ ?_ ?_
            trivial (by simp)⟩ <;> rw [hpc] <;> rfl
  | waitLoad which =>
      rw [hpc] at hcode
      cases hcode
      cases hstep
      have hused : board.atom (.condvar which) = 0 ∨
          board.atom (.condvar which) = address :=
        (hinv.used which).symm.imp_left And.left
      refine ⟨.waitLoop which (board.word (.condvar which)), if_pos hused,
        hinv.advance rfl rfl rfl rfl rfl rfl (fun _ => id) ?_ ?_ ?_
        trivial (by simp)⟩ <;> rw [hpc] <;> rfl
  | waitLoop which current =>
      rw [hpc] at hcode
      cases hcode
      cases hstep
      case cmpxchgWaitWeak => exact ⟨_, rfl, enterWait hco hinv hpc⟩
      case cmpxchgWaitWeakFails =>
        have hused : board.atom (.condvar which) = 0 ∨
            board.atom (.condvar which) = address :=
          (hinv.used which).symm.imp_left And.left
        refine ⟨.waitLoop which (board.word (.condvar which)), if_pos hused,
          hinv.advance rfl rfl rfl rfl rfl rfl (fun _ => id) ?_ ?_ ?_
          trivial (by simp)⟩ <;> rw [hpc] <;> rfl
  | lockEntered =>
      rw [hpc] at hcode
      cases hcode
      cases hstep
      refine ⟨.lockWaiting, rfl, hinv.advance rfl rfl rfl rfl rfl rfl ?_ ?_ ?_ ?_
        trivial (by simp)⟩
      · exact dropping_of_pending
      all_goals
        rw [hpc]
        rfl
  | waitEntered which =>
      rw [hpc] at hcode
      cases hcode
      cases hstep
      refine ⟨.waitWaiting which, rfl, hinv.advance rfl rfl rfl rfl rfl rfl ?_ ?_ ?_ ?_
        trivial (by simp [Board.setStage])⟩
      · exact dropping_of_pending
      all_goals
        rw [hpc]
        rfl
  | idle =>
      rw [hpc] at hcode
      cases hcode
  | lockWaiting =>
      rw [hpc] at hcode
      cases hcode
  | guard =>
      rw [hpc] at hcode
      cases hcode
  | waitWaiting which =>
      rw [hpc] at hcode
      cases hcode

/-- The end of a longer operation, of a poll or of a drop. -/
theorem go_answer (hinv : Inv address board pc) {resp : Resp τ ℕ}
    (hstep : board.Step task .go (some resp) board') :
    ∃ pc', resume address (pc task) resp = some pc' ∧
      Inv address board' (Function.update pc task pc') := by
  have hwaiting : board.stage task = .waiting ∨ board.stage task = .dropping →
      (pc task = .lockWaiting ∨ ∃ which, pc task = .waitWaiting which) := by
    intro hstage
    obtain ⟨queue, hslot⟩ := (hco.fits task).slot_of_stage hstage
    cases hpc : pc task with
    | unlock point caller =>
        rw [hpc] at hslot
        cases point <;> cases caller <;> cases hslot
    | notify point which =>
        rw [hpc] at hslot
        cases point <;> cases hslot
    | lockWaiting => exact Or.inl rfl
    | waitWaiting which => exact Or.inr ⟨which, rfl⟩
    | _ =>
        rw [hpc] at hslot
        cases hslot
  have hwaits : board.stage task = .waiting ∨ board.stage task = .dropping →
      (pc task).waits = true := by
    intro hstage
    rcases hwaiting hstage with h | ⟨which, h⟩ <;> rw [h] <;> rfl
  cases hstep with
  | wakeDone hactivity =>
      obtain ⟨caller, hpc⟩ := point_of_wake ((hco.fits task).waking hactivity)
      rw [hpc]
      exact ⟨_, rfl, unlockOn hinv hpc rfl trivial rfl rfl rfl rfl rfl rfl⟩
  | requeueDone futex hlist hactivity howner =>
      obtain ⟨hfutex, which, hpc⟩ :=
        point_of_requeue ((hco.fits task).requeueing futex hactivity)
      subst hfutex
      rw [hpc]
      exact ⟨_, rfl, hinv.requeueDone hpc⟩
  | ready hstage hawake =>
      have hend : Inv address (board.setStage task .free)
          (Function.update pc task .guard) :=
        hinv.awake (hwaits (Or.inl hstage)) hawake rfl rfl trivial rfl rfl rfl rfl
          (fun _ _ => rfl) (fun other hother => by
            simp [Board.setStage, Function.update_of_ne hother])
      rcases hwaiting (Or.inl hstage) with hpc | ⟨which, hpc⟩ <;> rw [hpc] <;>
        exact ⟨_, rfl, hend⟩
  | cancelWoken hstage hawake =>
      have hend : Inv address ((board.setStage task .free).setAwake task false)
          (Function.update pc task (.unlock .lock .drop)) :=
        hinv.awake (hwaits (Or.inr hstage)) hawake rfl rfl trivial rfl rfl rfl rfl
          (fun other hother => by
            simp [Board.setAwake, Board.setStage, Function.update_of_ne hother])
          (fun other hother => by
            simp [Board.setAwake, Board.setStage, Function.update_of_ne hother])
      rcases hwaiting (Or.inr hstage) with hpc | ⟨which, hpc⟩ <;> rw [hpc] <;>
        exact ⟨_, rfl, hend⟩
  | cancelSleeping hstage hawake hinbox hqueues hlist hhandle =>
      rcases hwaiting (Or.inr hstage) with hpc | ⟨which, hpc⟩
      · rw [hpc]
        exact ⟨_, rfl, hinv.cancel hpc hawake hhandle⟩
      · have hwoken := (hinv.tasks task).dropping which hpc hstage
        rw [hawake] at hwoken
        cases hwoken

end Inv

/-- The fair mutex and its condition variables never panic and keep their
invariant. -/
theorem invariant [DecidableEq τ] [DecidableEq K] (address : ℕ+) :
    (client address).Invariant holds usage
      fun (board : MutexBoard τ K) _ pc => Inv address board pc where
  borrow _ _ _ _ _ hco hinv hcode := hinv.borrow hco hcode
  start board memory pc task call pc' hco hinv hcode hstart hwithin := by
    simp only [client] at hstart
    unfold start at hstart
    split at hstart <;> cases hstart
    all_goals
      rename_i hpc
      refine hinv.advance rfl rfl rfl rfl rfl rfl (fun _ => id) ?_ ?_ ?_ trivial
        (by simp) <;> rw [hpc] <;> rfl
  quiet _ _ _ _ _ _ hco hinv hasks hdrop hstep := hinv.quiet hco hasks hdrop hstep
  answer board memory pc task input resp board' hco hinv hasks hstep := by
    cases input with
    | call op =>
        obtain ⟨pc', hresume, hinv'⟩ := hinv.call_answer hco (hasks op rfl) hstep
        exact ⟨pc', hresume, fun _ => hinv'⟩
    | go =>
        obtain ⟨pc', hresume, hinv'⟩ := hinv.go_answer hco hstep
        exact ⟨pc', hresume, fun _ => hinv'⟩
    | drop => cases hstep
  own _ _ _ task _ _ hcode := by
    simp only [client] at hcode
    exact absurd hcode (code_ne_own address _)

end FairMutex

end AsyncMutex
