import AsyncMutex.FastMutexInvariant

/-!
# The steps of the fast mutex

Every step of `lock`, of the guard and of their futures keeps the invariant, and
none of them panics.
-/

namespace AsyncMutex

namespace FastMutex

variable {τ : Type}

theorem point_of_wake {point : Point τ} (hcode : code point = .call .wake) :
    point = .unlock .wake := by
  cases point with
  | lockLoop current =>
      simp only [code] at hcode
      split at hcode <;> cases hcode
  | againLoop current =>
      simp only [code] at hcode
      split at hcode <;> cases hcode
  | unlock point =>
      cases point with
      | wake => rfl
      | check current =>
          simp only [code, unlockOp] at hcode
          split at hcode <;> cases hcode
      | loop hadWaiters current =>
          simp only [code, unlockOp] at hcode
          split at hcode
          · cases hcode
          · split at hcode <;> cases hcode
      | _ => cases hcode
  | _ => cases hcode

theorem point_of_waiting {point : Point τ} {queue : Fin 1}
    (hslot : (holds point).slot = .waiting queue) : ∃ current, point = .waiting current := by
  cases point with
  | waiting current => exact ⟨current, rfl⟩
  | unlock point => cases point <;> cases hslot
  | _ => cases hslot

namespace Inv

variable [DecidableEq τ] {board board' : MutexBoard τ} {pc : τ → Point τ} {task : τ}
  (hco : (client : Client τ Unit _ _ _ _ _).Coherent holds board pc)
include hco

theorem borrow (hinv : Inv board pc) {futex : Unit}
    (hcode : code (pc task) = .call (.borrow futex)) : board.borrowed futex = none := by
  obtain ⟨owner, carrier, hacc⟩ := hinv
  obtain ⟨current, hpc⟩ : ∃ current, pc task = .unlock (.borrow current) := by
    cases hpc : pc task with
    | unlock point =>
        rw [hpc] at hcode
        cases point with
        | borrow current => exact ⟨current, rfl⟩
        | check current =>
            simp only [code, unlockOp] at hcode
            split at hcode <;> cases hcode
        | loop hadWaiters current =>
            simp only [code, unlockOp] at hcode
            split at hcode
            · cases hcode
            · split at hcode <;> cases hcode
        | _ => cases hcode
    | lockLoop current =>
        rw [hpc] at hcode
        simp only [code] at hcode
        split at hcode <;> cases hcode
    | againLoop current =>
        rw [hpc] at hcode
        simp only [code] at hcode
        split at hcode <;> cases hcode
    | _ =>
        rw [hpc] at hcode
        cases hcode
  have howns : (pc task).owns = true := by
    rw [hpc]
    rfl
  have hwaking : (word board).waking = false := by
    have hpoint := hacc.points task
    rw [hpc] at hpoint
    exact hpoint.1
  have hcarrier := hacc.carrier_eq_none hwaking
  subst hcarrier
  cases hborrowed : board.borrowed futex with
  | none => rfl
  | some other =>
      have hholds := ((hco.fits other).borrow futex).mp hborrowed
      have hother : other ≠ task := by
        rintro rfl
        rw [hpc] at hholds
        cases hholds
      have hidle := hacc.not_owns howns hother
      cases hpoint : pc other with
      | unlock point =>
          rw [hpoint] at hholds hidle
          cases point with
          | pop =>
              have hpops := (hacc.pops other).mp hpoint
              cases hpops
          | release =>
              obtain ⟨waiter, hwaiter⟩ := hco.exists_handle (by rw [hpoint]; rfl)
                (by rw [hpoint]; simp [client, code, unlockOp])
                (by rw [hpoint]; simp [client, code, unlockOp])
              have hwaits :=
                Accounts.waits_of_listed hco (Or.inr (Or.inl ⟨other, hwaiter⟩))
              have hwoken : Woken board.handle board.awake waiter (pc waiter) :=
                Or.inr ⟨hwaits, Or.inl ⟨other, hwaiter⟩⟩
              have hcarries := (hacc.woken waiter).mp hwoken
              cases hcarries
          | leave =>
              have hfalse := hacc.points other
              rw [hpoint] at hfalse
              exact hfalse.elim
          | isEmpty current => cases hidle
          | loop hadWaiters current => cases hidle
          | _ => cases hholds
      | _ =>
          rw [hpoint] at hholds
          cases hholds

variable [Fintype τ] (hfew : crowd pc < 2 ^ 62)
include hfew

omit hco [Fintype τ] hfew in
theorem start (hinv : Inv board pc) {call : Call} {pc' : Point τ}
    (hstart : FastMutex.start (pc task) call = some pc') :
    Inv board (Function.update pc task pc') := by
  obtain ⟨owner, carrier, hacc⟩ := hinv
  refine ⟨owner, carrier, ?_⟩
  unfold FastMutex.start at hstart
  split at hstart <;> cases hstart
  case h_1 _ hpc =>
    refine hacc.advance rfl rfl rfl rfl ?_ ?_ ?_ ?_ trivial hacc.undropped <;>
      simp [hpc, Point.owns, Point.waits, Point.competes]
  case h_2 _ hpc =>
    refine hacc.advance rfl rfl rfl rfl ?_ ?_ ?_ ?_ trivial hacc.undropped <;>
      simp [hpc, Point.owns, Unlock.owns, Point.waits, Point.competes]

omit [Fintype τ] hfew in
theorem quiet (hinv : Inv board pc) {input : Board.Input τ Unit (Fin 1) ℕ}
    (hasks : (client : Client τ Unit _ _ _ _ _).Asks (pc task) input)
    (hdrop : input ≠ .drop) (hstep : board.Step task input none board') : Inv board' pc := by
  obtain ⟨owner, carrier, hacc⟩ := hinv
  cases hstep with
  | wake waiter hhandle => exact ⟨owner, carrier, hacc.wake hco hhandle⟩
  | requeue futex hlist => exact absurd (hasks _ rfl) (code_ne_requeue _ _)
  | silent => exact ⟨owner, carrier, hacc⟩
  | requeueStore futex waiter hmem hactivity =>
      exact absurd ((hco.fits task).requeueing futex hactivity) (code_ne_requeue _ _)
  | drop hstage => exact absurd rfl hdrop
  | dropFlip futex hstage hreaders => exact absurd hstage (hacc.undropped task)
  | dropCancel futex hstage hreaders hmem => exact absurd hstage (hacc.undropped task)

omit hco [Fintype τ] hfew in
/-- A step of `unlock` that changes neither the word nor a list. -/
theorem unlockOn {owner : Option τ} {carrier : Carrier τ}
    (hacc : Accounts board pc owner carrier) {point point' : Unlock τ}
    (hpc : pc task = .unlock point) (howns : point'.owns = point.owns)
    (hpop : point' ≠ .pop) (hpop' : point ≠ .pop)
    (hpoint : PointInv (word board).waking (inbox board) (queue board) (.unlock point'))
    (hatom : board'.atom = board.atom) (hstore : board'.store = board.store)
    (hhandle : board'.handle = board.handle) (hawake : board'.awake = board.awake)
    (hstage : board'.stage = board.stage) :
    Inv board' (Function.update pc task (.unlock point')) := by
  refine ⟨owner, carrier, hacc.advance hatom hstore hhandle hawake ?_ ?_ ?_ ?_ hpoint ?_⟩
  · rw [hpc]
    exact howns
  · rw [hpc]
    rfl
  · rw [hpc]
    rfl
  · rw [hpc]
    simp [hpop, hpop']
  · rw [hstage]
    exact hacc.undropped

omit hco hfew [Fintype τ] [DecidableEq τ] in
/-- A word with waiters and without a wakeup: some list has them. -/
theorem stocked {owner : Option τ} {carrier : Carrier τ} (hacc : Accounts board pc owner carrier)
    (hwaking : (word board).waking = false) (hwaiters : (word board).waiters ≠ 0)
    (hqueue : queue board = []) : (board.word ()).inbox ≠ none ∧ inbox board ≠ [] := by
  have hcarrier := hacc.carrier_eq_none hwaking
  subst hcarrier
  have hinbox : inbox board ≠ [] := by
    intro hinbox
    apply hwaiters
    rw [hacc.waiters, hinbox, hqueue]
    rfl
  refine ⟨fun hnone => hinbox ?_, hinbox⟩
  exact List.head?_eq_none_iff.mp hnone

omit hco in
/-- No count of a reachable state overflows. -/
theorem bound {owner : Option τ} {carrier : Carrier τ}
    (hco : (client : Client τ Unit _ _ _ _ _).Coherent holds board pc)
    (hacc : Accounts board pc owner carrier) : (word board).waiters < 2 ^ 62 :=
  Nat.lt_of_le_of_lt (hacc.waiters_le hco) hfew

omit hco hfew [Fintype τ] [DecidableEq τ] in
theorem unlockAt_eq_some {hadWaiters : Bool} {current : FutexAtom τ ℕ}
    (hnew : hadWaiters = false → current.inbox ≠ none) :
    unlockAt hadWaiters current = some (.unlock (.loop hadWaiters current)) := by
  apply if_neg
  rintro ⟨hnot, hnone, -⟩
  exact hnew hnot (by simpa [FutexAtom.hasNewWaiters] using hnone)

omit hco [Fintype τ] hfew in
/-- The second loop of `unlock` goes around again. -/
theorem loopAgain {owner : Option τ} {carrier : Carrier τ}
    (hacc : Accounts board pc owner carrier) {hadWaiters : Bool} {current : FutexAtom τ ℕ}
    (hpc : pc task = .unlock (.loop hadWaiters current)) :
    ∃ pc', unlockAt hadWaiters (board.word ()) = some pc' ∧
      Inv board (Function.update pc task pc') := by
  have hpoint := hacc.points task
  rw [hpc] at hpoint
  obtain ⟨hwaking, hhad, hnone⟩ := hpoint
  have hnew (hnot : hadWaiters = false) : (board.word ()).inbox ≠ none := fun hinbox =>
    (hnone hnot).2 (List.head?_eq_none_iff.mp hinbox)
  refine ⟨_, unlockAt_eq_some hnew, unlockOn hacc hpc rfl (by simp) (by simp)
    ⟨hwaking, hhad, fun hnot => ⟨hnew hnot, (hnone hnot).2⟩⟩ rfl rfl rfl rfl rfl⟩

theorem loop_answer {owner : Option τ} {carrier : Carrier τ}
    (hacc : Accounts board pc owner carrier) {hadWaiters : Bool} {current : FutexAtom τ ℕ}
    (hpc : pc task = .unlock (.loop hadWaiters current)) {resp : Resp τ ℕ}
    (hstep : board.Step task (.call (unlockOp (.loop hadWaiters current))) (some resp) board') :
    ∃ pc', resumeUnlock (.loop hadWaiters current) resp = some pc' ∧
      Inv board' (Function.update pc task pc') := by
  have hpoint := hacc.points task
  rw [hpc] at hpoint
  obtain ⟨hwaking, hhad, hnone⟩ := hpoint
  have hbound := bound hfew hco hacc
  by_cases hwaiters : hadWaiters = true
  · simp only [unlockOp, hwaiters, if_true] at hstep
    cases hstep
    case cmpxchgWeak =>
      refine ⟨.unlock .pop, ?_, none, .unlock task, hacc.free_slow hpc
        (word_setAtom board hbound) rfl (hhad hwaiters) rfl rfl rfl⟩
      have hasleep : (atomOf (board.word ())).waking = false := hwaking
      simp [resumeUnlock, hwaiters, hasleep]
    case cmpxchgWeakFails =>
      exact loopAgain hacc hpc
  · have hnot : hadWaiters = false := by simpa using hwaiters
    obtain ⟨hcurrent, hinbox⟩ := hnone hnot
    have hnew : current.hasNewWaiters = true := by
      simpa [FutexAtom.hasNewWaiters, Option.isSome_iff_ne_none] using hcurrent
    simp only [unlockOp, hnot, hnew, if_true] at hstep
    cases hstep
    case cmpxchgEnqueueWeak =>
      have hqueue : queue ((board.flip ()).setAtom () (handOver (board.word ()))) =
          queue board ++ (inbox board).reverse := by
        rw [← arrivals_eq]
        simp [queue, Board.flip, Board.setAtom, Board.setStore]
      have hflipped : inbox ((board.flip ()).setAtom () (handOver (board.word ()))) = [] := by
        simp [inbox, Board.flip, Board.setAtom, Board.setStore]
      refine ⟨.unlock .pop, ?_, none, .unlock task, hacc.free_slow hpc
        (word_setAtom (board.flip ()) hbound) ?_ ?_ rfl rfl rfl⟩
      · have hasleep : (atomOf (board.word ())).waking = false := hwaking
        simp [resumeUnlock, hnew, hasleep]
      · rw [hflipped, hqueue, List.length_append, List.length_reverse, List.length_nil]
        omega
      · rw [hqueue]
        simp [hinbox]
    case cmpxchgEnqueueWeakFails =>
      exact loopAgain hacc hpc

theorem unlock_answer {owner : Option τ} {carrier : Carrier τ}
    (hacc : Accounts board pc owner carrier) {point : Unlock τ} (hpc : pc task = .unlock point)
    {resp : Resp τ ℕ} (hstep : board.Step task (.call (unlockOp point)) (some resp) board') :
    ∃ pc', resumeUnlock point resp = some pc' ∧ Inv board' (Function.update pc task pc') := by
  have hpoint := hacc.points task
  rw [hpc] at hpoint
  cases point with
  | load =>
      cases hstep
      exact ⟨_, rfl, unlockOn hacc hpc rfl (by simp) (by simp)
        (fun hwaking hwaiters => ⟨hwaking, stocked hacc hwaking hwaiters⟩) rfl rfl rfl rfl rfl⟩
  | check current =>
      by_cases hfast : (atomOf current).waking = true ∨ (atomOf current).waiters = 0
      · simp only [unlockOp, hfast, if_true] at hstep
        cases hstep
        case cmpxchgWeak =>
          refine ⟨.idle, rfl, none, carrier, hacc.free_fast ?_ hfast (bound hfew hco hacc)⟩
          rw [hpc]
          rfl
        case cmpxchgWeakFails =>
          exact ⟨_, rfl, unlockOn hacc hpc rfl (by simp) (by simp)
            (fun hwaking hwaiters => ⟨hwaking, stocked hacc hwaking hwaiters⟩)
              rfl rfl rfl rfl rfl⟩
      · simp only [unlockOp, hfast, if_false] at hstep
        cases hstep
        rw [not_or] at hfast
        have hslow := hpoint (by simpa using hfast.1) hfast.2
        exact ⟨_, rfl, unlockOn hacc hpc rfl (by simp) (by simp) hslow
          rfl rfl rfl rfl rfl⟩
  | borrow current =>
      cases hstep
      exact ⟨_, rfl, unlockOn hacc hpc rfl (by simp) (by simp) hpoint
        rfl rfl rfl rfl rfl⟩
  | isEmpty current =>
      cases hstep
      obtain ⟨hwaking, hstock⟩ := hpoint
      have hempty : (board.store.queues () 0).isEmpty = true ↔ queue board = [] :=
        List.isEmpty_iff
      have hnew (hnot : (!(board.store.queues () 0).isEmpty) = false) :
          current.inbox ≠ none ∧ inbox board ≠ [] := by
        apply hstock
        rw [← hempty]
        simpa using hnot
      refine ⟨_, unlockAt_eq_some fun hnot => (hnew hnot).1, unlockOn hacc hpc rfl
        (by simp) (by simp) ⟨hwaking, fun hhad => ?_, hnew⟩ rfl rfl rfl rfl rfl⟩
      rw [Ne, ← hempty]
      simpa using hhad
  | loop hadWaiters current => exact loop_answer hco hfew hacc hpc hstep
  | pop =>
      cases hqueue : queue board with
      | nil => exact absurd hqueue hpoint
      | cons waiter rest =>
          have hlist : board.store.queues () 0 = waiter :: rest := hqueue
          cases hstep
          rw [hlist]
          exact ⟨_, rfl, owner, .woken waiter, hacc.popped hco hpc hqueue⟩
  | release =>
      cases hstep
      exact ⟨_, rfl, unlockOn hacc hpc rfl (by simp) (by simp) trivial
        rfl rfl rfl rfl rfl⟩
  | wake => cases hstep
  | leave => exact hpoint.elim
  | done =>
      cases hstep
      refine ⟨_, rfl, owner, carrier, hacc.advance rfl rfl rfl rfl ?_ ?_ ?_ ?_ trivial
        hacc.undropped⟩ <;>
        simp [hpc, Point.owns, Unlock.owns, Point.waits, Point.competes]

omit hco hfew [Fintype τ] [DecidableEq τ] in
theorem lockAt_eq_some {current : FutexAtom τ ℕ} (hwaiters : (atomOf current).waiters < 2 ^ 62) :
    lockAt current = some (.lockLoop current) := by
  apply if_neg
  rintro ⟨-, hmax⟩
  simp only [WaiterList.usizeMax] at hmax
  omega

omit hco hfew [Fintype τ] [DecidableEq τ] in
theorem againAt_eq_some {current : FutexAtom τ ℕ}
    (hwaiters : (atomOf current).locked = false → (atomOf current).waiters ≠ 0) :
    againAt current = some (.againLoop current) := by
  apply if_neg
  rintro ⟨hlocked, hzero⟩
  exact hwaiters hlocked hzero

/-- The first loop of `lock` goes around again. -/
theorem lockAgain {owner : Option τ} {carrier : Carrier τ} (hacc : Accounts board pc owner carrier)
    {current : FutexAtom τ ℕ} (hpc : pc task = .lockLoop current) :
    ∃ pc', lockAt (board.word ()) = some pc' ∧ Inv board (Function.update pc task pc') := by
  refine ⟨_, lockAt_eq_some (bound hfew hco hacc), owner, carrier,
    hacc.advance rfl rfl rfl rfl ?_ ?_ ?_ ?_ trivial hacc.undropped⟩ <;>
      simp [hpc, Point.owns, Point.waits, Point.competes]

omit [DecidableEq τ] hco [Fintype τ] hfew in
/-- A free word that a woken task sees counts that task. -/
theorem waiters_ne_zero {owner : Option τ} {carrier : Carrier τ}
    (hacc : Accounts board pc owner carrier) (hcompetes : (pc task).competes = true) :
    (word board).waiters ≠ 0 := by
  have hcarrier : carrier = .woken task := (hacc.woken task).mp (Or.inl hcompetes)
  rw [hacc.waiters, hcarrier]
  simp [Carrier.waiters]

omit hco [Fintype τ] hfew in
/-- The second loop of `lock` goes around again. -/
theorem againAgain {owner : Option τ} {carrier : Carrier τ} (hacc : Accounts board pc owner carrier)
    {current : FutexAtom τ ℕ} (hpc : pc task = .againLoop current) :
    ∃ pc', againAt (board.word ()) = some pc' ∧ Inv board (Function.update pc task pc') := by
  have hcounted : (word board).waiters ≠ 0 :=
    waiters_ne_zero hacc (by rw [hpc]; rfl)
  refine ⟨_, againAt_eq_some fun _ => hcounted, owner, carrier,
    hacc.advance rfl rfl rfl rfl ?_ ?_ ?_ ?_ (fun _ => hcounted) hacc.undropped⟩ <;>
      simp [hpc, Point.owns, Point.waits, Point.competes]

theorem lock_answer {owner : Option τ} {carrier : Carrier τ}
    (hacc : Accounts board pc owner carrier) {current : FutexAtom τ ℕ}
    (hpc : pc task = .lockLoop current) {op : Op τ Unit (Fin 1) ℕ}
    (hcode : code (.lockLoop current) = .call op) {resp : Resp τ ℕ}
    (hstep : board.Step task (.call op) (some resp) board') :
    ∃ pc', resume (.lockLoop current) resp = some pc' ∧
      (crowd (Function.update pc task pc') < 2 ^ 62 →
        Inv board' (Function.update pc task pc')) := by
  have hagain : ∃ pc', lockAt (board.word ()) = some pc' ∧
      (crowd (Function.update pc task pc') < 2 ^ 62 →
        Inv board (Function.update pc task pc')) := by
    obtain ⟨pc', hresume, hinv⟩ := lockAgain hco hfew hacc hpc
    exact ⟨pc', hresume, fun _ => hinv⟩
  by_cases hlocked : (atomOf current).locked = true
  · rw [code, if_pos hlocked] at hcode
    cases hcode
    cases hstep
    case cmpxchgWaitWeak =>
      refine ⟨.entered (board.word ()), by simp [resume, hlocked], fun hmore =>
        ⟨owner, carrier, ?_⟩⟩
      have hle := hacc.waiters_le hco
      rw [crowd_update (by rw [hpc]; rfl) rfl] at hmore
      exact hacc.sleep hco hpc hlocked hlocked (by omega)
    case cmpxchgWaitWeakFails => exact hagain
  · rw [code, if_neg hlocked] at hcode
    cases hcode
    cases hstep
    case cmpxchgWeak =>
      refine ⟨.guard, by simp [resume, hlocked], fun _ => ⟨some task, carrier, ?_⟩⟩
      exact hacc.acquire hpc (Bool.eq_false_of_not_eq_true hlocked) (bound hfew hco hacc)
    case cmpxchgWeakFails => exact hagain

theorem again_answer {owner : Option τ} {carrier : Carrier τ}
    (hacc : Accounts board pc owner carrier) {current : FutexAtom τ ℕ}
    (hpc : pc task = .againLoop current) {op : Op τ Unit (Fin 1) ℕ}
    (hcode : code (.againLoop current) = .call op) {resp : Resp τ ℕ}
    (hstep : board.Step task (.call op) (some resp) board') :
    ∃ pc', resume (.againLoop current) resp = some pc' ∧
      Inv board' (Function.update pc task pc') := by
  by_cases hlocked : (atomOf current).locked = true
  · rw [code, if_pos hlocked] at hcode
    cases hcode
    cases hstep
    case cmpxchgWaitWeak =>
      refine ⟨.entered (board.word ()), by simp [resume, hlocked], owner, .none, ?_⟩
      exact hacc.sleepAgain hco hpc hlocked hlocked (bound hfew hco hacc)
    case cmpxchgWaitWeakFails => exact againAgain hacc hpc
  · rw [code, if_neg hlocked] at hcode
    cases hcode
    cases hstep
    case cmpxchgWeak =>
      refine ⟨.guard, by simp [resume, hlocked], some task, .none, ?_⟩
      exact hacc.acquireAgain hpc (Bool.eq_false_of_not_eq_true hlocked) (bound hfew hco hacc)
    case cmpxchgWeakFails => exact againAgain hacc hpc

theorem call_answer (hinv : Inv board pc) {op : Op τ Unit (Fin 1) ℕ}
    (hcode : code (pc task) = .call op) {resp : Resp τ ℕ}
    (hstep : board.Step task (.call op) (some resp) board') :
    ∃ pc', resume (pc task) resp = some pc' ∧
      (crowd (Function.update pc task pc') < 2 ^ 62 →
        Inv board' (Function.update pc task pc')) := by
  obtain ⟨owner, carrier, hacc⟩ := hinv
  have hpoint := hacc.points task
  cases hpc : pc task with
  | lockLoop current =>
      rw [hpc] at hcode
      exact lock_answer hco hfew hacc hpc hcode hstep
  | againLoop current =>
      rw [hpc] at hcode
      obtain ⟨pc', hresume, hinv⟩ := again_answer hco hfew hacc hpc hcode hstep
      exact ⟨pc', hresume, fun _ => hinv⟩
  | unlock point =>
      rw [hpc] at hcode
      cases hcode
      obtain ⟨pc', hresume, hinv⟩ := unlock_answer hco hfew hacc hpc hstep
      exact ⟨pc', hresume, fun _ => hinv⟩
  | lockLoad =>
      rw [hpc] at hcode
      cases hcode
      cases hstep
      refine ⟨_, rfl, fun _ => ⟨owner, carrier, hacc.advance rfl rfl rfl rfl ?_ ?_ ?_ ?_
        (bound hfew hco hacc) hacc.undropped⟩⟩ <;>
          simp [hpc, Point.owns, Point.waits, Point.competes]
  | lockWaiter current =>
      rw [hpc] at hcode hpoint
      cases hcode
      cases hstep
      refine ⟨_, lockAt_eq_some hpoint, fun _ => ⟨owner, carrier,
        hacc.newWaiter ?_ ?_ rfl ?_ ?_ trivial⟩⟩ <;>
          simp [hpc, Point.owns, Point.waits, Point.competes]
  | again current =>
      rw [hpc] at hcode hpoint
      cases hcode
      cases hstep
      have hlocked (hfree : (atomOf current).locked = false) :
          (atomOf current).waiters ≠ 0 := by
        have hlocked : (atomOf current).locked = true := hpoint
        simp [hlocked] at hfree
      refine ⟨_, againAt_eq_some hlocked, fun _ => ⟨owner, carrier,
        hacc.newWaiter ?_ ?_ rfl ?_ ?_ hlocked⟩⟩ <;>
          simp [hpc, Point.owns, Point.waits, Point.competes]
  | entered current =>
      rw [hpc] at hcode hpoint
      cases hcode
      cases hstep
      refine ⟨_, rfl, fun _ => ⟨owner, carrier,
        hacc.advance rfl rfl rfl rfl ?_ ?_ ?_ ?_ hpoint ?_⟩⟩
      all_goals try simp [hpc, Point.owns, Point.waits, Point.competes]
      intro other
      simp only [Board.setStage, Function.update_apply]
      split
      · simp
      · exact hacc.undropped other
  | idle =>
      rw [hpc] at hcode
      cases hcode
  | waiting current =>
      rw [hpc] at hcode
      cases hcode
  | guard =>
      rw [hpc] at hcode
      cases hcode

omit hfew [Fintype τ] in
/-- The end of a wakeup or of a poll. -/
theorem go_answer (hinv : Inv board pc) {resp : Resp τ ℕ}
    (hstep : board.Step task .go (some resp) board') :
    ∃ pc', resume (pc task) resp = some pc' ∧ Inv board' (Function.update pc task pc') := by
  obtain ⟨owner, carrier, hacc⟩ := hinv
  have hpoint := hacc.points task
  cases hstep with
  | wakeDone hactivity =>
      have hpc := point_of_wake ((hco.fits task).waking hactivity)
      rw [hpc]
      refine ⟨_, rfl, owner, carrier, hacc.advance rfl rfl rfl rfl ?_ ?_ ?_ ?_ trivial
        hacc.undropped⟩ <;>
          simp [hpc, Point.owns, Unlock.owns, Point.waits, Point.competes]
  | requeueDone futex hlist hactivity howner =>
      exact absurd ((hco.fits task).requeueing futex hactivity) (code_ne_requeue _ _)
  | ready hstage hawake =>
      obtain ⟨queue, hslot⟩ := (hco.fits task).slot_of_stage (Or.inl hstage)
      obtain ⟨current, hpc⟩ := point_of_waiting hslot
      rw [hpc] at hpoint ⊢
      refine ⟨.again current, rfl, owner, carrier, hacc.keep rfl rfl rfl ?_ ?_ ?_
        (fun other _ => Iff.rfl) hpoint ?_⟩
      · rw [hpc]
        rfl
      · simp [hpc]
      · apply iff_of_true
        · exact Or.inl rfl
        · rw [hpc]
          exact Or.inr ⟨rfl, Or.inr hawake⟩
      · intro other
        simp only [Board.setStage, Function.update_apply]
        split
        · simp
        · exact hacc.undropped other
  | cancelWoken hstage hawake => exact absurd hstage (hacc.undropped task)
  | cancelSleeping hstage hawake hinbox hqueues hlist hhandle =>
      exact absurd hstage (hacc.undropped task)

end Inv

/-- The fast mutex never panics and keeps its invariant while fewer than `2 ^ 62`
tasks wait. -/
theorem invariant_of_few [DecidableEq τ] [Fintype τ] :
    (client : Client τ Unit _ _ Unit _ _).Invariant holds usage
      (fun (board : MutexBoard τ) _ pc => Inv board pc ∧ crowd pc < 2 ^ 62)
      fun _ pc => crowd pc < 2 ^ 62 where
  borrow _ _ _ _ _ hco hinv hcode := hinv.1.borrow hco hcode
  start _ _ _ _ _ _ hco hinv _ hstart hfew := ⟨hinv.1.start hstart, hfew⟩
  quiet _ _ _ _ _ _ hco hinv hasks hdrop hstep := by
    refine ⟨hinv.1.quiet hco hasks ?_ hstep, hinv.2⟩
    intro hinput
    cases hdrop hinput
  answer board memory pc task input resp board' hco hinv hasks hstep := by
    cases input with
    | call op =>
        obtain ⟨pc', hresume, hinv'⟩ := hinv.1.call_answer hco hinv.2 (hasks op rfl) hstep
        exact ⟨pc', hresume, fun hfew => ⟨hinv' hfew, hfew⟩⟩
    | go =>
        obtain ⟨pc', hresume, hinv'⟩ := hinv.1.go_answer hco hstep
        exact ⟨pc', hresume, fun hfew => ⟨hinv', hfew⟩⟩
    | drop => cases hstep
  own _ _ _ task _ _ hcode := by
    simp only [client] at hcode
    exact absurd hcode (code_ne_own _)

/-- Fewer than `2 ^ 62` tasks are always few enough. -/
theorem invariant [DecidableEq τ] [Fintype τ] (hcard : Fintype.card τ < 2 ^ 62) :
    (client : Client τ Unit _ _ Unit _ _).Invariant holds usage
      fun (board : MutexBoard τ) _ pc => Inv board pc := by
  have hfew (pc : τ → Point τ) : crowd pc < 2 ^ 62 :=
    Nat.lt_of_le_of_lt (crowd_le_card pc) hcard
  exact (invariant_of_few : Client.Invariant client holds usage _ _).imp
    (fun _ _ _ hinv => ⟨hinv, hfew _⟩) (fun _ _ _ hinv => hinv.1) fun _ pc _ => hfew pc

end FastMutex

end AsyncMutex
