import AsyncMutex.FairMutexesProgram

/-!
# The invariant of several mutexes

Through the window of one mutex the tasks run the code of a fair mutex, and a
task that holds or has forgotten its guard looks like one with a guard.  So
every mutex keeps the invariant of the fair mutex, whatever the others do.
-/

namespace AsyncMutex

namespace FairMutexes

variable {τ M K : Type} [DecidableEq τ] [DecidableEq M] [DecidableEq K]

/-- What a task does, seen from one mutex. -/
def Spot.view (mutex : M) (spot : Spot τ M K) : FairMutex.Point τ K :=
  if spot.mutex = mutex ∧ spot.point ≠ .idle then spot.point else (spot.guards mutex).point

/-- The futex of a mutex, the condition variables that no other mutex is bound
to, and the tasks whose call was made with the mutex. -/
def window (address : M ↪ ℕ+) (atom : Site M K → ℕ) (pc : τ → Spot τ M K) (mutex : M) :
    Window τ (FairMutex.Cell K) (Site M K) (Fin 1) ℕ where
  site := site mutex
  name := cell
  named := cell_site mutex
  shown
    | .mutex => true
    | .condvar which =>
        decide (atom (.condvar which) = 0 ∨ atom (.condvar which) = address mutex)
  unused := 0
  mine task := decide ((pc task).mutex = mutex)
  home := .mutex
  lane := 0

abbrev MutexesBoard (τ M K : Type) := Board τ (Site M K) (Fin 1) ℕ

/-- What one mutex sees of the board. -/
def sight (address : M ↪ ℕ+) (board : MutexesBoard τ M K) (pc : τ → Spot τ M K) (mutex : M) :
    FairMutex.MutexBoard τ K :=
  (window address board.atom pc mutex).sight board

structure Inv (address : M ↪ ℕ+) (board : MutexesBoard τ M K) (pc : τ → Spot τ M K) :
    Prop where
  views : ∀ mutex, FairMutex.Inv (address mutex) (sight address board pc mutex)
    fun task => (pc task).view mutex
  apart : ∀ mutex, (window address board.atom pc mutex).Apart board
  bound : ∀ which, board.atom (.condvar which) = 0 ∨
    ∃ mutex, board.atom (.condvar which) = address mutex
  /-- `notify` goes on with the mutex that its condition variable is bound to. -/
  notifies : ∀ task point which, (pc task).point = .notify point which →
    (∀ count, point ≠ .load count) →
      board.atom (.condvar which) = address (pc task).mutex
  /-- The assertion of `wait` held. -/
  waiting : ∀ task which current, (pc task).point = .waitLoop which current →
    current.atom = 0 ∨ current.atom = address (pc task).mutex
  calls : ∀ task, (pc task).point ≠ .idle → (pc task).guards (pc task).mutex = .none

variable {address : M ↪ ℕ+} {board board' : MutexesBoard τ M K} {pc : τ → Spot τ M K}
  {task : τ} {spot : Spot τ M K} {mutex : M} {which : K}

/-! ## Views -/

theorem view_of_point (hpoint : spot.point ≠ .idle) : spot.view spot.mutex = spot.point :=
  if_pos ⟨rfl, hpoint⟩

theorem view_of_idle (hpoint : spot.point = .idle) :
    spot.view mutex = (spot.guards mutex).point :=
  if_neg fun hcall => hcall.2 hpoint

theorem view_of_ne (hmutex : spot.mutex ≠ mutex) :
    spot.view mutex = (spot.guards mutex).point :=
  if_neg fun hcall => hmutex hcall.1

omit [DecidableEq τ] [DecidableEq K] in
theorem holds_point (guard : Guard) :
    FairMutex.holds (guard.point : FairMutex.Point τ K) = {} := by
  cases guard <;> rfl

omit [DecidableEq τ] [DecidableEq K] in
theorem code_point (address : ℕ+) (guard : Guard) :
    FairMutex.code address (guard.point : FairMutex.Point τ K) = .rest := by
  cases guard <;> rfl

omit [DecidableEq τ] [DecidableEq K] in
theorem waits_point (guard : Guard) :
    (guard.point : FairMutex.Point τ K).waits = false := by
  cases guard <;> rfl

theorem holds_view : FairMutex.holds (spot.view spot.mutex) = FairMutex.holds spot.point := by
  by_cases hpoint : spot.point = .idle
  · rw [view_of_idle hpoint, holds_point, hpoint]
    rfl
  · rw [view_of_point hpoint]

theorem code_view (address : ℕ+) :
    FairMutex.code address (spot.view spot.mutex) = FairMutex.code address spot.point := by
  by_cases hpoint : spot.point = .idle
  · rw [view_of_idle hpoint, code_point, hpoint]
    rfl
  · rw [view_of_point hpoint]

theorem view_goOn_of_ne (hmutex : spot.mutex ≠ mutex) (point : FairMutex.Point τ K) :
    (spot.goOn point).view mutex = spot.view mutex := by
  rw [view_of_ne hmutex, view_of_ne (by simpa using hmutex)]
  cases point <;> simp [Spot.goOn, Spot.setGuard, Function.update_of_ne (Ne.symm hmutex)]

theorem view_panic_of_ne (hmutex : spot.mutex ≠ mutex) (guard : Guard) :
    (spot.panic guard).view mutex = spot.view mutex := by
  have hpanic : (spot.panic guard).view mutex = ((spot.panic guard).guards mutex).point :=
    view_of_idle rfl
  rw [view_of_ne hmutex, hpanic]
  simp [Spot.panic, Spot.setGuard, Function.update_of_ne (Ne.symm hmutex)]

theorem view_call {point : FairMutex.Point τ K} (hcall : point ≠ .idle) :
    (spot.call mutex point).view mutex = point :=
  view_of_point hcall

theorem view_call_of_ne {other : M} (hidle : spot.point = .idle) (hmutex : other ≠ mutex)
    (point : FairMutex.Point τ K) : (spot.call other point).view mutex = spot.view mutex := by
  rw [view_of_ne hmutex, view_of_idle hidle]
  simp [Spot.call, Function.update_of_ne (Ne.symm hmutex)]

theorem view_goOn (hguard : spot.guards spot.mutex = .none) (point : FairMutex.Point τ K) :
    (spot.goOn point).view spot.mutex = point := by
  cases point with
  | idle => simp [Spot.view, Spot.goOn, hguard, Guard.point]
  | guard => simp [Spot.view, Spot.goOn, Spot.setGuard, Guard.point]
  | _ => simp [Spot.view, Spot.goOn]

/-! ## Windows -/

omit [DecidableEq K] in
theorem window_update {spot : Spot τ M K} (hmutex : spot.mutex = (pc task).mutex)
    (atom : Site M K → ℕ) (mutex : M) :
    window address atom (Function.update pc task spot) mutex = window address atom pc mutex := by
  have hmine (other : τ) : (Function.update pc task spot other).mutex = (pc other).mutex := by
    rw [Function.update_apply]
    split
    case isTrue heq => rw [heq, hmutex]
    case isFalse => rfl
  simp only [window, hmine]

omit [DecidableEq τ] [DecidableEq K] in
theorem mine_eq_true {atom : Site M K → ℕ} :
    (window address atom pc mutex).mine task = true ↔ (pc task).mutex = mutex :=
  decide_eq_true_iff

omit [DecidableEq τ] [DecidableEq K] in
theorem mine_eq_false {atom : Site M K → ℕ} :
    (window address atom pc mutex).mine task = false ↔ (pc task).mutex ≠ mutex :=
  decide_eq_false_iff_not

omit [DecidableEq τ] [DecidableEq K] in
theorem beside_mutex {atom : Site M K → ℕ} (mutex : M) :
    (window address atom pc mutex).Beside task (.mutex (pc task).mutex) := by
  unfold Window.Beside
  rw [mine_eq_true]
  constructor
  · rintro rfl
    exact ⟨.mutex, rfl, rfl⟩
  · rintro ⟨inside, -, hsite⟩
    cases inside <;> cases hsite
    rfl

omit [DecidableEq τ] [DecidableEq K] in
theorem beside_condvar {atom : Site M K → ℕ}
    (hatom : atom (.condvar which) = address (pc task).mutex) (mutex : M) :
    (window address atom pc mutex).Beside task (.condvar which) := by
  unfold Window.Beside
  rw [mine_eq_true]
  constructor
  · rintro rfl
    exact ⟨.condvar which, decide_eq_true (Or.inr hatom), rfl⟩
  · rintro ⟨inside, hshown, hsite⟩
    cases inside <;> cases hsite
    rcases of_decide_eq_true hshown with hzero | haddress
    · rw [hatom] at hzero
      exact absurd hzero (address (pc task).mutex).ne_zero
    · rw [hatom] at haddress
      exact address.injective (PNat.coe_injective haddress)

omit [DecidableEq τ] [DecidableEq K] in
/-- Through its own window a task sees the condition variables that are not
bound. -/
theorem beside_own {atom : Site M K → ℕ} (hatom : atom (.condvar which) = 0) :
    (window address atom pc (pc task).mutex).Beside task (.condvar which) := by
  unfold Window.Beside
  rw [mine_eq_true]
  exact iff_of_true rfl ⟨.condvar which, decide_eq_true (Or.inl hatom), rfl⟩

theorem view_update (spot : Spot τ M K) (mutex : M) :
    (fun other => (Function.update pc task spot other).view mutex) =
      Function.update (fun other => (pc other).view mutex) task (spot.view mutex) :=
  funext fun other => Function.apply_update (fun _ => Spot.view mutex) pc task spot other

omit [DecidableEq K] in
theorem sight_update {spot : Spot τ M K} (hmutex : spot.mutex = (pc task).mutex) (mutex : M) :
    sight address board (Function.update pc task spot) mutex = sight address board pc mutex := by
  unfold sight
  rw [window_update hmutex]

/-! ## Calls that go on -/

omit [DecidableEq τ] [DecidableEq K] in
/-- A call that panics has the lock and does not wait. -/
theorem point_of_panics {point : FairMutex.Point τ K} {guard : Guard}
    (hpanics : panics point = some guard) :
    point ≠ .idle ∧ (guard.point : FairMutex.Point τ K) = .guard ∧ point.owns = true ∧
      point.waits = false ∧ point.waitsOn = none := by
  cases point with
  | notify point which =>
      cases point <;> cases hpanics
      exact ⟨by simp, rfl, rfl, rfl, rfl⟩
  | _ =>
      cases hpanics <;> exact ⟨by simp, rfl, rfl, rfl, rfl⟩

omit [DecidableEq τ] [DecidableEq K] in
theorem point_of_goOn {spot : Spot τ M K} {point point' : FairMutex.Point τ K}
    (hpoint : (spot.goOn point).point = point') (hcall : point' ≠ .idle) : point = point' := by
  cases point with
  | guard => exact absurd hpoint.symm hcall
  | _ => exact hpoint

/-- `wait` and `notify` go on when their condition variable is not bound to
another mutex. -/
def Checked (address : ℕ+) (before : FairMutex.Point τ K) (resp : Resp τ ℕ) :
    FairMutex.Point τ K → Prop
  | .notify _ which => ∃ point, before = .notify point which ∧
      ∀ count, point = .load count → ∃ current, resp = .atom current ∧ current.atom = address
  | .waitLoop _ current => current.atom = 0 ∨ current.atom = address
  | _ => True

omit [DecidableEq τ] [DecidableEq K] in
theorem checked_waitAt {address : ℕ+} {before point : FairMutex.Point τ K} {resp : Resp τ ℕ}
    {current : FutexAtom τ ℕ} (hwait : FairMutex.waitAt address which current = some point) :
    Checked address before resp point := by
  unfold FairMutex.waitAt at hwait
  split at hwait <;> cases hwait
  assumption

omit [DecidableEq τ] [DecidableEq K] in
theorem checked_of_resume {address : ℕ+} {before point : FairMutex.Point τ K}
    {resp : Resp τ ℕ} (hresume : FairMutex.resume address before resp = some point) :
    Checked address before resp point := by
  cases before with
  | notify before which' =>
      simp only [FairMutex.resume] at hresume
      unfold FairMutex.resumeNotify at hresume
      split at hresume
      case h_1 count current =>
        split at hresume
        · cases hresume
          trivial
        · split at hresume
          case isTrue => cases hresume
          case isFalse hsame =>
            cases hresume
            exact ⟨_, rfl, fun _ _ => ⟨current, rfl, not_not.mp hsame⟩⟩
      all_goals cases hresume
      all_goals first | trivial | exact ⟨_, rfl, fun _ hload => by cases hload⟩
  | unlock before caller =>
      simp only [FairMutex.resume] at hresume
      unfold FairMutex.resumeUnlock at hresume
      split at hresume <;> cases hresume <;> try trivial
      cases caller <;> trivial
  | lockLoop current =>
      cases resp <;> cases hresume
      · split <;> trivial
      · trivial
  | waitLoad which' =>
      cases resp <;> try cases hresume
      exact checked_waitAt hresume
  | waitLoop which' current =>
      cases resp <;> try cases hresume
      · trivial
      · exact checked_waitAt hresume
  | _ => cases resp <;> cases hresume <;> trivial

omit [DecidableEq τ] [DecidableEq K] in
theorem resume_point (address : ℕ+) (guard : Guard) (resp : Resp τ ℕ) :
    FairMutex.resume address (guard.point : FairMutex.Point τ K) resp = none := by
  cases guard <;> cases resp <;> rfl

theorem call_of_resume {address : ℕ+} {spot : Spot τ M K} {point : FairMutex.Point τ K}
    {resp : Resp τ ℕ}
    (hresume : FairMutex.resume address (spot.view spot.mutex) resp = some point) :
    spot.point ≠ .idle := by
  intro hidle
  rw [view_of_idle hidle, resume_point] at hresume
  cases hresume

theorem eq_load_of_step {input : Board.Input τ (Site M K) (Fin 1) ℕ} {current : FutexAtom τ ℕ}
    (hstep : board.Step task input (some (.atom current)) board') :
    ∃ futex, input = .call (.load futex) ∧ current = board.word futex ∧ board' = board := by
  cases hstep with
  | load futex => exact ⟨futex, rfl, rfl, rfl⟩

namespace Inv

section Coherent

variable [Inhabited M] (hinv : Inv address board pc)
  (hco : (client address).Coherent holds board pc)
include hinv hco

/-- What the tasks hold, seen from one mutex. -/
theorem coherent (mutex : M) : (FairMutex.client (address mutex)).Coherent FairMutex.holds
    (sight address board pc mutex) fun task => (pc task).view mutex where
  placed := by
    obtain ⟨place, hplaced⟩ := hco.placed
    exact ⟨_, Window.placed_sight (hinv.apart mutex) hplaced⟩
  fits task := by
    by_cases hmutex : (pc task).mutex = mutex
    · subst hmutex
      apply Window.fits_of_mine (mine_eq_true.mpr rfl)
      have hcode : (client address).code (pc task) =
          ((FairMutex.client (address (pc task).mutex)).code
            ((pc task).view (pc task).mutex)).rename (site (pc task).mutex) :=
        congrArg (Code.rename (site (pc task).mutex)) (code_view _).symm
      have hfits := hco.fits task
      rw [hcode] at hfits
      rw [holds_view]
      exact hfits
    · rw [view_of_ne hmutex, holds_point]
      exact Window.fits_of_not_mine (mine_eq_false.mpr hmutex)

end Coherent

/-! ## Condition variables -/

/-- No waiter is in a condition variable that is not bound. -/
theorem unused (hinv : Inv address board pc) (mutex : M)
    (hatom : board.atom (.condvar which) = 0) :
    board.store.inbox (.condvar which) = [] ∧ board.store.queues (.condvar which) 0 = [] := by
  have hused := (hinv.views mutex).used which
  simp only [sight, Window.sight, Window.lists, window, site, hatom, true_or, decide_true,
    if_true] at hused
  rcases hused with haddress | ⟨-, hinbox, hqueue⟩
  · exact absurd haddress.symm (address mutex).ne_zero
  · exact ⟨hinbox, hqueue⟩

section Rebound

variable {atom : Site M K → ℕ}

/-- A window looks the same when condition variables without waiters are
bound. -/
theorem sight_rebound (hinv : Inv address board pc)
    (hatom : ∀ which, atom (.condvar which) = board.atom (.condvar which) ∨
      board.atom (.condvar which) = 0) (mutex : M) :
    (window address atom pc mutex).sight board = sight address board pc mutex := by
  have hmasked {β : Type} (which : K) (value none : β)
      (hzero : board.atom (.condvar which) = 0 → value = none) :
      (if (window address atom pc mutex).shown (.condvar which) = true then value else none) =
        if (window address board.atom pc mutex).shown (.condvar which) = true then value
        else none := by
    rcases hatom which with hsame | hunbound
    · have hshown : (window address atom pc mutex).shown (.condvar which) =
          (window address board.atom pc mutex).shown (.condvar which) :=
        decide_eq_decide.mpr (by rw [hsame])
      rw [hshown]
    · rw [hzero hunbound, ite_self, ite_self]
  simp only [sight, Window.sight, Window.lists, Board.mk.injEq, ListStore.mk.injEq]
  refine ⟨?_, ⟨?_, ?_, rfl, rfl⟩, rfl, rfl, rfl, rfl, rfl, rfl, rfl⟩
  · funext futex
    cases futex with
    | mutex => rfl
    | condvar which => exact hmasked which _ _ id
  · funext futex
    cases futex with
    | mutex => rfl
    | condvar which => exact hmasked which _ _ fun hzero => (hinv.unused mutex hzero).1
  · funext futex queue
    cases futex with
    | mutex => rfl
    | condvar which =>
        refine hmasked which _ _ fun hzero => ?_
        have hqueue : queue = 0 := Subsingleton.elim _ _
        rw [hqueue]
        exact (hinv.unused mutex hzero).2

theorem apart_rebound (hinv : Inv address board pc)
    (hatom : ∀ which, atom (.condvar which) = board.atom (.condvar which) ∨
      board.atom (.condvar which) = 0) (mutex : M) :
    (window address atom pc mutex).Apart board := by
  have hbeside {futex : Site M K} {waiter : τ}
      (hbefore : (window address board.atom pc mutex).Beside waiter futex)
      (hsame : ∀ which, futex = .condvar which →
        atom (.condvar which) = board.atom (.condvar which)) :
      (window address atom pc mutex).Beside waiter futex := by
    refine hbefore.trans (exists_congr fun inside => and_congr_left fun hsite => ?_)
    cases inside with
    | mutex => exact Iff.rfl
    | condvar which => simp only [window, hsame which hsite.symm]
  constructor
  · intro futex waiter hmem
    apply hbeside ((hinv.apart mutex).inbox futex waiter hmem)
    rintro which rfl
    rcases hatom which with hsame | hzero
    · exact hsame
    · rw [(hinv.unused mutex hzero).1] at hmem
      cases hmem
  · intro futex queue waiter hmem
    apply hbeside ((hinv.apart mutex).queues futex queue waiter hmem)
    rintro which rfl
    rcases hatom which with hsame | hzero
    · exact hsame
    · have hqueue : queue = 0 := Subsingleton.elim _ _
      rw [hqueue, (hinv.unused mutex hzero).2] at hmem
      cases hmem
  · exact (hinv.apart mutex).list
  · exact (hinv.apart mutex).hand

end Rebound

/-! ## What a step uses -/

/-- `requeue` moves the waiters to the mutex of its task. -/
theorem mutex_of_requeueing [Inhabited M] (hco : (client address).Coherent holds board pc)
    {futex : Site M K} (hactivity : board.activity task = .requeueing futex) :
    futex = .mutex (pc task).mutex := by
  obtain ⟨op, hop, hrename⟩ := code_eq_call ((hco.fits task).requeueing futex hactivity)
  cases op <;> cases hrename
  obtain ⟨rfl, -⟩ := FairMutex.Inv.point_of_requeue hop
  rfl

omit [DecidableEq τ] [DecidableEq K] in
theorem unlockOp_futex (point : FairMutex.Unlock τ) :
    (FairMutex.unlockOp point : Op τ (FairMutex.Cell K) (Fin 1) ℕ).futex ≠
      some (.condvar which) := by
  cases point with
  | loop current =>
      simp only [FairMutex.unlockOp]
      split <;> simp [Op.futex]
  | _ => simp [FairMutex.unlockOp, Op.futex]

omit [DecidableEq τ] [DecidableEq K] in
/-- The code that uses a condition variable. -/
theorem point_of_futex {point : FairMutex.Point τ K} {address : ℕ+}
    {op : Op τ (FairMutex.Cell K) (Fin 1) ℕ} (hcode : FairMutex.code address point = .call op)
    (hfutex : op.futex = some (.condvar which)) :
    point = .waitLoad which ∨ (∃ current, point = .waitLoop which current) ∨
      ∃ point', point = .notify point' which := by
  cases point with
  | waitLoad which' =>
      cases hcode
      cases hfutex
      exact Or.inl rfl
  | waitLoop which' current =>
      cases hcode
      cases hfutex
      exact Or.inr (Or.inl ⟨current, rfl⟩)
  | notify point which' =>
      cases hcode
      refine Or.inr (Or.inr ⟨point, ?_⟩)
      cases point <;> cases hfutex <;> rfl
  | unlock point caller =>
      cases hcode
      exact absurd hfutex (unlockOp_futex point)
  | lockLoop current =>
      simp only [FairMutex.code] at hcode
      split at hcode <;> cases hcode <;> cases hfutex
  | _ => cases hcode <;> cases hfutex

section Step

variable [Inhabited M] {input : Board.Input τ (Site M K) (Fin 1) ℕ} {resp : Option (Resp τ ℕ)}
  (hinv : Inv address board pc)
  (hasks : (client address).Asks (pc task) input)
  (hstep : board.Step task input resp board')
include hinv hasks hstep

/-- Only the first `wait` binds a condition variable. -/
theorem atom_of_step (which : K) : board'.atom (.condvar which) = board.atom (.condvar which) ∨
    board.atom (.condvar which) = 0 ∧
      board'.atom (.condvar which) = address (pc task).mutex := by
  rcases hstep.atom with hsame | ⟨futex, new, -, hatom, hinput⟩
  · exact Or.inl (congrFun hsame _)
  by_cases hfutex : futex = .condvar which
  case neg =>
    rw [hatom]
    exact Or.inl (Function.update_of_ne (Ne.symm hfutex) _ _)
  subst hfutex
  rw [hatom, Function.update_self]
  have hcall : ∃ op, input = .call op ∧ op.futex = some (.condvar which) ∧
      (op = .cmpxchgWeak (.condvar which) (board.word (.condvar which)) new ∨
        op = .cmpxchgWaitWeak (.condvar which) (board.word (.condvar which)) new ∨
          op = .cmpxchgEnqueueWeak (.condvar which) (board.word (.condvar which)) new) := by
    rcases hinput with rfl | rfl | rfl
    · exact ⟨_, rfl, rfl, Or.inl rfl⟩
    · exact ⟨_, rfl, rfl, Or.inr (Or.inl rfl)⟩
    · exact ⟨_, rfl, rfl, Or.inr (Or.inr rfl)⟩
  obtain ⟨op', hinput', hfutex', hop⟩ := hcall
  obtain ⟨op, hcode, rfl⟩ := code_eq_call (hasks op' hinput')
  rw [Op.futex_rename, Option.map_eq_some_iff] at hfutex'
  obtain ⟨futex, hfutex, hsite⟩ := hfutex'
  cases futex <;> cases hsite
  rcases point_of_futex hcode hfutex with hpoint | ⟨current, hpoint⟩ | ⟨point, hpoint⟩
  · rw [hpoint] at hcode
    cases hcode
    rcases hop with h | h | h <;> cases h
  · rw [hpoint] at hcode
    cases hcode
    rcases hop with h | h | h <;> cases h
    rcases hinv.waiting task which _ hpoint with hzero | haddress
    · exact Or.inr ⟨hzero, rfl⟩
    · exact Or.inl haddress.symm
  · rw [hpoint] at hcode
    cases hcode
    cases point <;> rcases hop with h | h | h <;> cases h
    have hbound := hinv.notifies task _ which hpoint (by simp)
    exact Or.inl hbound.symm

/-- A call whose condition variable is bound to another mutex. -/
def Refused (address : M ↪ ℕ+) (spot : Spot τ M K) (resp : Option (Resp τ ℕ)) : Prop :=
  ∃ resp' guard, resp = some resp' ∧
    FairMutex.resume (address spot.mutex) spot.point resp' = none ∧
      panics spot.point = some guard

/-- A step that uses a condition variable finds it bound to the mutex of its
task, or it only reads it. -/
theorem uses_condvar {op : Op τ (Site M K) (Fin 1) ℕ} (hinput : input = .call op)
    (hfutex : op.futex = some (.condvar which)) :
    board'.atom (.condvar which) = address (pc task).mutex ∨
      board' = board ∧
        (board.atom (.condvar which) = 0 ∨ Refused address (pc task) resp) := by
  have hatom := atom_of_step hinv hasks hstep which
  obtain ⟨op, hcode, rfl⟩ := code_eq_call (hasks op hinput)
  subst hinput
  rw [Op.futex_rename, Option.map_eq_some_iff] at hfutex
  obtain ⟨futex, hfutex, hsite⟩ := hfutex
  cases futex <;> cases hsite
  -- the atom that a call with this mutex accepts
  have hrefused {resp' : Resp τ ℕ} (hpanics : ∃ guard, panics (pc task).point = some guard)
      (hresume : board.atom (.condvar which) ≠ 0 →
        board.atom (.condvar which) ≠ address (pc task).mutex →
          FairMutex.resume (address (pc task).mutex) (pc task).point resp' = none) :
      board.atom (.condvar which) = address (pc task).mutex ∨
        (board.atom (.condvar which) = 0 ∨ Refused address (pc task) (some resp')) := by
    by_cases hzero : board.atom (.condvar which) = 0
    · exact Or.inr (Or.inl hzero)
    by_cases haddress : board.atom (.condvar which) = address (pc task).mutex
    · exact Or.inl haddress
    obtain ⟨guard, hguard⟩ := hpanics
    exact Or.inr (Or.inr ⟨resp', guard, rfl, hresume hzero haddress, hguard⟩)
  rcases point_of_futex hcode hfutex with hpoint | ⟨current, hpoint⟩ | ⟨point, hpoint⟩
  · rw [hpoint] at hcode
    cases hcode
    cases hstep
    refine (hrefused ⟨_, by rw [hpoint]; rfl⟩ fun hzero haddress => ?_).imp id
      fun hread => ⟨rfl, hread⟩
    rw [hpoint]
    exact if_neg (not_or.mpr ⟨hzero, haddress⟩)
  · rw [hpoint] at hcode
    cases hcode
    cases hstep
    case cmpxchgWaitWeak => exact Or.inl (Function.update_self _ _ _)
    case cmpxchgWaitWeakFails =>
      refine (hrefused ⟨_, by rw [hpoint]; rfl⟩ fun hzero haddress => ?_).imp id
        fun hread => ⟨rfl, hread⟩
      rw [hpoint]
      exact if_neg (not_or.mpr ⟨hzero, haddress⟩)
  · by_cases hload : ∃ count, point = .load count
    · obtain ⟨count, rfl⟩ := hload
      rw [hpoint] at hcode
      cases hcode
      cases hstep
      refine (hrefused ⟨_, by rw [hpoint]; rfl⟩ fun hzero haddress => ?_).imp id
        fun hread => ⟨rfl, hread⟩
      rw [hpoint]
      exact (if_neg hzero).trans (if_pos haddress)
    · have hbound := hinv.notifies task point which hpoint fun count hpoint' =>
        hload ⟨count, hpoint'⟩
      rcases hatom with hsame | ⟨-, haddress⟩
      · exact Or.inl (hsame.trans hbound)
      · exact Or.inl haddress

variable (hco : (client address).Coherent holds board pc)
include hco

omit hinv hstep in
/-- Seen from every mutex, a step uses futexes of its own side. -/
theorem stays (huses : ∀ op which, input = .call op → op.futex = some (.condvar which) →
      (window address board'.atom pc mutex).Beside task (.condvar which)) :
    (window address board'.atom pc mutex).Stays board task input where
  uses op futex hinput hfutex := by
    cases futex with
    | condvar which => exact huses op which hinput hfutex
    | mutex other =>
        obtain ⟨op, hcode, rfl⟩ := code_eq_call (hasks op hinput)
        rw [Op.futex_rename, Option.map_eq_some_iff] at hfutex
        obtain ⟨futex, hfutex, hsite⟩ := hfutex
        cases futex <;> cases hsite
        exact beside_mutex mutex
  requeues futex hactivity := by
    rw [mutex_of_requeueing hco hactivity]
    exact beside_mutex mutex

theorem stays_or_same (mutex : M) :
    board' = board ∨ (window address board'.atom pc mutex).Stays board task input := by
  by_cases hsame : board' = board
  · exact Or.inl hsame
  refine Or.inr (stays hasks hco fun op which hinput hfutex => ?_)
  rcases uses_condvar hinv hasks hstep hinput hfutex with hatom | ⟨hread, -⟩
  · exact beside_condvar hatom mutex
  · exact absurd hread hsame

theorem stays_own (hrefused : ∀ op, input = .call op → ¬ Refused address (pc task) resp) :
    (window address board'.atom pc (pc task).mutex).Stays board task input := by
  refine stays hasks hco fun op which hinput hfutex => ?_
  rcases uses_condvar hinv hasks hstep hinput hfutex with hatom | ⟨rfl, hzero | hrefused'⟩
  · exact beside_condvar hatom _
  · exact beside_own hzero
  · exact absurd hrefused' (hrefused op hinput)

theorem apart_step (mutex : M) : (window address board'.atom pc mutex).Apart board' := by
  rcases stays_or_same hinv hasks hstep hco mutex with rfl | hstays
  · exact hinv.apart mutex
  · have hatom (which : K) : board'.atom (.condvar which) = board.atom (.condvar which) ∨
        board.atom (.condvar which) = 0 :=
      (atom_of_step hinv hasks hstep which).imp id And.left
    exact (apart_rebound hinv hatom mutex).step hstays hstep

omit hco in
theorem bound_step (which : K) : board'.atom (.condvar which) = 0 ∨
    ∃ mutex, board'.atom (.condvar which) = address mutex := by
  rcases atom_of_step hinv hasks hstep which with hsame | ⟨-, haddress⟩
  · rw [hsame]
    exact hinv.bound which
  · exact Or.inr ⟨_, haddress⟩

/-- A step of a task that uses another mutex. -/
theorem view_other (hborrow : ∀ futex, input = .call (.borrow futex) →
      board.borrowed futex = none)
    (hmutex : (pc task).mutex ≠ mutex) :
    FairMutex.Inv (address mutex) (sight address board' pc mutex)
      fun other => (pc other).view mutex := by
  have hview := hinv.views mutex
  have hfits := hinv.coherent hco mutex
  rcases stays_or_same hinv hasks hstep hco mutex with rfl | hstays
  · exact hview
  have hatom (which : K) : board'.atom (.condvar which) = board.atom (.condvar which) ∨
      board.atom (.condvar which) = 0 :=
    (atom_of_step hinv hasks hstep which).imp id And.left
  rw [← sight_rebound hinv hatom mutex] at hview hfits
  have hrelease (futex : Site M K) (hinput : input = .call (.release futex)) :
      board.borrowed futex = some task :=
    ((hco.fits task).borrow futex).mpr ((typed address).allows _ _ (hasks _ hinput))
  have hseen := Window.step_of_not_mine (apart_rebound hinv hatom mutex)
    (mine_eq_false.mpr hmutex) hstays hborrow hrelease hstep
  rcases hseen with hsame | ⟨futex, hreaders, hflip⟩
  · have hsight : sight address board' pc mutex =
        (window address board'.atom pc mutex).sight board := hsame
    rw [hsight]
    exact hview
  · have hsight : sight address board' pc mutex =
        ((window address board'.atom pc mutex).sight board).flip futex := hflip
    rw [hsight]
    exact hview.dropFlip hfits hreaders

/-- A step of a task, seen from its own mutex. -/
theorem step_own {input' : Board.Input τ (FairMutex.Cell K) (Fin 1) ℕ}
    (hinput : input = input'.rename (site (pc task).mutex))
    (hrefused : ∀ op, input = .call op → ¬ Refused address (pc task) resp) :
    (sight address board pc (pc task).mutex).Step task input' resp
      (sight address board' pc (pc task).mutex) := by
  have hatom (which : K) : board'.atom (.condvar which) = board.atom (.condvar which) ∨
      board.atom (.condvar which) = 0 :=
    (atom_of_step hinv hasks hstep which).imp id And.left
  have hstays := stays_own hinv hasks hstep hco hrefused
  rw [← sight_rebound hinv hatom]
  subst hinput
  exact Window.step_of_mine (apart_rebound hinv hatom _) (mine_eq_true.mpr rfl) hstays hstep

omit hinv hstep hco in
theorem asks_own : ∃ input', input = input'.rename (site (pc task).mutex) ∧
    (FairMutex.client (address (pc task).mutex)).Asks ((pc task).view (pc task).mutex)
      input' := by
  cases input with
  | call op =>
      obtain ⟨op, hcode, rfl⟩ := code_eq_call (hasks _ rfl)
      refine ⟨.call op, rfl, fun op' hop => ?_⟩
      cases hop
      exact (code_view _).trans hcode
  | drop => exact ⟨.drop, rfl, fun op hop => by cases hop⟩
  | go => exact ⟨.go, rfl, fun op hop => by cases hop⟩

omit hco in
theorem bound_stable (hatom : board.atom (.condvar which) = address mutex) :
    board'.atom (.condvar which) = address mutex := by
  rcases atom_of_step hinv hasks hstep which with hsame | ⟨hzero, -⟩
  · rw [hsame, hatom]
  · rw [hatom] at hzero
    exact absurd hzero (address mutex).ne_zero

end Step

end Inv

end FairMutexes

end AsyncMutex
