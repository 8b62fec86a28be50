import AsyncMutex.WindowSteps
import AsyncMutex.FairMutexSteps

/-!
# Several mutexes with condition variables between them

A task may hold the guards of several mutexes, and it passes the guard that it
likes to `Condvar::wait` and `Condvar::notify`.  A condition variable is bound
to the mutex of its first waiter.  A call with another mutex panics, and the
panic unwinds the task: it drops the guards that it still has.
-/

namespace AsyncMutex

namespace FairMutexes

/-- The futexes: those of the mutexes and those of the condition variables. -/
inductive Site (M K : Type) where
  | mutex (which : M)
  | condvar (which : K)
deriving DecidableEq

variable {τ M K : Type}

/-- The futexes that a call with the guard of one mutex uses. -/
def site (mutex : M) : FairMutex.Cell K → Site M K
  | .mutex => .mutex mutex
  | .condvar which => .condvar which

def cell : Site M K → FairMutex.Cell K
  | .mutex _ => .mutex
  | .condvar which => .condvar which

theorem cell_site (mutex : M) (futex : FairMutex.Cell K) : cell (site mutex futex) = futex := by
  cases futex <;> rfl

theorem site_injective (mutex : M) :
    Function.Injective (site mutex : FairMutex.Cell K → Site M K) :=
  Function.LeftInverse.injective (cell_site mutex)

/-- What became of the guard of a mutex. -/
inductive Guard where
  | none
  | held
  /-- `wait` called `mem::forget` on it and panicked. -/
  | forgotten
deriving DecidableEq

def Guard.point : Guard → FairMutex.Point τ K
  | .none => .idle
  | .held => .guard
  | .forgotten => .guard

/-- Where a task is.  The guard that a call was given is in the call and not
among the guards of the task. -/
structure Spot (τ M K : Type) where
  guards : M → Guard := fun _ => .none
  /-- The mutex of the call that runs, or of the last one. -/
  mutex : M
  /-- Where that call is, and `idle` without a call. -/
  point : FairMutex.Point τ K := .idle
  /-- A panic unwinds the task. -/
  panicked : Bool := false

abbrev Call (M K : Type) := M × FairMutex.Call K

/-- What unwinding does is to drop guards. -/
def unwinds : FairMutex.Call K → Bool
  | .dropGuard => true
  | _ => false

/-- `Condvar::wait` has forgotten its guard when its assertion fails, and
`Condvar::notify` has borrowed the guard of its caller. -/
def panics : FairMutex.Point τ K → Option Guard
  | .waitLoad _ => some .forgotten
  | .waitLoop _ _ => some .forgotten
  | .notify (.load _) _ => some .held
  | _ => none

section Machine

variable [DecidableEq M]

namespace Spot

def setGuard (spot : Spot τ M K) (guard : Guard) : M → Guard :=
  Function.update spot.guards spot.mutex guard

/-- The call goes on, or it returns with its guard or without. -/
def goOn (spot : Spot τ M K) : FairMutex.Point τ K → Spot τ M K
  | .guard => { spot with guards := spot.setGuard .held, point := .idle }
  | point => { spot with point := point }

/-- A call begins and takes the guard. -/
def call (spot : Spot τ M K) (mutex : M) (point : FairMutex.Point τ K) : Spot τ M K :=
  { spot with
    guards := Function.update spot.guards mutex .none
    mutex := mutex
    point := point }

def panic (spot : Spot τ M K) (guard : Guard) : Spot τ M K :=
  { spot with guards := spot.setGuard guard, point := .idle, panicked := true }

/-- The panic is over: the guards that the task had are dropped. -/
def Unwound (spot : Spot τ M K) : Prop :=
  spot.panicked = true ∧ spot.point = .idle ∧ ∀ mutex, spot.guards mutex ≠ .held

end Spot

def start [DecidableEq τ] [DecidableEq K] (spot : Spot τ M K) (call : Call M K) :
    Option (Spot τ M K) :=
  if spot.point = .idle ∧ spot.guards call.1 ≠ .forgotten ∧
      (spot.panicked = true → unwinds call.2 = true) then
    (FairMutex.start (spot.guards call.1).point call.2).map (spot.call call.1)
  else none

def code (address : M ↪ ℕ+) (spot : Spot τ M K) : Code τ (Site M K) (Fin 1) ℕ :=
  (FairMutex.code (address spot.mutex) spot.point).rename (site spot.mutex)

def resume (address : M ↪ ℕ+) (spot : Spot τ M K) (resp : Resp τ ℕ) :
    Option (Spot τ M K) :=
  match FairMutex.resume (address spot.mutex) spot.point resp with
  | some point => some (spot.goOn point)
  | none => (panics spot.point).map spot.panic

/-- The code of the mutexes, which lie at different addresses. -/
def client [DecidableEq τ] [DecidableEq K] [Inhabited M] (address : M ↪ ℕ+) :
    Client τ (Site M K) (Fin 1) ℕ Unit (Spot τ M K) (Call M K) where
  idle := { mutex := default }
  start := start
  code := code address
  resume := resume address
  act _ _ _ := none

/-- A pending `wait` may be dropped after it was woken; all other futures may
be dropped at any time. -/
def usage : Usage τ (Spot τ M K) where
  mayDrop spot awake := FairMutex.usage.mayDrop spot.point awake

end Machine

/-! ## What the tasks hold -/

def holds (spot : Spot τ M K) : Holding (Site M K) (Fin 1) :=
  (FairMutex.holds spot.point).rename (site spot.mutex)

variable [DecidableEq M] {address : M ↪ ℕ+}
  {spot spot' : Spot τ M K} {point : FairMutex.Point τ K}

@[simp] theorem goOn_mutex : (spot.goOn point).mutex = spot.mutex := by
  cases point <;> rfl

theorem holds_goOn :
    holds (spot.goOn point) = (FairMutex.holds point).rename (site spot.mutex) := by
  cases point <;> rfl

/-- A response lets the call go on, or the call panics. -/
theorem resume_cases {resp : Resp τ ℕ} (hresume : resume address spot resp = some spot') :
    (∃ point, FairMutex.resume (address spot.mutex) spot.point resp = some point ∧
        spot' = spot.goOn point) ∨
      ∃ guard, FairMutex.resume (address spot.mutex) spot.point resp = none ∧
        panics spot.point = some guard ∧ spot' = spot.panic guard := by
  unfold resume at hresume
  split at hresume
  case h_1 point hpoint =>
    cases hresume
    exact Or.inl ⟨point, hpoint, rfl⟩
  case h_2 hnone =>
    obtain ⟨guard, hguard, rfl⟩ := Option.map_eq_some_iff.mp hresume
    exact Or.inr ⟨guard, hnone, hguard, rfl⟩

omit [DecidableEq M] in
theorem code_eq_call {op' : Op τ (Site M K) (Fin 1) ℕ} (hcode : code address spot = .call op') :
    ∃ op, FairMutex.code (address spot.mutex) spot.point = .call op ∧
      op' = op.rename (site spot.mutex) := by
  unfold code at hcode
  cases hcase : FairMutex.code (address spot.mutex) spot.point with
  | call op =>
      rw [hcase] at hcode
      cases hcode
      exact ⟨op, rfl, rfl⟩
  | _ =>
      rw [hcase] at hcode
      cases hcode

omit [DecidableEq M] in
theorem code_ne_own (address : M ↪ ℕ+) (spot : Spot τ M K) : code address spot ≠ .own := by
  intro hcode
  unfold code at hcode
  cases hcase : FairMutex.code (address spot.mutex) spot.point with
  | own => exact FairMutex.code_ne_own _ _ hcase
  | _ =>
      rw [hcase] at hcode
      cases hcode

variable [DecidableEq K]

theorem start_spec [DecidableEq τ] {call : Call M K} (hstart : start spot call = some spot') :
    spot.point = .idle ∧ spot.guards call.1 ≠ .forgotten ∧
      (spot.panicked = true → call.2 = .dropGuard) ∧
      ∃ point, FairMutex.start (spot.guards call.1).point call.2 = some point ∧
        spot' = spot.call call.1 point := by
  unfold start at hstart
  split at hstart
  case isFalse => cases hstart
  case isTrue hmay =>
    obtain ⟨hidle, hguard, hunwinds⟩ := hmay
    obtain ⟨point, hpoint, rfl⟩ := Option.map_eq_some_iff.mp hstart
    refine ⟨hidle, hguard, fun hpanicked => ?_, point, hpoint, rfl⟩
    have hdrop := hunwinds hpanicked
    cases hcall : call.2 <;> rw [hcall] at hdrop <;> cases hdrop

omit [DecidableEq M] [DecidableEq K] in
theorem waiting_of_slot {queue : Fin 1} (hslot : (holds spot).slot = .waiting queue) :
    (FairMutex.holds spot.point).slot = .waiting queue := by
  simp only [holds, Holding.rename] at hslot
  cases hcase : (FairMutex.holds spot.point).slot <;> rw [hcase] at hslot <;> cases hslot
  rfl

omit [DecidableEq K] in
theorem panics_eq_none {queue : Fin 1} (hslot : (FairMutex.holds point).slot = .waiting queue) :
    panics point = none := by
  cases point with
  | notify point which => cases point <;> cases hslot
  | waitLoad which => cases hslot
  | waitLoop which current => cases hslot
  | _ => rfl

omit [DecidableEq M] in
/-- A task that panics has at most an unused waiter. -/
theorem holds_of_panics {guard : Guard} (hpanics : panics spot.point = some guard)
    {op : Op τ (FairMutex.Cell K) (Fin 1) ℕ} {resp : Resp τ ℕ}
    (hcode : FairMutex.code (address spot.mutex) spot.point = .call op)
    (hresume : FairMutex.resume (address spot.mutex) spot.point resp = none) :
    ((FairMutex.holds spot.point).after op resp).forget = {} := by
  cases hpoint : spot.point with
  | waitLoad which =>
      rw [hpoint] at hcode
      cases hcode
      rfl
  | waitLoop which current =>
      rw [hpoint] at hcode hresume
      cases hcode
      cases resp <;> first | rfl | cases hresume
  | notify point which =>
      rw [hpoint] at hpanics hcode
      cases point <;> cases hpanics
      cases hcode
      rfl
  | _ =>
      rw [hpoint] at hpanics
      cases hpanics

variable [Inhabited M]

theorem typed [DecidableEq τ] (address : M ↪ ℕ+) :
    (client address : Client τ (Site M K) _ _ _ _ _).Typed holds where
  idle := rfl
  start spot call spot' hcode hstart := by
    obtain ⟨hidle, hguard, -, point, hpoint, rfl⟩ := start_spec hstart
    have hempty : FairMutex.holds point = {} := by
      have hstarted := (FairMutex.typed (address call.1)).start _ _ point
        (by cases spot.guards call.1 <;> rfl) hpoint
      rw [hstarted]
      cases spot.guards call.1 <;> rfl
    have hbefore : holds spot = (({} : Holding (FairMutex.Cell K) (Fin 1)).rename
        (site spot.mutex)) := by
      simp only [holds, hidle]
      rfl
    rw [hbefore]
    exact congrArg (Holding.rename (site call.1)) hempty
  allows spot op' hcode := by
    obtain ⟨op, hop, rfl⟩ := code_eq_call hcode
    exact Holding.allows_rename (site_injective spot.mutex)
      ((FairMutex.typed (address spot.mutex)).allows spot.point op hop)
  resume spot op' resp spot' hcode hanswers hresume := by
    obtain ⟨op, hop, rfl⟩ := code_eq_call hcode
    have hafter : (holds spot).after (op.rename (site spot.mutex)) resp =
        ((FairMutex.holds spot.point).after op resp).rename (site spot.mutex) :=
      Holding.after_rename (site_injective spot.mutex) _ op resp
    rw [hafter, Holding.forget_rename]
    rcases resume_cases hresume with ⟨point, hpoint, rfl⟩ | ⟨guard, hnone, hguard, rfl⟩
    · rw [holds_goOn]
      have htyped := (FairMutex.typed (address spot.mutex)).resume spot.point op resp point hop
        (Op.answers_rename.mp hanswers) hpoint
      exact htyped.imp (congrArg _) (congrArg _)
    · rw [holds_of_panics hguard hop hnone]
      exact Or.inr rfl
  waits spot queue hslot := by
    have hrest : FairMutex.code (address spot.mutex) spot.point = .rest :=
      (FairMutex.typed (address spot.mutex)).waits spot.point queue (waiting_of_slot hslot)
    simp only [client, code, hrest]
    rfl
  future spot queue resp spot' hslot hresp hresume := by
    have hwaiting := waiting_of_slot hslot
    rcases resume_cases hresume with ⟨point, hpoint, rfl⟩ | ⟨guard, -, hguard, rfl⟩
    · rw [holds_goOn, (FairMutex.typed (address spot.mutex)).future spot.point queue resp point
        hwaiting hresp hpoint]
      rfl
    · rw [panics_eq_none hwaiting] at hguard
      cases hguard
  own _ _ _ _ _ _ hact := by cases hact

end FairMutexes

end AsyncMutex
