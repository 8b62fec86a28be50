import AsyncMutex.ArrivalOrder
import AsyncMutex.FastMutexSteps
import AsyncMutex.Turns

/-!
# The fast mutex

The pointers of the source run the code of the fast mutex.  An unlock wakes one
waiter and frees the lock, and both are recorded in one word; so a free lock
with waiters always has a task on the way to it.  The waiters are woken in the
order in which they last went to sleep.
-/

namespace AsyncMutex

namespace FastMutex

variable {τ ω : Type}

theorem inv_initial :
    Inv (World.initial (ListStore.empty 0) (fun _ => 0) () :
      ListWorld τ Unit (Fin 1) ℕ ω).board fun _ => .idle := by
  refine ⟨none, .none, ?_⟩
  constructor <;>
    simp [Point.owns, Woken, Point.competes, Point.waits, word, Atom.decode, World.board,
      World.initial, Carrier.isSome, Carrier.waiters, inbox, queue, ListStore.empty, PointInv,
      Phase.stage]

variable [Fintype τ] [DecidableEq τ] [DecidableEq ω]

/-- The runs of any number of tasks from `Mutex::new`. -/
def machine :
    Machine (HeapSystem τ Unit (Fin 1) ℕ ω Unit (Point τ)) (τ × Label Call ω)
      (Mark τ Unit ℕ ω (Point τ) Call) :=
  System.machine client usage (HeapStore.empty 0) (fun _ => 0) () ()

variable {sys : HeapSystem τ Unit (Fin 1) ℕ ω Unit (Point τ)}

theorem verified_of_reachable (hcard : Fintype.card τ < 2 ^ 62)
    (hreach : (machine : Machine (HeapSystem τ Unit (Fin 1) ℕ ω Unit (Point τ)) _
      _).Reachable sys) :
    sys.lists.Verified client holds (fun board _ pc => Inv board pc) :=
  System.Verified.of_reachable typed (invariant hcard) inv_initial
    (System.lists_of_reachable hreach).1

def Carries (sys : HeapSystem τ Unit (Fin 1) ℕ ω Unit (Point τ)) (task : τ) : Prop :=
  sys.pc task = .unlock .pop ∨ Woken sys.world.handle sys.world.awake task (sys.pc task)

/-- The word keeps the books of the mutex, and no wakeup is lost. -/
structure KeepsBooks (sys : HeapSystem τ Unit (Fin 1) ℕ ω Unit (Point τ)) : Prop where
  safe : sys.panicked = false
  owned : (Atom.decode (sys.world.atom ())).locked = true →
    ∃! task, (sys.pc task).owns = true
  free : (Atom.decode (sys.world.atom ())).locked = false →
    ∀ task, (sys.pc task).owns = false
  carried : (Atom.decode (sys.world.atom ())).waking = true → ∃! task, Carries sys task
  uncarried : (Atom.decode (sys.world.atom ())).waking = false → ∀ task, ¬ Carries sys task
  /-- An unlock that is about to pop a waiter has not yet uncounted its node. -/
  counted : (∀ task, sys.pc task ≠ .unlock .pop) →
    (Atom.decode (sys.world.atom ())).waiters = (sys.world.lists.store.inbox ()).length +
      (sys.world.lists.store.queues () 0).length +
        (Atom.decode (sys.world.atom ())).waking.toNat
  popping : ∀ task, sys.pc task = .unlock .pop →
    (Atom.decode (sys.world.atom ())).waiters = (sys.world.lists.store.inbox ()).length +
      (sys.world.lists.store.queues () 0).length
  empty : (Atom.decode (sys.world.atom ())).locked = false →
    (Atom.decode (sys.world.atom ())).waking = false →
      FutexStore.top sys.world.store () = none ∧ FutexStore.isEmpty sys.world.store () 0 = true
  /-- Nobody waits when nobody runs, holds the lock or was woken. -/
  quiet : (∀ task, sys.pc task = .idle ∨
    (sys.pc task).waits = true ∧ sys.world.awake task = false) → ∀ task, sys.pc task = .idle

section Quiet

variable {board : MutexBoard τ} {pc : τ → Point τ} {owner : Option τ} {carrier : Carrier τ}
  (hacc : Accounts board pc owner carrier)
  (hquiet : ∀ task, pc task = .idle ∨ (pc task).waits = true ∧ board.awake task = false)
include hquiet

omit [DecidableEq τ] [Fintype τ] in
theorem holds_of_quiet (task : τ) :
    (holds (pc task)).hand = false ∧ (holds (pc task)).list = false := by
  rcases hquiet task with hpc | ⟨hwaits, -⟩
  · rw [hpc]
    exact ⟨rfl, rfl⟩
  · cases hpc : pc task <;> simp_all [holds, Point.waits]

include hacc

omit [DecidableEq τ] [Fintype τ] in
theorem owner_of_quiet : owner = none := by
  cases howner : owner with
  | none => rfl
  | some task =>
      have howns := (hacc.owns task).mpr howner
      rcases hquiet task with hpc | ⟨hwaits, -⟩
      · rw [hpc] at howns
        cases howns
      · cases hpc : pc task <;> simp_all [Point.owns, Point.waits]

variable (hco : (client : Client τ Unit _ _ Unit _ _).Coherent holds board pc)
include hco

omit [Fintype τ] [DecidableEq τ] in
theorem carrier_of_quiet : carrier = .none := by
  cases hcarrier : carrier with
  | none => rfl
  | unlock task =>
      have hpc := (hacc.pops task).mpr hcarrier
      rcases hquiet task with h | ⟨hwaits, -⟩
      · rw [hpc] at h
        cases h
      · rw [hpc] at hwaits
        cases hwaits
  | woken task =>
      have hwoken := (hacc.woken task).mpr hcarrier
      rcases hquiet task with hpc | ⟨hwaits, hasleep⟩
      · rw [hpc] at hwoken
        rcases hwoken with h | ⟨h, -⟩ <;> cases h
      · rcases hwoken with hcompetes | ⟨-, ⟨other, hhandle⟩ | hawake⟩
        · cases hpc : pc task <;> simp_all [Point.competes, Point.waits]
        · rw [(hco.fits other).handle_eq_none (holds_of_quiet hquiet other).1] at hhandle
          cases hhandle
        · rw [hasleep] at hawake
          cases hawake

omit [Fintype τ] [DecidableEq τ] in
/-- Where nobody runs, has the lock or was woken, nobody waits. -/
theorem idle_of_quiet (task : τ) : pc task = .idle := by
  have howner := owner_of_quiet hacc hquiet
  have hcarrier := carrier_of_quiet hacc hquiet hco
  subst howner hcarrier
  have hzero := hacc.waiters.symm.trans (hacc.free hacc.locked hacc.waking)
  have hinbox : inbox board = [] := List.length_eq_zero_iff.mp (by omega)
  have hqueue : queue board = [] := List.length_eq_zero_iff.mp (by omega)
  rcases hquiet task with hpc | ⟨hwaits, hasleep⟩
  · exact hpc
  · have hstage : board.stage task = .entered ∨ board.stage task = .waiting := by
      have hslot := (hco.fits task).slot
      cases hpc : pc task with
      | entered current =>
          rw [hpc] at hslot
          exact Or.inl hslot.1
      | waiting current =>
          rw [hpc] at hslot
          exact Or.inr (hslot.1.resolve_right (hacc.undropped task))
      | _ =>
          rw [hpc] at hwaits
          cases hwaits
    rcases hco.listed_or_popped hstage hasleep with (⟨_, hmem⟩ | ⟨_, which, hmem⟩) | hpopped
    · have hmem' : task ∈ inbox board := hmem
      rw [hinbox] at hmem'
      cases hmem'
    · have hmem' : task ∈ queue board := by
        rw [Subsingleton.elim which 0] at hmem
        exact hmem
      rw [hqueue] at hmem'
      cases hmem'
    · refine absurd hpopped (hco.not_popped ?_ ?_)
      · exact fun other => (holds_of_quiet hquiet other).1
      · exact fun other => (holds_of_quiet hquiet other).2

end Quiet

theorem books_of_verified
    (hreach : (machine : Machine (HeapSystem τ Unit (Fin 1) ℕ ω Unit (Point τ)) _
      _).Reachable sys)
    (hverified : sys.lists.Verified client holds (fun board _ pc => Inv board pc)) :
    KeepsBooks sys := by
  obtain ⟨-, hrep⟩ := System.lists_of_reachable hreach
  obtain ⟨before, hlists, -⟩ := hrep.lists
  have hco := hverified.coherent
  obtain ⟨hsafe, -, -, owner, carrier, hacc⟩ := hverified
  have hlocked : (Atom.decode (sys.world.atom ())).locked = owner.isSome := hacc.locked
  have hwaking : (Atom.decode (sys.world.atom ())).waking = carrier.isSome := hacc.waking
  have hwaiters : (Atom.decode (sys.world.atom ())).waiters =
      (sys.world.lists.store.inbox ()).length + (sys.world.lists.store.queues () 0).length +
        carrier.waiters.length := hacc.waiters
  have hcarries (task : τ) : Carries sys task ↔
      carrier = .unlock task ∨ carrier = .woken task := or_congr (hacc.pops task) (hacc.woken task)
  refine ⟨hsafe, ?_, ?_, ?_, ?_, ?_, ?_, ?_, fun hquiet => idle_of_quiet hacc hquiet hco⟩
  · intro h
    rw [h] at hlocked
    obtain ⟨task, rfl⟩ := Option.isSome_iff_exists.mp hlocked.symm
    refine ⟨task, (hacc.owns task).mpr rfl, fun other hother => ?_⟩
    exact (Option.some.inj ((hacc.owns other).mp hother)).symm
  · intro h task
    rw [h] at hlocked
    have howner : owner = none := by simpa using hlocked.symm
    rw [Bool.eq_false_iff]
    intro howns
    have hsome := (hacc.owns task).mp howns
    rw [howner] at hsome
    cases hsome
  · intro h
    rw [h] at hwaking
    cases hcarrier : carrier with
    | none =>
        rw [hcarrier] at hwaking
        cases hwaking
    | unlock task =>
        exact ⟨task, (hcarries task).mpr (Or.inl hcarrier), fun other hother => by
          simpa [hcarrier, eq_comm] using (hcarries other).mp hother⟩
    | woken task =>
        exact ⟨task, (hcarries task).mpr (Or.inr hcarrier), fun other hother => by
          simpa [hcarrier, eq_comm] using (hcarries other).mp hother⟩
  · intro h task
    rw [h] at hwaking
    rw [hcarries]
    rintro (rfl | rfl) <;> cases hwaking
  · intro h
    rw [hwaiters, hwaking]
    cases hcarrier : carrier with
    | none => rfl
    | unlock task => exact absurd ((hacc.pops task).mpr hcarrier) (h task)
    | woken task => rfl
  · intro task hpc
    rw [hwaiters, (hacc.pops task).mp hpc]
    rfl
  · intro hfree hasleep
    have hzero : (Atom.decode (sys.world.atom ())).waiters = 0 := hacc.free hfree hasleep
    rw [hwaiters] at hzero
    have hinbox : sys.world.lists.store.inbox () = [] := List.length_eq_zero_iff.mp (by omega)
    have hqueue : sys.world.lists.store.queues () 0 = [] :=
      List.length_eq_zero_iff.mp (by omega)
    constructor
    · rw [hlists.top]
      exact List.head?_eq_none_iff.mpr hinbox
    · rw [hlists.isEmpty]
      exact List.isEmpty_iff.mpr hqueue

/-- In every run the word of the fast mutex keeps its books and no wakeup is
lost. -/
theorem keepsBooks_of_reachable (hcard : Fintype.card τ < 2 ^ 62)
    (hreach : (machine : Machine (HeapSystem τ Unit (Fin 1) ℕ ω Unit (Point τ)) _
      _).Reachable sys) : KeepsBooks sys :=
  books_of_verified hreach (verified_of_reachable hcard hreach)

/-- One task unlocks the mutex and has popped another, which is to be woken. -/
theorem keepsBooks_of_unlock :
    ∃ sys : HeapSystem (Fin 2) Unit (Fin 1) ℕ Unit Unit (Point (Fin 2)),
      sys.pc 0 = .unlock .release ∧ (sys.pc 1).waits = true ∧ KeepsBooks sys := by
  let call (task : Fin 2) : Fin 2 × Label Call Unit := (task, .call false ())
  have hrun : ((machine : Machine (HeapSystem (Fin 2) Unit (Fin 1) ℕ Unit
    Unit (Point (Fin 2))) _ _).run
      [(0, .start .lock), call 0, call 0, call 0,
        (1, .start .lock), call 1, call 1, call 1, call 1,
        (0, .start .dropGuard), call 0, call 0, call 0, call 0, call 0, call 0]).map
        (fun result => (result.1.pc 0, (result.1.pc 1).waits)) =
      some (.unlock .release, true) := by decide +kernel
  obtain ⟨result, hresult, hpoints⟩ := Option.map_eq_some_iff.mp hrun
  rw [Prod.mk.injEq] at hpoints
  exact ⟨result.1, hpoints.1, hpoints.2,
    keepsBooks_of_reachable (by decide) (machine.reachable_of_run _ hresult)⟩

/-! ## The accounts of the waiters -/

/-- The task is between the compare-exchange of an unlock that is to wake a waiter
and this wake, or was woken and neither has the lock nor sleeps again. -/
def Passes (handle : τ → Option τ) (awake : τ → Bool) (task : τ) (point : Point τ) : Prop :=
  point = .unlock .pop ∨ (handle task).isSome = true ∨ point.competes = true ∨
    point.waits = true ∧ awake task = true

namespace Accounts

variable {board : MutexBoard τ} {pc : τ → Point τ} {owner : Option τ} {carrier : Carrier τ}
  {task : τ} (hacc : Accounts board pc owner carrier)
  (hco : (client : Client τ Unit _ _ Unit _ _).Coherent holds board pc)
include hacc hco

omit [Fintype τ] in
/-- Whoever passes the wakeup on is the carrier, or has popped it. -/
theorem of_passes (hpasses : Passes board.handle board.awake task (pc task)) :
    carrier = .unlock task ∨ ∃ waiter, carrier = .woken waiter ∧
      (board.handle task = some waiter ∨
        waiter = task ∧ ((pc task).competes = true ∨ board.awake task = true)) := by
  rcases hpasses with hpop | hhand | hcompetes | ⟨hwaits, hawake⟩
  · exact Or.inl ((hacc.pops task).mp hpop)
  · obtain ⟨waiter, hwaiter⟩ := Option.isSome_iff_exists.mp hhand
    have hwaits := waits_of_listed hco (Or.inr (Or.inl ⟨task, hwaiter⟩))
    exact Or.inr ⟨waiter, (hacc.woken waiter).mp (Or.inr ⟨hwaits, Or.inl ⟨task, hwaiter⟩⟩),
      Or.inl hwaiter⟩
  · exact Or.inr ⟨task, (hacc.woken task).mp (Or.inl hcompetes), Or.inr ⟨rfl, Or.inl hcompetes⟩⟩
  · exact Or.inr ⟨task, (hacc.woken task).mp (Or.inr ⟨hwaits, Or.inr hawake⟩),
      Or.inr ⟨rfl, Or.inr hawake⟩⟩

omit hacc [Fintype τ] in
/-- A waiter that was popped and not woken is in one hand, and does nothing. -/
theorem eq_of_hand {waiter other : τ} (hhand : board.handle task = some waiter)
    (hother : board.handle other = some waiter ∨
      waiter = other ∧ ((pc other).competes = true ∨ board.awake other = true)) :
    other = task := by
  have hpopped : board.Popped waiter := Or.inl ⟨task, hhand⟩
  rcases hother with hhand' | ⟨rfl, hcompetes | hawake⟩
  · obtain ⟨place, hplaced⟩ := hco.placed
    have hplace := (hplaced.places.hand task waiter).mp hhand
    have hplace' := (hplaced.places.hand other waiter).mp hhand'
    rw [hplace] at hplace'
    exact (Place.hand.inj hplace').symm
  · have hwaits := waits_of_listed hco (Or.inr hpopped)
    cases hpc : pc waiter <;> simp_all [Point.waits, Point.competes]
  · rw [hco.awake_of_popped hpopped] at hawake
    cases hawake

omit [Fintype τ] in
/-- A wakeup that is under way is passed on by exactly one task. -/
theorem passes (hwaking : carrier.isSome = true) :
    ∃! task, Passes board.handle board.awake task (pc task) := by
  cases hcarrier : carrier with
  | none =>
      rw [hcarrier] at hwaking
      cases hwaking
  | unlock task =>
      refine ⟨task, Or.inl ((hacc.pops task).mpr hcarrier), fun other hother => ?_⟩
      rcases hacc.of_passes hco hother with hunlock | ⟨waiter, hwoken, -⟩
      · rw [hcarrier] at hunlock
        exact (Carrier.unlock.inj hunlock).symm
      · rw [hcarrier] at hwoken
        cases hwoken
  | woken waiter =>
      have hothers {other : τ} (hother : Passes board.handle board.awake other (pc other)) :
          board.handle other = some waiter ∨
            waiter = other ∧ ((pc other).competes = true ∨ board.awake other = true) := by
        rcases hacc.of_passes hco hother with hunlock | ⟨waiter', hwoken, hrest⟩
        · rw [hcarrier] at hunlock
          cases hunlock
        · rw [hcarrier] at hwoken
          cases hwoken
          exact hrest
      rcases (hacc.woken waiter).mpr hcarrier with hcompetes | ⟨hwaits, ⟨task, hhand⟩ | hawake⟩
      · refine ⟨waiter, Or.inr (Or.inr (Or.inl hcompetes)), fun other hother => ?_⟩
        rcases hothers hother with hhand | ⟨rfl, -⟩
        · exact (eq_of_hand hco hhand (Or.inr ⟨rfl, Or.inl hcompetes⟩)).symm
        · rfl
      · refine ⟨task, Or.inr (Or.inl (by simp [hhand])), fun other hother => ?_⟩
        exact eq_of_hand hco hhand (hothers hother)
      · refine ⟨waiter, Or.inr (Or.inr (Or.inr ⟨hwaits, hawake⟩)), fun other hother => ?_⟩
        rcases hothers hother with hhand | ⟨rfl, -⟩
        · exact (eq_of_hand hco hhand (Or.inr ⟨rfl, Or.inr hawake⟩)).symm
        · rfl

omit [Fintype τ] in
theorem not_passes (hwaking : carrier.isSome = false) :
    ¬ Passes board.handle board.awake task (pc task) := by
  intro hpasses
  rcases hacc.of_passes hco hpasses with rfl | ⟨waiter, rfl, -⟩ <;> cases hwaking

end Accounts

/-- Fewer than `2 ^ 62` tasks wait or were woken. -/
def Few (sys : HeapSystem τ Unit (Fin 1) ℕ ω Unit (Point τ)) : Prop := crowd sys.pc < 2 ^ 62

/-- The word keeps account of the waiters, and a free mutex wakes one. -/
structure Accounted (sys : HeapSystem τ Unit (Fin 1) ℕ ω Unit (Point τ)) : Prop where
  safe : sys.panicked = false
  locked : (Atom.decode (sys.world.atom ())).locked = true ↔
    ∃ task, sys.pc task = .guard ∨ ∃ point : Unlock τ, sys.pc task = .unlock point ∧
      point.owns = true
  waiters : (∀ task, sys.pc task ≠ .unlock .pop) →
    (Atom.decode (sys.world.atom ())).waiters = (sys.world.lists.store.inbox ()).length +
      (sys.world.lists.store.queues () 0).length +
        if (Atom.decode (sys.world.atom ())).waking then 1 else 0
  waking : (Atom.decode (sys.world.atom ())).waking = true ↔
    ∃! task, Passes sys.world.handle sys.world.awake task (sys.pc task)
  asleep : (Atom.decode (sys.world.atom ())).waking = false →
    ∀ task, ¬ Passes sys.world.handle sys.world.awake task (sys.pc task)
  wakes : (Atom.decode (sys.world.atom ())).locked = false →
    0 < (Atom.decode (sys.world.atom ())).waiters →
      (Atom.decode (sys.world.atom ())).waking = true
  /-- Nobody waits for a free mutex when no poll and no unlock is in progress and
  nobody was woken. -/
  served : (Atom.decode (sys.world.atom ())).locked = false →
    (∀ task, sys.pc task = .idle ∨ sys.pc task = .guard ∨ ∃ current,
      sys.pc task = .waiting current ∧ sys.world.phase task = .pending ∧
        sys.world.awake task = false) → ∀ task, sys.pc task = .idle

/-- In every run with fewer than `2 ^ 62` waiters the word keeps account of them,
and a mutex that is free wakes one. -/
theorem accounted_of_traceWithin {history : List (Mark τ Unit ℕ ω (Point τ) Call)}
    (htrace : (machine : Machine (HeapSystem τ Unit (Fin 1) ℕ ω Unit (Point τ)) _
      _).TraceWithin Few history sys) : Accounted sys := by
  have hverified := System.Verified.of_traceWithin typed invariant_of_few
    ⟨inv_initial, by simp [crowd, Point.counted, Point.waits, Point.competes, client]⟩
    (fun _ h => h) htrace
  have hbooks := books_of_verified htrace.trace.reachable
    ⟨hverified.safe, hverified.placed, hverified.fits, hverified.inv.1⟩
  have hco := hverified.coherent
  obtain ⟨owner, carrier, hacc⟩ := hverified.inv.1
  have hlocked : (Atom.decode (sys.world.atom ())).locked = owner.isSome := hacc.locked
  have hwaking : (Atom.decode (sys.world.atom ())).waking = carrier.isSome := hacc.waking
  have howns (task : τ) : (sys.pc task).owns = true ↔ sys.pc task = .guard ∨
      ∃ point : Unlock τ, sys.pc task = .unlock point ∧ point.owns = true := by
    cases sys.pc task <;> simp [Point.owns]
  refine ⟨hbooks.safe, ?_, ?_, ?_, ?_, ?_, fun hfree hrests => ?_⟩
  · constructor
    · intro h
      obtain ⟨task, htask, -⟩ := hbooks.owned h
      exact ⟨task, (howns task).mp htask⟩
    · rintro ⟨task, htask⟩
      rw [hlocked, (hacc.owns task).mp ((howns task).mpr htask)]
      rfl
  · intro hpops
    rw [hbooks.counted hpops]
    cases (Atom.decode (sys.world.atom ())).waking <;> rfl
  · constructor
    · intro h
      exact hacc.passes hco (hwaking.symm.trans h)
    · rintro ⟨task, htask, -⟩
      by_contra hnone
      rw [Bool.not_eq_true] at hnone
      exact hacc.not_passes hco (hwaking.symm.trans hnone) htask
  · exact fun h task => hacc.not_passes hco (hwaking.symm.trans h)
  · intro hfree hwaiters
    by_contra hnone
    rw [Bool.not_eq_true] at hnone
    have hzero : (Atom.decode (sys.world.atom ())).waiters = 0 := hacc.free hfree hnone
    omega
  · refine hbooks.quiet fun task => ?_
    rcases hrests task with hpc | hpc | ⟨current, hpc, -, hasleep⟩
    · exact Or.inl hpc
    · have hidle := hbooks.free hfree task
      rw [hpc] at hidle
      cases hidle
    · exact Or.inr ⟨by rw [hpc]; rfl, hasleep⟩

/-- Two tasks wait.  The first one was woken and competes with a task that has
taken the mutex meanwhile. -/
theorem accounted_of_barging :
    ∃ sys : HeapSystem (Fin 3) Unit (Fin 1) ℕ Unit Unit (Point (Fin 3)),
      sys.pc 0 = .guard ∧ (sys.pc 1).competes = true ∧ (sys.pc 2).waits = true ∧
        Accounted sys := by
  let call (task : Fin 3) : Fin 3 × Label Call Unit := (task, .call false ())
  let lock : Machine (HeapSystem (Fin 3) Unit (Fin 1) ℕ Unit Unit (Point (Fin 3)))
    (Fin 3 × Label Call Unit) (Mark (Fin 3) Unit ℕ Unit (Point (Fin 3)) Call) := machine
  have hrun : (lock.run ([(0, .start .lock), call 0, call 0, call 0,
        (1, .start .lock), call 1, call 1, call 1, call 1,
        (2, .start .lock), call 2, call 2, call 2, call 2, (0, .start .dropGuard)] ++
          List.replicate 8 (call 0) ++ [(0, .step false), call 0,
        (0, .start .lock), call 0, call 0, call 0, (1, .poll ()), (1, .step false)])).map
          (fun result => (decide (result.1.pc 0 = .guard), (result.1.pc 1).competes,
            (result.1.pc 2).waits)) = some (true, true, true) := by decide +kernel
  obtain ⟨⟨sys, history⟩, hresult, hgood⟩ := Option.map_eq_some_iff.mp hrun
  simp only [Prod.mk.injEq, decide_eq_true_eq] at hgood
  obtain ⟨howner, hwoken, hwaiter⟩ := hgood
  have htrace : lock.Trace history sys := ⟨_, hresult⟩
  have hfew (sys : HeapSystem (Fin 3) Unit (Fin 1) ℕ Unit Unit (Point (Fin 3))) : Few sys :=
    Nat.lt_of_le_of_lt (crowd_le_card sys.pc) (by decide)
  exact ⟨sys, howner, hwoken, hwaiter, accounted_of_traceWithin (htrace.within hfew)⟩

/-! ## The order of the wakeups -/

omit [Fintype τ] in
theorem resp_of_pop {board board' : MutexBoard τ} {task : τ} {resp : Resp τ ℕ}
    (hstep : board.Step task (.call (.pop () 0)) (some resp) board') :
    resp = .handle (board.store.queues () 0).head? := by
  cases hstep
  rfl

omit [Fintype τ] in
/-- The answer of a pop is the head of the queue. -/
theorem head_of_pop {board board' : MutexBoard τ} {task waiter : τ}
    {input : Board.Input τ Unit (Fin 1) ℕ}
    (hasks : (client : Client τ Unit _ _ Unit _ _).Asks (.unlock .pop) input)
    (hstep : board.Step task input (some (.handle (some waiter))) board') :
    (board.store.queues () 0).head? = some waiter := by
  cases input with
  | call op =>
      have hop : code (.unlock .pop : Point τ) = .call op := hasks op rfl
      cases hop
      exact (Resp.handle.inj (resp_of_pop hstep)).symm
  | go => cases hstep
  | drop => cases hstep

/-- In every run an unlock wakes the waiter that went to sleep before all
others; a waiter that was woken and finds the lock taken goes to the end. -/
theorem inTurn_of_trace (hcard : Fintype.card τ < 2 ^ 62)
    {history : List (Mark τ Unit ℕ ω (Point τ) Call)}
    {label : τ × Label Call ω}
    {result : HeapSystem τ Unit (Fin 1) ℕ ω Unit (Point τ) ×
      List (Mark τ Unit ℕ ω (Point τ) Call)}
    (htrace : machine.Trace history sys) (hnext : machine.next sys label = some result)
    {task waiter : τ}
    (hmark : .responded task (.unlock .pop) (.handle (some waiter)) ∈ result.2) :
    waiter ∈ sys.world.lists.store.contents () 0 ∧
      ∀ other ∈ sys.world.lists.store.contents () 0, other ≠ waiter →
        [waiter, other].Sublist (lastArrivals (arrivals history)) := by
  obtain ⟨hlists, -⟩ := System.lists_of_trace htrace
  obtain ⟨hnext', -⟩ := System.machine_next.mp (System.next_lists htrace hnext)
  have hverified := verified_of_reachable hcard htrace.reachable
  have hline := System.inLine_of_trace typed (invariant hcard) inv_initial code_ne_requeue hlists
  obtain ⟨-, hpc, input, board', hasks, hstep⟩ :=
    hverified.responded typed (invariant hcard) hnext' hmark
  rw [← hpc] at hasks
  exact hline.first (head_of_pop hasks hstep)

/-- Two tasks wait; the first one is woken, finds the lock taken and waits
again, and the second one is popped before it. -/
theorem inTurn_of_pop :
    ∃ (history : List (Mark (Fin 3) Unit ℕ Unit (Point (Fin 3)) Call))
      (sys : HeapSystem (Fin 3) Unit (Fin 1) ℕ Unit Unit (Point (Fin 3))),
      1 ∈ sys.world.lists.store.contents () 0 ∧ 2 ∈ sys.world.lists.store.contents () 0 ∧
        ∀ other ∈ sys.world.lists.store.contents () 0, other ≠ 2 →
          [2, other].Sublist (lastArrivals (arrivals history)) := by
  let call (task : Fin 3) : Fin 3 × Label Call Unit := (task, .call false ())
  let lock : Machine (HeapSystem (Fin 3) Unit (Fin 1) ℕ Unit Unit (Point (Fin 3)))
    (Fin 3 × Label Call Unit) (Mark (Fin 3) Unit ℕ Unit (Point (Fin 3)) Call) := machine
  have hrun : ((lock.run ([(0, .start .lock), call 0, call 0, call 0,
        (1, .start .lock), call 1, call 1, call 1, call 1,
        (2, .start .lock), call 2, call 2, call 2, call 2, (0, .start .dropGuard)] ++
          List.replicate 8 (call 0) ++ [(0, .step false), call 0,
        (0, .start .lock), call 0, call 0, call 0,
        (1, .poll ()), (1, .step false), call 1, call 1, call 1, call 1,
        (0, .start .dropGuard)] ++ List.replicate 5 (call 0))).bind fun before =>
      (lock.next before.1 (call 0)).map fun after =>
        (decide (1 ∈ before.1.world.lists.store.contents () 0),
          decide ((0, .unlock .pop, .handle (some 2)) ∈ after.2.filterMap Mark.response))) =
      some (true, true) := by decide +kernel
  obtain ⟨before, hbefore, hrest⟩ := Option.bind_eq_some_iff.mp hrun
  obtain ⟨after, hafter, hpair⟩ := Option.map_eq_some_iff.mp hrest
  rw [Prod.mk.injEq, decide_eq_true_eq, decide_eq_true_eq] at hpair
  obtain ⟨hwaits, hmark⟩ := hpair
  obtain ⟨hpopped, hfirst⟩ := inTurn_of_trace (by decide) ⟨_, hbefore⟩ hafter
    (Mark.mem_of_response hmark)
  exact ⟨before.2, before.1, hwaits, hpopped, hfirst⟩

end FastMutex

end AsyncMutex
