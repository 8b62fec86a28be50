import AsyncMutex.Futex2Ownership

/-!
# The sleeping futures in the ring

A future sleeps while the waker that it registered last is in its bucket.
When every poll and every call of `notify` runs to completion before the next
one begins, the sleeping futures wait in order at the positions from `notifies`
to `waits`.  A wait whose condition fails leaves its bucket in the ring, and its
own notification may go to a future before it.
-/

namespace AsyncMutex

namespace Futex2

/-- The bucket holds the waker of a waiter. -/
def Bucket.sleeps {ω : Type} : Bucket ω → Bool
  | .waiting _ => true
  | _ => false

theorem Bucket.waiting_of_sleeps {ω : Type} {bucket : Bucket ω} (hsleeps : bucket.sleeps = true) :
    ∃ waker, bucket = .waiting waker := by
  cases bucket with
  | waiting waker => exact ⟨waker, rfl⟩
  | _ => cases hsleeps

/-- The task is inside no poll and no call. -/
def Point.idle {ω : Type} : Point ω → Bool
  | .rest => true
  | .panicked => true
  | .unreachable => true
  | _ => false

namespace Queue

variable {τ ω : Type} {checked : Bool}
  {queue queue' : Queue τ ω} {task : τ}

/-- The bucket of the task's future holds the waker that it registered last. -/
def sleeping (queue : Queue τ ω) (task : τ) : Bool :=
  match queue.slot task with
  | some (generation, iteration) => (queue.bucket generation iteration).sleeps
  | none => false

theorem sleeping_iff : queue.sleeping task = true ↔ ∃ generation iteration,
    queue.slot task = some (generation, iteration) ∧
      (queue.bucket generation iteration).sleeps = true := by
  unfold sleeping
  constructor
  · intro hsleeping
    cases hslot : queue.slot task with
    | none => simp [hslot] at hsleeping
    | some slot =>
        rw [hslot] at hsleeping
        exact ⟨slot.1, slot.2, rfl, hsleeping⟩
  · intro hsleeping
    obtain ⟨generation, iteration, hslot, hsleeps⟩ := hsleeping
    rw [hslot]
    exact hsleeps

/-- The last poll of the task's future returned `Pending`, and the waker that it
registered has not been woken since. -/
def live (queue : Queue τ ω) (task : τ) : Bool :=
  (queue.slot task).isSome && !queue.woken task

theorem live_of_sleeping (hsleeping : queue.sleeping task = true)
    (hwoken : queue.woken task = false) : queue.live task = true := by
  obtain ⟨generation, iteration, hslot, -⟩ := sleeping_iff.mp hsleeping
  simp [live, hslot, hwoken]

/-! ## The sleeping futures in the ring -/

/-- The sleeping futures are those at the positions from `low` to `high`. -/
structure Ring (queue : Queue τ ω) (low high : ℕ) : Prop where
  within : ∀ task generation iteration, queue.slot task = some (generation, iteration) →
    (queue.bucket generation iteration).sleeps = true →
      generation = queue.atom.generation ∧ low ≤ iteration ∧ iteration < high
  held : ∀ iteration, low ≤ iteration → iteration < high →
    ∃ task, queue.slot task = some (queue.atom.generation, iteration) ∧
      (queue.bucket queue.atom.generation iteration).sleeps = true

variable {low high generation iteration : ℕ}

/-- A bucket is exchanged for one that holds a waker just as well. -/
theorem sleeps_setBucket {bucket : Bucket ω}
    (hbucket : (queue.bucket generation iteration).sleeps = bucket.sleeps)
    (other other' : ℕ) :
    ((queue.setBucket generation (queue.index generation iteration) bucket).bucket other
      other').sleeps = (queue.bucket other other').sleeps := by
  rw [bucket_setBucket]
  split
  case isTrue hat =>
    obtain ⟨rfl, hindex⟩ := hat
    have hsame : queue.bucket other other' = queue.bucket other iteration :=
      congrArg (queue.generations other).waiters hindex
    rw [hsame, hbucket]
  case isFalse => rfl

theorem Ring.frame (hring : queue.Ring low high)
    (hgeneration : queue'.atom.generation = queue.atom.generation)
    (hslot : queue'.slot = queue.slot)
    (hsleeps : ∀ generation iteration, (queue'.bucket generation iteration).sleeps =
      (queue.bucket generation iteration).sleeps) : queue'.Ring low high := by
  constructor
  case within =>
    intro other generation' iteration' hother hholds
    rw [hslot] at hother
    rw [hsleeps] at hholds
    rw [hgeneration]
    exact hring.within other generation' iteration' hother hholds
  case held =>
    intro iteration' hlow hhigh
    obtain ⟨owner, howner, hholds⟩ := hring.held iteration' hlow hhigh
    rw [hgeneration, hslot, hsleeps]
    exact ⟨owner, howner, hholds⟩

variable [DecidableEq τ]

/-- A future that does not sleep ends. -/
theorem Ring.leave (hring : queue.Ring low high)
    (hmine : queue.slot task = some (generation, iteration))
    (hasleep : (queue.bucket generation iteration).sleeps = false)
    (hgeneration : queue'.atom.generation = queue.atom.generation)
    (hslot : queue'.slot = Function.update queue.slot task none)
    (hsleeps : ∀ generation iteration, (queue'.bucket generation iteration).sleeps =
      (queue.bucket generation iteration).sleeps) : queue'.Ring low high := by
  constructor
  case within =>
    intro other generation' iteration' hother hholds
    have hne : other ≠ task := by
      rintro rfl
      simp [hslot] at hother
    rw [hslot, Function.update_of_ne hne] at hother
    rw [hsleeps] at hholds
    rw [hgeneration]
    exact hring.within other generation' iteration' hother hholds
  case held =>
    intro iteration' hlow hhigh
    obtain ⟨owner, howner, hholds⟩ := hring.held iteration' hlow hhigh
    have hne : owner ≠ task := by
      rintro rfl
      rw [hmine, Option.some.injEq, Prod.mk.injEq] at howner
      obtain ⟨rfl, rfl⟩ := howner
      exact absurd (hasleep.symm.trans hholds) (by decide)
    rw [hgeneration, hslot, hsleeps]
    exact ⟨owner, by rw [Function.update_of_ne hne]; exact howner, hholds⟩

/-- A wait registers at the next position. -/
theorem Ring.registers (hring : queue.Ring low iteration) (hslots : queue.Slots)
    (hlow : low ≤ iteration) (hmine : queue.slot task = none) (waker : ω) (after : Point ω)
    (hbucket : queue.bucket queue.atom.generation iteration = .empty iteration) :
    ((((queue.setBucket queue.atom.generation (queue.index queue.atom.generation iteration)
      (.waiting waker)).setSlot task (some (queue.atom.generation, iteration))).register task
        waker).setPoint task after).Ring low (iteration + 1) := by
  have hvacant {other : τ} {generation' iteration' : ℕ}
      (hother : queue.slot other = some (generation', iteration')) :
      ¬ (generation' = queue.atom.generation ∧ queue.index generation' iteration' =
        queue.index queue.atom.generation iteration) := by
    rintro ⟨rfl, hindex⟩
    exact hslots.vacant (by simp [hbucket, Bucket.Occupied]) hother hindex
  constructor
  case within =>
    intro other generation' iteration' hother hholds
    by_cases heq : other = task
    · simp only [heq, setPoint_slot, register_slot, setSlot_slot, Function.update_self,
        Option.some.injEq, Prod.mk.injEq] at hother
      obtain ⟨rfl, rfl⟩ := hother
      exact ⟨rfl, hlow, Nat.lt_succ_self _⟩
    · have hold : queue.slot other = some (generation', iteration') := by
        simpa [heq] using hother
      have hsleeps : (queue.bucket generation' iteration').sleeps = true := by
        simpa [bucket_setBucket, hvacant hold] using hholds
      obtain ⟨hgeneration, hge, hlt⟩ := hring.within other generation' iteration' hold hsleeps
      exact ⟨hgeneration, hge, Nat.lt_succ_of_lt hlt⟩
  case held =>
    intro iteration' hge hlt
    by_cases hlast : iteration' = iteration
    · refine ⟨task, ?_, ?_⟩
      · simp [hlast]
      · simp [hlast, bucket_setBucket, Bucket.sleeps]
    · obtain ⟨owner, howner, hholds⟩ := hring.held iteration' hge (by omega)
      have hne : owner ≠ task := by
        rintro rfl
        rw [hmine] at howner
        cases howner
      refine ⟨owner, ?_, ?_⟩
      · simpa [hne] using howner
      · have haway := hvacant howner
        rw [bucket_setPoint, bucket_register, bucket_setSlot]
        simp only [setPoint_atom, register_atom, setSlot_atom, setBucket_atom]
        rw [bucket_setBucket, if_neg haway]
        exact hholds

/-- A notification takes the waker of the first future. -/
theorem Ring.takes (hring : queue.Ring iteration high) (hslots : queue.Slots)
    (hhigh : iteration < high) (after : Point ω) :
    ((queue.setBucket queue.atom.generation (queue.index queue.atom.generation iteration)
      .waking).setPoint task after).Ring (iteration + 1) high := by
  obtain ⟨first, hfirst, -⟩ := hring.held iteration (Nat.le_refl _) hhigh
  constructor
  case within =>
    intro other generation' iteration' hother hholds
    have hold : queue.slot other = some (generation', iteration') := hother
    have haway : ¬ (generation' = queue.atom.generation ∧ queue.index generation' iteration' =
        queue.index queue.atom.generation iteration) := by
      intro hat
      rw [bucket_setPoint, bucket_setBucket, if_pos hat] at hholds
      cases hholds
    have hsleeps : (queue.bucket generation' iteration').sleeps = true := by
      simpa [bucket_setBucket, haway] using hholds
    obtain ⟨rfl, hge, hlt⟩ := hring.within other generation' iteration' hold hsleeps
    have hne : iteration' ≠ iteration := by
      rintro rfl
      exact haway ⟨rfl, rfl⟩
    refine ⟨rfl, ?_, hlt⟩
    omega
  case held =>
    intro iteration' hge hlt
    obtain ⟨owner, howner, hholds⟩ := hring.held iteration' (by omega) hlt
    have haway : ¬ queue.index queue.atom.generation iteration' =
        queue.index queue.atom.generation iteration := by
      intro hindex
      have hsame := hslots.apart owner first queue.atom.generation iteration' iteration howner
        hfirst hindex
      rw [hsame, hfirst, Option.some.injEq, Prod.mk.injEq] at howner
      omega
    refine ⟨owner, howner, ?_⟩
    simpa [bucket_setBucket, haway] using hholds

/-- Nobody sleeps, and a bucket is given up. -/
theorem Ring.nobody (hring : queue.Ring high high) {bucket : Bucket ω}
    (hbucket : bucket.sleeps = false) (after : Point ω) :
    ((queue.setBucket generation (queue.index generation iteration) bucket).setPoint task
      after).Ring high high := by
  constructor
  case within =>
    intro other generation' iteration' hother hholds
    have hsleeps : (queue.bucket generation' iteration').sleeps = true := by
      by_cases hat : generation' = generation ∧ queue.index generation' iteration' =
          queue.index generation iteration
      · rw [bucket_setPoint, bucket_setBucket, if_pos hat, hbucket] at hholds
        cases hholds
      · simpa [bucket_setBucket, hat] using hholds
    exact hring.within other generation' iteration' hother hsleeps
  case held =>
    intro iteration' hge hlt
    omega

omit [DecidableEq τ] in
theorem sleeps_of_buried (hburied : queue.Buried generation (queue.index generation iteration)) :
    (queue.bucket generation iteration).sleeps = false := by
  rw [show queue.bucket generation iteration = .tombstone from hburied]
  rfl

omit [DecidableEq τ] in
theorem Inv.sleeps_of_retired (hinv : queue.Inv) (hlt : generation < queue.atom.generation) :
    (queue.bucket generation iteration).sleeps = false := by
  have hpositive := hinv.expansion.positive generation (Nat.le_of_lt hlt)
  exact sleeps_of_buried
    (hinv.expansion.retired generation hlt _ (Nat.mod_lt _ hpositive))

omit [DecidableEq τ] in
/-- Nobody sleeps when an expansion has failed. -/
theorem Inv.dead (hinv : queue.Inv) (hpoisoned : queue.poisoned = true) (task : τ) :
    queue.sleeping task = false := by
  by_contra hsleeping
  obtain ⟨generation, iteration, hslot, hsleeps⟩ :=
    sleeping_iff.mp (eq_true_of_ne_false hsleeping)
  have hle := hinv.slots.current task generation iteration hslot
  rcases Nat.lt_or_eq_of_le hle with hlt | rfl
  · rw [hinv.sleeps_of_retired hlt] at hsleeps
    cases hsleeps
  · have hpositive := hinv.expansion.positive _ hle
    have hburied := hinv.expansion.poisoned hpoisoned _ (Nat.mod_lt iteration hpositive)
    rw [sleeps_of_buried hburied] at hsleeps
    cases hsleeps

omit [DecidableEq τ] in
/-- Nobody waits in a new generation. -/
theorem Inv.fresh (hinv : queue.Inv)
    (hslots : ∀ task generation iteration, queue.slot task = some (generation, iteration) →
      generation < queue.atom.generation) (position : ℕ) : queue.Ring position position := by
  constructor
  case within =>
    intro task generation iteration hslot hholds
    rw [hinv.sleeps_of_retired (hslots task generation iteration hslot)] at hholds
    cases hholds
  case held =>
    intro iteration hge hlt
    omega

/-! ## Where a poll or a call stands -/

/-- A call of `notify` before its exchange.  One for a condition that failed
finds nobody asleep and the bucket of its own wait. -/
def Calls (queue : Queue τ ω) : Bool → ℕ → Prop
  | true, _ => queue.Ring queue.atom.notifies queue.atom.waits
  | false, amount =>
      amount = 1 ∧ queue.atom.waits = queue.atom.notifies + 1 ∧
        queue.Ring queue.atom.waits queue.atom.waits ∧
        (queue.bucket queue.atom.generation queue.atom.notifies).sleeps = true

/-- A call of `notify` comes to the bucket of a sleeping future, or to that of the
wait whose condition has failed. -/
structure Visits (queue : Queue τ ω) (generation iteration last : ℕ) : Prop where
  current : generation = queue.atom.generation
  ends : last = queue.atom.notifies
  before : iteration < last
  sleeps : (queue.bucket generation iteration).sleeps = true
  ring : queue.Ring iteration queue.atom.waits ∨
    iteration + 1 = queue.atom.waits ∧ queue.Ring queue.atom.waits queue.atom.waits

/-- A wait has its position. -/
structure Enters (queue : Queue τ ω) (generation iteration : ℕ) : Prop where
  current : generation = queue.atom.generation
  ends : queue.atom.waits = iteration + 1
  below : queue.atom.notifies ≤ iteration

/-- The sleeping futures while a task is at a point and the others are idle. -/
def Stage (queue : Queue τ ω) : Point ω → Prop
  | .enterBucket _ generation iteration current =>
      queue.Enters generation iteration ∧ queue.Ring queue.atom.notifies iteration ∧
        ∀ other, current ≠ .woken other
  | .condition generation iteration =>
      queue.Enters generation iteration ∧ queue.Ring queue.atom.notifies queue.atom.waits
  | .waitCas _ generation iteration current =>
      current = queue.bucket generation iteration ∧
        queue.Ring queue.atom.notifies queue.atom.waits
  | .notifyLoad called amount => queue.Calls called amount
  | .notifyCas called amount _ => queue.Calls called amount
  | .bucketLoad generation iteration last => queue.Visits generation iteration last
  | .bucketCas generation iteration last old =>
      queue.Visits generation iteration last ∧ old.sleeps = true
  | .notifyWake generation iteration last _ =>
      generation = queue.atom.generation ∧ last = queue.atom.notifies ∧ iteration < last ∧
        queue.Ring (iteration + 1) queue.atom.waits
  | .expandLock generation =>
      generation = queue.atom.generation ∨ queue.Ring queue.atom.notifies queue.atom.waits
  | .expandSwap _ _ => True
  | .expandWake _ _ _ => True
  | _ => queue.Ring queue.atom.notifies queue.atom.waits

omit [DecidableEq τ] in
theorem stage_of_idle {point : Point ω} (hidle : point.idle = true) :
    queue.Stage point ↔ queue.Ring queue.atom.notifies queue.atom.waits := by
  cases point <;> first | exact Iff.rfl | cases hidle

omit [DecidableEq τ] in
/-- The call goes on at a position of the sleeping futures. -/
theorem Ring.visit (hring : queue.Ring iteration queue.atom.waits)
    (hle : iteration ≤ queue.atom.notifies) (hbelow : queue.atom.notifies ≤ queue.atom.waits) :
    queue.Stage (visit queue.atom.generation iteration queue.atom.notifies) := by
  unfold Queue.visit
  split
  case isTrue hlt =>
    obtain ⟨owner, -, hsleeps⟩ := hring.held iteration (Nat.le_refl _) (by omega)
    exact ⟨rfl, rfl, hlt, hsleeps, Or.inl hring⟩
  case isFalse hge =>
    have heq : iteration = queue.atom.notifies := by omega
    rw [heq] at hring
    exact hring

/-! ## Runs without interleaving -/

/-- Polls and calls do not overlap, and neither the waits nor the argument of a
call reach `half`. -/
def Promised (queue : Queue τ ω) (label : τ × Act ω) : Prop :=
  match label.2, queue.point label.1 with
  | .enter _, _ => ∀ task, (queue.point task).idle = true
  | .poll _, _ => ∀ task, (queue.point task).idle = true
  | .notify amount, _ => (∀ task, (queue.point task).idle = true) ∧ amount < half
  | .step _ _, .enterCas _ atom => atom.waits + 1 < half
  | _, _ => True

/-- No live future of another task has registered this waker. -/
def Foreign (queue : Queue τ ω) (task : τ) (waker : ω) : Prop :=
  ∀ other, other ≠ task → queue.live other = true → queue.registered other ≠ some waker

/-- A condition fails only when no other future is live, a poll brings a waker
that no other live future has registered, and the counter of the notifications
does not overflow. -/
def Spared (queue : Queue τ ω) (label : τ × Act ω) : Prop :=
  match label.2, queue.point label.1 with
  | .enter waker, _ => queue.Foreign label.1 waker
  | .poll waker, _ => queue.Foreign label.1 waker
  | .step _ condition, .condition _ _ =>
      condition = false → ∀ other, other ≠ label.1 → queue.live other = false
  | .step _ _, .notifyCas _ amount atom => atom.notifies + amount < half
  | _, _ => True

omit [DecidableEq τ] in
/-- What a step that exchanges neither the atom nor a bucket leaves as it is. -/
theorem Stage.frame {point : Point ω} (hstage : queue.Stage point)
    (hatom : queue'.atom = queue.atom) (hslot : queue'.slot = queue.slot)
    (hgenerations : queue'.generations = queue.generations) : queue'.Stage point := by
  have hbucket (generation iteration : ℕ) :
      queue'.bucket generation iteration = queue.bucket generation iteration := by
    unfold Queue.bucket
    rw [hgenerations]
  have hring {low high : ℕ} (hring : queue.Ring low high) : queue'.Ring low high :=
    hring.frame (by rw [hatom]) hslot fun generation iteration => by rw [hbucket]
  have henters {generation iteration : ℕ} (henters : queue.Enters generation iteration) :
      queue'.Enters generation iteration :=
    ⟨by rw [hatom, henters.current], by rw [hatom, henters.ends],
      by rw [hatom]; exact henters.below⟩
  have hvisits {generation iteration last : ℕ}
      (hvisits : queue.Visits generation iteration last) :
      queue'.Visits generation iteration last := by
    constructor
    case current => rw [hatom, hvisits.current]
    case ends => rw [hatom, hvisits.ends]
    case before => exact hvisits.before
    case sleeps => rw [hbucket, hvisits.sleeps]
    case ring =>
      rw [hatom]
      exact hvisits.ring.imp hring (And.imp_right hring)
  have hcalls {called : Bool} {amount : ℕ} (hcalls : queue.Calls called amount) :
      queue'.Calls called amount := by
    unfold Calls at hcalls ⊢
    rw [hatom, hbucket]
    split
    · exact hring hcalls
    · exact ⟨hcalls.1, hcalls.2.1, hring hcalls.2.2.1, hcalls.2.2.2⟩
  cases point with
  | enterBucket waker generation iteration current =>
      simp only [Stage] at hstage ⊢
      rw [hatom]
      exact ⟨henters hstage.1, hring hstage.2.1, hstage.2.2⟩
  | condition generation iteration =>
      simp only [Stage] at hstage ⊢
      rw [hatom]
      exact ⟨henters hstage.1, hring hstage.2⟩
  | waitCas waker generation iteration current =>
      simp only [Stage] at hstage ⊢
      rw [hatom, hbucket]
      exact ⟨hstage.1, hring hstage.2⟩
  | notifyLoad called amount => exact hcalls hstage
  | notifyCas called amount atom => exact hcalls hstage
  | bucketLoad generation iteration last => exact hvisits hstage
  | bucketCas generation iteration last old => exact ⟨hvisits hstage.1, hstage.2⟩
  | notifyWake generation iteration last waker =>
      simp only [Stage] at hstage ⊢
      rw [hatom]
      exact ⟨hstage.1, hstage.2.1, hstage.2.2.1, hring hstage.2.2.2⟩
  | expandLock generation =>
      simp only [Stage] at hstage ⊢
      rw [hatom]
      exact hstage.imp_right hring
  | expandSwap generation index => trivial
  | expandWake generation index waker => trivial
  | _ =>
      simp only [Stage] at hstage ⊢
      rw [hatom]
      exact hring hstage

/-- The buckets that nobody has notified ahead of their waits, and the counters. -/
structure Plain (queue : Queue τ ω) : Prop where
  below : queue.atom.notifies ≤ queue.atom.waits
  unwoken : ∀ generation index other,
    (queue.generations generation).waiters index ≠ .woken other

variable [DecidableEq ω]

/-- The task's call of `notify` does not fail at its exchange. -/
theorem Spared.notifies {act : Act ω} {called : Bool} {amount : ℕ} {atom : Atom}
    (hspared : queue.Spared (task, act))
    (hbefore : queue.point task = .notifyCas called amount atom)
    (hstep : queue.step checked task act = some queue') :
    atom.notifies + amount < half ∧ queue'.point task ≠ .panicked := by
  obtain ⟨spurious, condition, rfl⟩ := step_of_point (by simp [hbefore]) hstep
  simp only [Spared, hbefore] at hspared
  refine ⟨hspared, fun hpanicked => ?_⟩
  simp only [step, hbefore, Option.some.injEq] at hstep
  rw [← hstep] at hpanicked
  obtain ⟨-, hover⟩ := checked_of_add (notifyCas_panics hpanicked)
  exact hover hspared

/-- The exchange of a bucket that holds a waker does not expand the queue. -/
theorem visit_stays {act : Act ω} {generation iteration last : ℕ} {old : Bucket ω}
    (hbefore : queue.point task = .bucketCas generation iteration last old)
    (hsleeps : old.sleeps = true) (hstep : queue.step checked task act = some queue') :
    queue'.point task ≠ .expandLock generation := by
  obtain ⟨spurious, condition, rfl⟩ := step_of_point (by simp [hbefore]) hstep
  obtain ⟨waker, rfl⟩ := Bucket.waiting_of_sleeps hsleeps
  simp only [step, hbefore, bucketCas, Option.some.injEq] at hstep
  split at hstep <;> simp [← hstep]

/-- A wait that was not notified ahead does not panic at its bucket. -/
theorem enter_stays {act : Act ω} {waker : ω} {generation iteration : ℕ} {current : Bucket ω}
    (hbefore : queue.point task = .enterBucket waker generation iteration current)
    (hcurrent : ∀ other, current ≠ .woken other)
    (hstep : queue.step checked task act = some queue') :
    queue'.point task ≠ .panicked := by
  intro hpanicked
  obtain ⟨spurious, condition, rfl⟩ := step_of_point (by simp [hbefore]) hstep
  simp only [step, hbefore, Option.some.injEq] at hstep
  rw [← hstep] at hpanicked
  exact hcurrent iteration (enterBucket_panics hpanicked).1

/-- The steps that exchange nothing. -/
theorem Stage.quiet {act : Act ω} {before after : Point ω} (hexp : queue.Expansion)
    (hplain : queue.Plain) (hstage : queue.Stage before) (hbefore : queue.point task = before)
    (hspared : queue.Spared (task, act))
    (hstep : queue.step checked task act = some (queue.setPoint task after))
    (hquiet : Quiet checked queue task before after) :
    queue.poisoned = true ∨ queue.Stage after := by
  have hself : (queue.setPoint task after).point task = after := by simp
  cases hquiet with
  | enter => exact Or.inr hstage
  | poll => exact Or.inr hstage
  | notify => exact Or.inr hstage
  | enterLoad => exact Or.inr hstage
  | enterAgain => exact Or.inr hstage
  | enterPanics => exact Or.inr hstage
  | bucketAgain waker generation iteration current =>
      exact Or.inr ⟨hstage.1, hstage.2.1, hplain.unwoken generation _⟩
  | bucketPanics waker generation iteration current =>
      exact absurd hself (enter_stays hbefore hstage.2.2 hstep)
  | bucketExpands waker generation iteration current => exact Or.inr (Or.inl hstage.1.current)
  | pends => exact Or.inr hstage.2
  | waitLoad => exact Or.inr ⟨rfl, hstage⟩
  | waitAgain => exact Or.inr ⟨rfl, hstage.2⟩
  | waitUnreachable => exact Or.inr hstage.2
  | notifyLoad => exact Or.inr hstage
  | notifyAgain => exact Or.inr hstage
  | notifyPanics => exact absurd hself (hspared.notifies hbefore hstep).2
  | visitLoad => exact Or.inr ⟨hstage, hstage.sleeps⟩
  | visitAgain => exact Or.inr ⟨hstage.1, hstage.1.sleeps⟩
  | visitExpands generation iteration last old =>
      exact absurd hself (visit_stays hbefore hstage.2 hstep)
  | expandPanics hpoisoned => exact Or.inl hpoisoned
  | expandReturns hlock hlast =>
      have hcurrent := hexp.unlocked hlock
      rcases hstage with hstage | hring
      · omega
      · exact Or.inr hring

/-- The counter of the waits does not overflow. -/
theorem Promised.waits {act : Act ω} {waker : ω} {atom : Atom} {waits : ℕ}
    (hpromised : queue.Promised (task, act)) (hbefore : queue.point task = .enterCas waker atom)
    (hstep : queue.step checked task act = some queue')
    (hadd : add checked atom.waits 1 = some waits) : waits = atom.waits + 1 := by
  obtain ⟨spurious, condition, rfl⟩ := step_of_point (by simp [hbefore]) hstep
  simp only [Promised, hbefore] at hpromised
  rw [add_of_lt hpromised, Option.some.injEq] at hadd
  exact hadd.symm

omit [DecidableEq τ] [DecidableEq ω] in
theorem unwoken_setBucket
    (hunwoken : ∀ generation index other,
      (queue.generations generation).waiters index ≠ .woken other)
    {bucket : Bucket ω} (hbucket : ∀ other, bucket ≠ .woken other)
    (generation index generation' index' other : ℕ) :
    ((queue.setBucket generation index bucket).generations generation').waiters index' ≠
      .woken other := by
  rw [waiters_setBucket]
  split
  · exact hbucket other
  · exact hunwoken generation' index' other

theorem Plain.step {act : Act ω} (hplain : queue.Plain)
    (hstage : queue.Stage (queue.point task)) (hpromised : queue.Promised (task, act))
    (hstep : queue.step checked task act = some queue') : queue'.Plain := by
  have hbelow := hplain.below
  have hunwoken := hplain.unwoken
  have hcases := step_cases hstep
  generalize hbefore : queue.point task = before at hcases hstage
  cases hcases with
  | @waits waker waits hadd =>
      have hwaits := hpromised.waits hbefore hstep hadd
      refine ⟨?_, hunwoken⟩
      change queue.atom.notifies ≤ waits
      omega
  | notifies called amount hadd => exact ⟨Nat.min_le_right _ _, hunwoken⟩
  | registers waker hbucket =>
      exact ⟨hbelow, unwoken_setBucket hunwoken (by simp) _ _⟩
  | consumes waker hbucket => exact absurd rfl (hstage.2.2 _)
  | registersAgain waker hbucket =>
      exact ⟨hbelow, unwoken_setBucket hunwoken (by simp) _ _⟩
  | leaves waker hbucket => exact ⟨hbelow, unwoken_setBucket hunwoken (by simp) _ _⟩
  | takes hbucket => exact ⟨hbelow, unwoken_setBucket hunwoken (by simp) _ _⟩
  | marks hbucket => cases hstage.2
  | buriesWaiting => exact ⟨hbelow, unwoken_setBucket hunwoken (by simp) _ _⟩
  | buries => exact ⟨hbelow, unwoken_setBucket hunwoken (by simp) _ _⟩
  | @grows swept index new hindex hnew =>
      refine ⟨Nat.le_refl 0, fun generation index other => ?_⟩
      by_cases hgeneration : generation = queue.last + 1
      · unfold Generation.new at hnew
        split at hnew <;> cases hnew
        simp [hgeneration]
      · simpa [hgeneration] using hunwoken generation index other
  | _ => exact ⟨hbelow, hunwoken⟩

omit [DecidableEq ω] in
/-- The condition of a wait fails and nobody else sleeps. -/
theorem Stage.abandons (hslots : queue.Slots)
    (hbefore : queue.point task = .condition generation iteration)
    (hstage : queue.Stage (.condition generation iteration))
    (hnobody : ∀ other, other ≠ task → queue.sleeping other = false) :
    ((queue.setSlot task none).setPoint task (.notifyLoad false 1)).Calls false 1 := by
  obtain ⟨henters, hring⟩ := hstage
  have hmine : queue.slot task = some (generation, iteration) := by
    have hfits := hslots.fits task
    rwa [hbefore] at hfits
  have hbelow := henters.below
  have hends := henters.ends
  -- the first position of the ring is this one
  obtain ⟨owner, howner, hsleeps⟩ := hring.held queue.atom.notifies (Nat.le_refl _) (by omega)
  have hsame : owner = task := by
    by_contra hne
    have hsleeping : queue.sleeping owner = true := sleeping_iff.mpr ⟨_, _, howner, hsleeps⟩
    rw [hnobody owner hne] at hsleeping
    cases hsleeping
  have hfirst : queue.atom.notifies = iteration := by
    rw [hsame, hmine, Option.some.injEq, Prod.mk.injEq] at howner
    exact howner.2.symm
  refine ⟨rfl, ?_, ?_, hsleeps⟩
  · change queue.atom.waits = queue.atom.notifies + 1
    omega
  · constructor
    case within =>
      intro other generation' iteration' hother hholds
      have hne : other ≠ task := by
        rintro rfl
        simp at hother
      have hold : queue.slot other = some (generation', iteration') := by
        simpa [hne] using hother
      have hsleeping : queue.sleeping other = true := sleeping_iff.mpr ⟨_, _, hold, hholds⟩
      rw [hnobody other hne] at hsleeping
      cases hsleeping
    case held =>
      intro iteration' hge hlt
      omega

theorem Spared.nobody {act : Act ω} (hspared : queue.Spared (task, act))
    (hbefore : queue.point task = .condition generation iteration)
    (hstep : queue.step checked task act = some queue')
    (hfails : queue'.point task ≠ .rest)
    (hasleep : ∀ other, queue.sleeping other = true → queue.woken other = false)
    (other : τ) (hother : other ≠ task) : queue.sleeping other = false := by
  obtain ⟨spurious, condition, rfl⟩ := step_of_point (by simp [hbefore]) hstep
  simp only [Spared, hbefore] at hspared
  have hcondition : condition = false := by
    cases condition with
    | false => rfl
    | true =>
        simp only [step, hbefore, if_true, Option.some.injEq] at hstep
        simp [← hstep] at hfails
  by_contra hne
  have hsleeping := eq_true_of_ne_false hne
  have hlive := live_of_sleeping hsleeping (hasleep other hsleeping)
  rw [hspared hcondition other hother] at hlive
  cases hlive

omit [DecidableEq τ] [DecidableEq ω] in
/-- A call of `notify` exchanges the atom. -/
theorem Stage.notifies {called : Bool} {amount sum : ℕ} (hplain : queue.Plain)
    (hcalls : queue.Calls called amount) (hsum : sum = queue.atom.notifies + amount) :
    (queue.setAtom { queue.atom with notifies := min sum queue.atom.waits }).Stage
      (visit queue.atom.generation queue.atom.notifies (min sum queue.atom.waits)) := by
  have hbelow := hplain.below
  have hring {low high : ℕ} (hring : queue.Ring low high) :
      (queue.setAtom { queue.atom with notifies := min sum queue.atom.waits }).Ring low high :=
    hring.frame rfl rfl fun _ _ => rfl
  cases called with
  | true =>
      refine (hring hcalls).visit ?_ (Nat.min_le_right _ _)
      change queue.atom.notifies ≤ min sum queue.atom.waits
      omega
  | false =>
      obtain ⟨rfl, hends, hnobody, hsleeps⟩ := hcalls
      unfold Queue.visit
      rw [if_pos (by omega)]
      exact ⟨rfl, rfl, by omega, hsleeps, Or.inr ⟨hends.symm, hring hnobody⟩⟩

omit [DecidableEq ω] in
/-- A call of `notify` takes a waker. -/
theorem Stage.takes {last : ℕ} {waker : ω} (hslots : queue.Slots) (hplain : queue.Plain)
    (hvisits : queue.Visits generation iteration last) :
    ((queue.setBucket generation (queue.index generation iteration) .waking).setPoint task
      (.notifyWake generation iteration last waker)).Stage
        (.notifyWake generation iteration last waker) := by
  have hbelow := hplain.below
  obtain ⟨rfl, rfl, hbefore, -, hring⟩ := hvisits
  refine ⟨rfl, rfl, hbefore, ?_⟩
  rcases hring with hring | ⟨hends, hring⟩
  · exact hring.takes hslots (by omega) _
  · have hnobody : ((queue.setBucket queue.atom.generation
        (queue.index queue.atom.generation iteration) .waking).setPoint task
          (.notifyWake queue.atom.generation iteration queue.atom.notifies waker)).Ring
            queue.atom.waits queue.atom.waits := hring.nobody rfl _
    rw [hends]
    exact hnobody

theorem Stage.step {act : Act ω} (hinv : queue.Inv) (hplain : queue.Plain)
    (hstage : queue.Stage (queue.point task)) (hpromised : queue.Promised (task, act))
    (hspared : queue.Spared (task, act))
    (hasleep : ∀ generation iteration, queue.point task = .condition generation iteration →
      ∀ other, queue.sleeping other = true → queue.woken other = false)
    (hstep : queue.step checked task act = some queue') :
    queue'.poisoned = true ∨ queue'.Stage (queue'.point task) := by
  have hslots := hinv.slots
  have hbelow := hplain.below
  have hcases := step_cases hstep
  have hinv' := hinv.step hcases
  have hfits := hslots.fits task
  generalize hbefore : queue.point task = before at hcases hstage hfits
  cases hcases with
  | @quiet _ after hquiet =>
      rw [setPoint_point, Function.update_self]
      exact (hstage.quiet hinv.expansion hplain hbefore hspared hstep hquiet).imp_right
        fun hstage => hstage.frame rfl rfl rfl
  | fails => exact Or.inl rfl
  | @waits waker waits hadd =>
      right
      rw [setPoint_point, Function.update_self]
      have hwaits := hpromised.waits hbefore hstep hadd
      have hring : queue.Ring queue.atom.notifies queue.atom.waits := hstage
      exact ⟨⟨rfl, hwaits, hbelow⟩, hring.frame rfl rfl fun _ _ => rfl, by simp⟩
  | @registers waker generation iteration hbucket =>
      right
      rw [setPoint_point, Function.update_self]
      obtain ⟨⟨rfl, hends, hle⟩, hring, -⟩ := hstage
      refine ⟨⟨rfl, hends, hle⟩, ?_⟩
      have hregisters := hring.registers hslots hle hfits waker
        (.condition queue.atom.generation iteration) hbucket
      rw [← hends] at hregisters
      exact hregisters
  | consumes => exact absurd rfl (hstage.2.2 _)
  | abandons generation iteration =>
      right
      rw [setPoint_point, Function.update_self]
      exact hstage.abandons hslots hbefore
        (hspared.nobody hbefore hstep (by simp) (hasleep generation iteration hbefore))
  | @registersAgain waker generation iteration old hbucket =>
      right
      rw [setPoint_point, Function.update_self]
      exact hstage.2.frame rfl rfl (sleeps_setBucket (by rw [hbucket]; rfl))
  | @leaves waker generation iteration next hbucket =>
      right
      rw [setPoint_point, Function.update_self]
      exact hstage.2.leave hfits.1 (by rw [hbucket]; rfl) rfl rfl
        (sleeps_setBucket (by rw [hbucket]; rfl))
  | leavesPanicking waker generation iteration =>
      right
      rw [setPoint_point, Function.update_self]
      exact hstage.2.leave hfits.1 (by rw [← hstage.1]; rfl) rfl rfl fun _ _ => rfl
  | leavesExpanding waker generation iteration =>
      right
      rw [setPoint_point, Function.update_self]
      exact Or.inr (hstage.2.leave hfits.1 (by rw [← hstage.1]; rfl) rfl rfl fun _ _ => rfl)
  | @notifies called amount sum hadd =>
      right
      rw [setPoint_point, Function.update_self]
      have hsum := (hspared.notifies hbefore hstep).1
      rw [add_of_lt hsum, Option.some.injEq] at hadd
      exact (Stage.notifies hplain hstage hadd.symm).frame rfl rfl rfl
  | takes hbucket =>
      right
      rw [setPoint_point, Function.update_self]
      exact Stage.takes hslots hplain hstage.1
  | marks => cases hstage.2
  | @notifyWakes generation iteration last waker =>
      right
      rw [setPoint_point, Function.update_self]
      obtain ⟨rfl, rfl, hlt, hring⟩ := hstage
      exact (hring.visit hlt hbelow).frame rfl rfl rfl
  | locks =>
      right
      rw [setPoint_point, Function.update_self]
      trivial
  | buriesWaiting =>
      right
      rw [setPoint_point, Function.update_self]
      trivial
  | buries =>
      right
      rw [setPoint_point, Function.update_self]
      trivial
  | expandWakes =>
      right
      rw [setPoint_point, Function.update_self]
      trivial
  | @grows generation index new hindex hnew =>
      right
      rw [setPoint_point, Function.update_self]
      have hlast := (hinv.expansion.swept task generation index (by rw [hbefore]; rfl)).1
      refine hinv'.fresh (fun other generation' iteration' hother => ?_) 0
      have hle := hslots.current other generation' iteration' hother
      change generation' < queue.last + 1
      omega
  | pushes generation =>
      right
      rw [setPoint_point, Function.update_self]
      have hring : queue.Ring queue.atom.notifies queue.atom.waits := hstage
      exact hring.frame rfl rfl fun _ _ => rfl

end Queue

end Futex2

end AsyncMutex
