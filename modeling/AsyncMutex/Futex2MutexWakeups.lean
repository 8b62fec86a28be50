import AsyncMutex.Futex2Balance
import AsyncMutex.Futex2Mutex

/-!
# The wakeups of the mutex over the ring

A `lock` future sleeps while its waker is in its bucket.  As long as one of them
sleeps, somebody will see to it: the owner whose unlock notifies, a task in the
loop of `lock`, or a notification on its way.

There is one exception.  A wait whose condition fails leaves its waker in the
bucket, and an unlock whose notification takes this waker wakes nobody.
-/

namespace AsyncMutex

namespace Futex2

namespace Point

variable {ω : Type}

/-- Between the polls of a future, or in one that may find it pending still. -/
def pends : Point ω → Bool
  | .rest => true
  | .waitLoad _ _ _ => true
  | .waitCas _ _ _ _ => true
  | _ => false

/-- A notification of the current generation that has not reached its bucket. -/
def delivers (current : ℕ) : Point ω → Bool
  | .notifyLoad _ _ => true
  | .notifyCas _ _ _ => true
  | .bucketLoad generation _ _ => generation = current
  | .bucketCas generation _ _ _ => generation = current
  | _ => false

end Point

namespace Queue

variable {τ ω : Type} {checked : Bool}
  {queue queue' : Queue τ ω} {task : τ}

/-- The waker of the future is in its bucket. -/
def Sleeps (queue : Queue τ ω) (task : τ) : Prop :=
  (queue.point task).pends = true ∧ ∃ generation iteration waker,
    queue.slot task = some (generation, iteration) ∧
      queue.bucket generation iteration = .waiting waker

theorem waiting_of_setBucket {generation iteration other other' : ℕ} {bucket : Bucket ω}
    {waker : ω} (hbucket : bucket ≠ .waiting waker)
    (hwaiting : (queue.setBucket generation (queue.index generation iteration) bucket).bucket
      other other' = .waiting waker) : queue.bucket other other' = .waiting waker := by
  rw [bucket_setBucket] at hwaiting
  split at hwaiting
  case isTrue => exact absurd hwaiting hbucket
  case isFalse => exact hwaiting

variable [DecidableEq τ] [DecidableEq ω]

/-- Nobody puts a waker into the bucket of a pending future but the future
itself, where it finds one. -/
theorem Step.waiting (hinv : queue.Inv)
    (hstep : Step checked queue task (queue.point task) queue') {other : τ}
    {generation iteration : ℕ} {waker : ω}
    (hslot : queue.slot other = some (generation, iteration))
    (hwaiting : queue'.bucket generation iteration = .waiting waker) :
    ∃ old, queue.bucket generation iteration = .waiting old := by
  generalize hbefore : queue.point task = before at hstep
  cases hstep with
  | @registers waker' generation' iteration' hbucket =>
      have hwaiting : (queue.setBucket generation' (queue.index generation' iteration')
        (.waiting waker')).bucket generation iteration = .waiting waker := hwaiting
      rw [bucket_setBucket] at hwaiting
      split at hwaiting
      case isTrue hhere =>
        obtain ⟨rfl, hindex⟩ := hhere
        exact (hinv.slots.vacant (by simp [hbucket, Bucket.Occupied]) hslot hindex).elim
      case isFalse => exact ⟨waker, hwaiting⟩
  | @registersAgain waker' generation' iteration' old hbucket =>
      have hwaiting : (queue.setBucket generation' (queue.index generation' iteration')
        (.waiting waker')).bucket generation iteration = .waiting waker := hwaiting
      rw [bucket_setBucket] at hwaiting
      split at hwaiting
      case isTrue hhere =>
        obtain ⟨rfl, hindex⟩ := hhere
        exact ⟨old, (congrArg (queue.generations generation).waiters hindex).trans hbucket⟩
      case isFalse => exact ⟨waker, hwaiting⟩
  | consumes => exact ⟨waker, waiting_of_setBucket (by simp) hwaiting⟩
  | leaves => exact ⟨waker, waiting_of_setBucket (by simp) hwaiting⟩
  | takes => exact ⟨waker, waiting_of_setBucket (by simp) hwaiting⟩
  | marks => exact ⟨waker, waiting_of_setBucket (by simp) hwaiting⟩
  | buriesWaiting hindex =>
      rw [← index_of_lt hindex] at hwaiting
      exact ⟨waker, waiting_of_setBucket (by simp) hwaiting⟩
  | buries hindex =>
      rw [← index_of_lt hindex] at hwaiting
      exact ⟨waker, waiting_of_setBucket (by simp) hwaiting⟩
  | @grows swept index new hindex hnew =>
      have hle := hinv.slots.current other generation iteration hslot
      have hlast := (hinv.expansion.swept task swept index (by rw [hbefore]; rfl)).1
      have hold : generation ≠ queue.last + 1 := by omega
      refine ⟨waker, ?_⟩
      simpa [Queue.bucket, hold] using hwaiting
  | _ => exact ⟨waker, hwaiting⟩

/-- A task falls asleep only by its own steps. -/
theorem Step.sleeps_of_ne (hinv : queue.Inv)
    (hstep : Step checked queue task (queue.point task) queue') {other : τ}
    (hother : other ≠ task) (hsleeps : queue'.Sleeps other) : queue.Sleeps other := by
  obtain ⟨hpends, generation, iteration, waker, hslot, hwaiting⟩ := hsleeps
  rw [hstep.others hother] at hpends
  rw [hstep.slot_of_ne hother] at hslot
  obtain ⟨old, hold⟩ := hstep.waiting hinv hslot hwaiting
  exact ⟨hpends, generation, iteration, old, hslot, hold⟩

omit [DecidableEq τ] [DecidableEq ω] in
theorem Quiet.pending {before after : Point ω} (hquiet : Quiet checked queue task before after)
    (hafter : after.pends = true) :
    before.pends = true ∨ (∃ generation iteration, before = .condition generation iteration) ∨
      before.notifying = true := by
  cases hquiet with
  | pends generation iteration => exact Or.inr (Or.inl ⟨generation, iteration, rfl⟩)
  | expandReturns => exact Or.inr (Or.inr rfl)
  | _ => first | exact Or.inl rfl | cases hafter

/-- A task falls asleep when its condition holds. -/
theorem Step.sleeps (hinv : queue.Inv)
    (hstep : Step checked queue task (queue.point task) queue')
    (hfree : (queue.point task).notifying = true → queue.slot task = none)
    (hsleeps : queue'.Sleeps task) :
    queue.Sleeps task ∨ ∃ generation iteration,
      queue.point task = .condition generation iteration := by
  obtain ⟨hpends, generation, iteration, waker, hslot, hwaiting⟩ := hsleeps
  have hnotifying : (queue.point task).notifying ≠ true := by
    intro hnotifying
    rw [(hstep.notifying hnotifying).2, hfree hnotifying] at hslot
    cases hslot
  have hfits := hinv.slots.fits task
  have hbucket (hsame : queue.slot task = some (generation, iteration)) :=
    hstep.waiting hinv hsame hwaiting
  unfold Sleeps
  generalize queue.point task = before at hstep hnotifying hfits
  cases hstep with
  | quiet hquiet =>
      rw [setPoint_point, Function.update_self] at hpends
      rw [setPoint_slot] at hslot
      obtain ⟨old, hold⟩ := hbucket hslot
      rcases hquiet.pending hpends with hbefore | hcondition | hbefore
      · exact Or.inl ⟨hbefore, generation, iteration, old, hslot, hold⟩
      · exact Or.inr hcondition
      · exact absurd hbefore hnotifying
  | waits => simp [Point.pends] at hpends
  | registers => simp [Point.pends] at hpends
  | consumes =>
      have hnone : queue.slot task = none := hfits
      rw [setPoint_slot, setBucket_slot, hnone] at hslot
      cases hslot
  | abandons => simp at hslot
  | registersAgain waker' hold =>
      rw [setPoint_slot, register_slot, setBucket_slot, hfits.1] at hslot
      cases hslot
      exact Or.inl ⟨rfl, _, _, _, hfits.1, hold⟩
  | leaves => simp at hslot
  | leavesPanicking => simp at hslot
  | leavesExpanding => simp at hslot
  | _ => exact absurd rfl hnotifying

theorem condition_of_slot {spurious condition : Bool} {generation iteration : ℕ}
    (hstep : queue.step checked task (.step spurious condition) = some queue')
    (hpoint : queue.point task = .condition generation iteration)
    (hslot : queue'.slot task ≠ none) : condition = true := by
  simp only [step, hpoint] at hstep
  split at hstep
  case isTrue hcondition => exact hcondition
  case isFalse =>
    cases hstep
    simp at hslot

omit [DecidableEq τ] [DecidableEq ω] in
/-- A future that sleeps waits in the current generation, in a bucket that is
not buried. -/
theorem Sleeps.current (hsleeps : queue.Sleeps task) (hinv : queue.Inv) :
    ∃ iteration waker, queue.slot task = some (queue.atom.generation, iteration) ∧
      queue.index queue.atom.generation iteration < queue.capacity queue.atom.generation ∧
      queue.bucket queue.atom.generation iteration = .waiting waker := by
  obtain ⟨-, generation, iteration, waker, hslot, hwaiting⟩ := hsleeps
  have hle := hinv.slots.current task generation iteration hslot
  have hindex : queue.index generation iteration < queue.capacity generation :=
    Nat.mod_lt _ (hinv.expansion.positive generation hle)
  have hcurrent : generation = queue.atom.generation := by
    refine Nat.le_antisymm hle (Nat.le_of_not_lt fun hlt => ?_)
    have hburied := hinv.expansion.retired generation hlt _ hindex
    exact absurd (hwaiting.symm.trans hburied) (by simp)
  subst hcurrent
  exact ⟨iteration, waker, hslot, hindex, hwaiting⟩

/-! ## Abandoned wakers -/

section Claimed

variable [Fintype τ]

/-- A pending future waits in the bucket of this iteration. -/
def Claimed (queue : Queue τ ω) (generation iteration : ℕ) : Prop :=
  ∃ task, (queue.slot task).any fun slot =>
    slot.1 = generation ∧ queue.index generation slot.2 = queue.index generation iteration

instance (queue : Queue τ ω) (generation iteration : ℕ) :
    Decidable (queue.Claimed generation iteration) :=
  inferInstanceAs (Decidable (∃ _ : τ, _))

/-- The generation in which the step takes a waker that no future waits for. -/
def strays (before after : Queue τ ω) (task : τ) : Option ℕ :=
  match before.point task, after.point task with
  | .bucketCas generation iteration _ _, .notifyWake _ _ _ _ =>
      if before.Claimed generation iteration then none else some generation
  | _, _ => none

omit [DecidableEq τ] [DecidableEq ω] [Fintype τ] in
theorem Claimed.slot {generation iteration : ℕ} (hclaimed : queue.Claimed generation iteration) :
    ∃ other iteration', queue.slot other = some (generation, iteration') ∧
      queue.index generation iteration' = queue.index generation iteration := by
  obtain ⟨other, hother⟩ := hclaimed
  obtain ⟨⟨generation', iteration'⟩, hslot, hhere⟩ := (Option.any_eq_true _ _).mp hother
  obtain ⟨rfl, hindex⟩ := of_decide_eq_true hhere
  exact ⟨other, iteration', hslot, hindex⟩

end Claimed

end Queue

namespace Mutex

variable {τ ω : Type} [DecidableEq τ] [DecidableEq ω] {checked : Bool}
  {mutex mutex' : Mutex τ ω} {task : τ}

/-- The task will see to the futures that sleep. -/
def Carries (mutex : Mutex τ ω) (task : τ) : Prop :=
  match mutex.pc task with
  | .loop _ => True
  | .wait => ¬ mutex.queue.Sleeps task
  | .guard => mutex.atom = 2
  | .unlock _ => mutex.atom = 2
  | .notify => (mutex.queue.point task).delivers mutex.queue.atom.generation = true
  | _ => False

/-- A task with the lock keeps the atom, and one that takes or frees it finds
nobody else with the lock. -/
theorem Step.atom_of_ne (hlocked : mutex.Locked)
    (hstep : Step checked mutex task (mutex.pc task) mutex') {other : τ} (hother : other ≠ task)
    (howns : (mutex.pc other).owns = true) (hatom : mutex.atom = 2) : mutex'.atom = 2 := by
  have halone := hlocked.not_owns howns hother.symm
  generalize mutex.pc task = before at hstep halone
  cases hstep with
  | moves hmoves =>
      cases hmoves with
      | locks hfree => omega
      | acquires hfree => rfl
      | marks => rfl
      | frees => cases halone
      | _ => exact hatom
  | hands => cases halone
  | _ => exact hatom

theorem Carries.of_ne (hlocked : mutex.Locked) (hinv : mutex.queue.Inv)
    (hstep : Step checked mutex task (mutex.pc task) mutex')
    (hgeneration : mutex'.queue.atom.generation = mutex.queue.atom.generation) {other : τ}
    (hother : other ≠ task) (hcarries : mutex.Carries other) : mutex'.Carries other := by
  have hqueue : mutex'.queue.Sleeps other → mutex.queue.Sleeps other := by
    rcases hstep.queue with hsame | ⟨act, hqueue⟩
    · rw [hsame]
      exact id
    · exact (Queue.step_cases hqueue).sleeps_of_ne hinv hother
  have hpoint : mutex'.queue.point other = mutex.queue.point other := by
    rcases hstep.queue with hsame | ⟨act, hqueue⟩
    · rw [hsame]
    · exact (Queue.step_cases hqueue).others hother
  have howns := hstep.atom_of_ne hlocked hother
  unfold Carries at hcarries ⊢
  rw [hstep.others hother]
  cases hpc : mutex.pc other with
  | loop state => trivial
  | wait =>
      rw [hpc] at hcarries
      exact fun hsleeps => hcarries (hqueue hsleeps)
  | guard =>
      rw [hpc] at hcarries
      exact howns (by rw [hpc]; rfl) hcarries
  | unlock atom =>
      rw [hpc] at hcarries
      exact howns (by rw [hpc]; rfl) hcarries
  | notify =>
      rw [hpc] at hcarries
      dsimp only
      rw [hpoint, hgeneration]
      exact hcarries
  | idle => rw [hpc] at hcarries; exact hcarries
  | tryLock => rw [hpc] at hcarries; exact hcarries

omit [DecidableEq τ] [DecidableEq ω] in
theorem Carries.of_loop {other : τ} (state : ℕ) (hpc : mutex.pc other = .loop state) :
    mutex.Carries other := by
  unfold Carries
  rw [hpc]
  trivial

omit [DecidableEq τ] [DecidableEq ω] in
theorem Carries.of_wait {other : τ} (hpc : mutex.pc other = .wait)
    (hawake : ¬ mutex.queue.Sleeps other) : mutex.Carries other := by
  unfold Carries
  rw [hpc]
  exact hawake

omit [DecidableEq τ] [DecidableEq ω] in
theorem Carries.of_owner (hatom : mutex.atom = 2) {other : τ}
    (howns : (mutex.pc other).owns = true) : mutex.Carries other := by
  unfold Carries
  cases hpc : mutex.pc other with
  | guard => exact hatom
  | unlock => exact hatom
  | _ =>
      rw [hpc] at howns
      cases howns

omit [DecidableEq τ] [DecidableEq ω] in
theorem Locked.owner (hlocked : mutex.Locked) (hatom : mutex.atom ≠ 0) :
    ∃ other, (mutex.pc other).owns = true := by
  by_contra hnone
  refine hatom (hlocked.free.mpr fun other => ?_)
  rw [Bool.eq_false_iff]
  exact fun howns => hnone ⟨other, howns⟩

omit [DecidableEq τ] [DecidableEq ω] in
/-- Whoever visits a bucket for a notification, or is on the way to its bucket
for a wait, carries. -/
theorem Queued.carries (hqueued : mutex.Queued) {other : τ}
    (hpends : (mutex.queue.point other).pends ≠ true)
    (hdelivers : (mutex.queue.point other).notifying = true →
      (mutex.queue.point other).delivers mutex.queue.atom.generation = true) :
    mutex.Carries other := by
  have hqueues : (mutex.pc other).queues = true := by
    by_contra houtside
    rw [Bool.not_eq_true] at houtside
    rw [(hqueued.outside other houtside).1] at hpends
    exact hpends rfl
  cases hpc : mutex.pc other with
  | wait => exact .of_wait hpc fun hsleeps => hpends hsleeps.1
  | notify =>
      unfold Carries
      rw [hpc]
      exact hdelivers (hqueued.notify other hpc)
  | _ =>
      rw [hpc] at hqueues
      cases hqueues

/-- A future that falls asleep has found the mutex locked, with the mark of a
task that waits. -/
theorem Step.sleeps (hinv : mutex.queue.Inv) (hqueued : mutex.Queued)
    (hstep : Step checked mutex task (mutex.pc task) mutex') {sleeper : τ}
    (hsleeps : mutex'.queue.Sleeps sleeper) :
    mutex.queue.Sleeps sleeper ∨ mutex.atom = 2 ∧ mutex.pc task = .wait := by
  have hself {act : Futex2.Act ω}
      (hqueue : mutex.queue.step checked task act = some mutex'.queue)
      (hcondition : ∀ generation iteration,
        mutex.queue.point task = .condition generation iteration →
          mutex'.queue.slot task ≠ none → mutex.atom = 2 ∧ mutex.pc task = .wait) :
      mutex.queue.Sleeps sleeper ∨ mutex.atom = 2 ∧ mutex.pc task = .wait := by
    by_cases htask : sleeper = task
    · subst htask
      rcases (Queue.step_cases hqueue).sleeps hinv (hqueued.free sleeper) hsleeps with
        hbefore | ⟨generation, iteration, hpoint⟩
      · exact Or.inl hbefore
      · obtain ⟨-, _, _, _, hslot, -⟩ := hsleeps
        exact Or.inr (hcondition generation iteration hpoint (by simp [hslot]))
    · exact Or.inl ((Queue.step_cases hqueue).sleeps_of_ne hinv htask hsleeps)
  generalize hbefore : mutex.pc task = before at hstep hself
  cases hstep with
  | moves hmoves =>
      rw [hmoves.queue] at hsleeps
      exact Or.inl hsleeps
  | enters hqueue =>
      exact hself hqueue fun generation iteration hpoint =>
        absurd ((Queue.step_enter hqueue).1.symm.trans hpoint) (by simp)
  | polls hqueue =>
      exact hself hqueue fun generation iteration hpoint =>
        absurd ((Queue.step_poll hqueue).1.symm.trans hpoint) (by simp)
  | waits hqueue =>
      exact hself hqueue fun generation iteration hpoint hslot =>
        ⟨of_decide_eq_true (Queue.condition_of_slot hqueue hpoint hslot), rfl⟩
  | hands hatom hqueue =>
      exact hself hqueue fun generation iteration hpoint =>
        absurd ((Queue.step_notify hqueue).1.symm.trans hpoint) (by simp)
  | notifies hqueue =>
      refine hself hqueue fun generation iteration hpoint => ?_
      have hnotifying := hqueued.notify task hbefore
      rw [hpoint] at hnotifying
      cases hnotifying

/-- The generation in which an unlock takes a waker that no future waits for. -/
def strays [Fintype τ] (before after : Mutex τ ω) (task : τ) : Option ℕ :=
  if before.pc task = .notify then Queue.strays before.queue after.queue task else none

section Handover

variable [Fintype τ] (hinv : mutex.queue.Inv) (hregular : mutex.queue.Regular)
  (hlocked : mutex.Locked) (hqueued : mutex.Queued) (heven : mutex.queue.Even)
  (hroom : checked = true ∨ mutex.queue.atom.waits + 1 < half)
  (hstep : Step checked mutex task (mutex.pc task) mutex')
  (hgeneration : mutex'.queue.atom.generation = mutex.queue.atom.generation)
  (hbroken : ¬ mutex'.queue.Broken) (hpanicked : mutex'.queue.point task ≠ .panicked)
  (hstray : mutex.strays mutex' task ≠ some mutex.queue.atom.generation)
include hinv hregular hlocked hqueued heven hroom hstep hgeneration hbroken hpanicked hstray

/-- A notification wakes a future that sleeps, or is ahead of a wait, unless
others are on their way to all that sleep. -/
theorem carries_of_notify {spurious : Bool} (hpc : mutex.pc task = .notify)
    (hdelivers : (mutex.queue.point task).delivers mutex.queue.atom.generation = true)
    (hqueue : mutex.queue.step checked task (.step spurious false) = some mutex'.queue)
    (hafter : mutex'.pc task = afterNotify mutex'.queue task)
    {sleeper : τ} (hsleeps : mutex.queue.Sleeps sleeper) : ∃ other, mutex'.Carries other := by
  have hself := hregular task
  have hslot := hqueued.free task (hqueued.notify task hpc)
  have hothers {other : τ} (hne : other ≠ task) (hcarries : mutex.Carries other) :
      ∃ other, mutex'.Carries other :=
    ⟨other, hcarries.of_ne hlocked hinv hstep hgeneration hne⟩
  -- a task that goes on with the notification carries
  have hgoes (hpoint : (mutex'.queue.point task).delivers mutex.queue.atom.generation = true) :
      ∃ other, mutex'.Carries other := by
    have hrest : mutex'.queue.point task ≠ .rest := by
      intro hrest
      rw [hrest] at hpoint
      cases hpoint
    refine ⟨task, ?_⟩
    unfold Carries
    rw [hafter, afterNotify, if_neg hrest, hgeneration]
    exact hpoint
  have hcases := Queue.step_cases hqueue
  obtain ⟨before, hbefore⟩ : ∃ before, mutex.queue.point task = before := ⟨_, rfl⟩
  rw [hbefore] at hcases hself hdelivers
  generalize hnext : mutex'.queue = queue at *
  cases hcases with
  | quiet hquiet =>
      cases hquiet with
      | notifyLoad => exact hgoes (by simp [Point.delivers])
      | notifyAgain => exact hgoes (by simp [Point.delivers])
      | notifyPanics => exact absurd (by simp) hpanicked
      | visitLoad => exact hgoes (by simpa [Point.delivers] using hdelivers)
      | visitAgain => exact hgoes (by simpa [Point.delivers] using hdelivers)
      | visitExpands generation iteration last old =>
          have hcurrent : generation = mutex.queue.atom.generation := of_decide_eq_true hdelivers
          exact absurd (Or.inl ⟨task, Or.inl (by simp [hcurrent])⟩) hbroken
      | _ => cases hdelivers
  | @notifies called amount sum hadd =>
      obtain rfl : amount = 1 := hself
      obtain ⟨rfl, -⟩ := add_of_room (hroom.imp_right fun hlt =>
        Nat.lt_of_le_of_lt (Nat.succ_le_succ heven.below) hlt) hadd
      have hbelow := heven.below
      by_cases hall : mutex.queue.atom.notifies = mutex.queue.atom.waits
      · -- nobody is left to notify: all that sleep are about to be woken
        obtain ⟨iteration, waker, -, hindex, hwaiting⟩ := hsleeps.current hinv
        obtain ⟨other, hother⟩ := heven.visited hall hindex hwaiting
        have hne : other ≠ task := by
          rintro rfl
          rcases hother with ⟨iteration, last, hat⟩ | ⟨iteration, last, old, hat⟩ <;>
            exact absurd (hbefore.symm.trans hat) (by simp)
        refine hothers hne (hqueued.carries ?_ ?_) <;>
          rcases hother with ⟨iteration, last, hat⟩ | ⟨iteration, last, old, hat⟩ <;>
          simp [hat, Point.pends, Point.delivers]
      · refine hgoes ?_
        have hlt : mutex.queue.atom.notifies <
            min (mutex.queue.atom.notifies + 1) mutex.queue.atom.waits := by omega
        simp [Queue.visit, hlt, Point.delivers]
  | @takes generation iteration last waker hbucket =>
      obtain rfl : generation = mutex.queue.atom.generation := of_decide_eq_true hdelivers
      have hclaimed : mutex.queue.Claimed mutex.queue.atom.generation iteration := by
        by_contra hclaimed
        exact hstray (by simp [strays, Queue.strays, hpc, hnext, hbefore, hclaimed])
      obtain ⟨other, iteration', hother, hindex⟩ := hclaimed.slot
      have hne : other ≠ task := by
        rintro rfl
        rw [hslot] at hother
        cases hother
      have hwait : mutex.pc other = .wait := by
        have hqueues : (mutex.pc other).queues = true := by
          by_contra houtside
          rw [Bool.not_eq_true] at houtside
          rw [(hqueued.outside other houtside).2] at hother
          cases hother
        cases hpc : mutex.pc other with
        | wait => rfl
        | notify =>
            rw [hqueued.free other (hqueued.notify other hpc)] at hother
            cases hother
        | _ =>
            rw [hpc] at hqueues
            cases hqueues
      -- its waker is gone from the bucket
      refine ⟨other, ?_⟩
      unfold Carries
      rw [hstep.others hne, hwait]
      rintro ⟨-, generation', iteration'', waker', hslot', hwaiting⟩
      rw [hnext] at hslot' hwaiting
      rw [Queue.setPoint_slot, Queue.setBucket_slot, hother] at hslot'
      cases hslot'
      rw [Queue.bucket_setPoint, Queue.bucket_setBucket, if_pos ⟨rfl, hindex⟩] at hwaiting
      cases hwaiting
  | @marks generation iteration last hbucket =>
      obtain rfl : generation = mutex.queue.atom.generation := of_decide_eq_true hdelivers
      have hindex : mutex.queue.index mutex.queue.atom.generation iteration <
          mutex.queue.capacity mutex.queue.atom.generation :=
        Nat.mod_lt _ (hinv.expansion.positive _ (Nat.le_refl _))
      obtain ⟨waiter, waker, iteration', current, hat⟩ := heven.awaited hbefore hindex hbucket
      have hne : waiter ≠ task := by
        rintro rfl
        exact absurd (hbefore.symm.trans hat) (by simp)
      refine hothers hne (hqueued.carries ?_ ?_)
      · simp [hat, Point.pends]
      · simp [hat, Point.notifying]
  | _ => cases hdelivers

/-- As long as a future sleeps somebody carries, and whoever stops to do so has
handed over. -/
theorem carries_of_step
    (hcarried : ∀ sleeper, mutex.queue.Sleeps sleeper → ∃ carrier, mutex.Carries carrier)
    {sleeper : τ} (hsleeps : mutex'.queue.Sleeps sleeper) : ∃ other, mutex'.Carries other := by
  have hothers {other : τ} (hne : other ≠ task) (hcarries : mutex.Carries other) :
      ∃ other, mutex'.Carries other :=
    ⟨other, hcarries.of_ne hlocked hinv hstep hgeneration hne⟩
  have howner (hatom : mutex.atom = 2) (hpc : mutex.pc task = .wait) :
      ∃ other, mutex'.Carries other := by
    obtain ⟨owner, howns⟩ := hlocked.owner (by omega)
    refine hothers ?_ (.of_owner hatom howns)
    rintro rfl
    rw [hpc] at howns
    cases howns
  rcases hstep.sleeps hinv hqueued hsleeps with hbefore | ⟨hatom, hpc⟩
  case inr => exact howner hatom hpc
  obtain ⟨carrier, hcarrier⟩ := hcarried sleeper hbefore
  by_cases hne : carrier = task
  case neg => exact hothers hne hcarrier
  subst hne
  have hnotify := @carries_of_notify τ ω _ _ checked mutex mutex' carrier _ hinv hregular hlocked
    hqueued heven hroom hstep hgeneration hbroken hpanicked hstray
  have hasleep (hself : mutex'.queue.Sleeps carrier) (hawake : ¬ mutex.queue.Sleeps carrier) :
      ∃ other, mutex'.Carries other := by
    rcases hstep.sleeps hinv hqueued hself with hslept | ⟨hatom, hpc⟩
    · exact absurd hslept hawake
    · exact howner hatom hpc
  generalize hpc : mutex.pc carrier = before at hstep
  unfold Carries at hcarrier
  rw [hpc] at hcarrier
  cases hstep with
  | moves hmoves =>
      cases hmoves with
      | calls => cases hcarrier
      | locks => cases hcarrier
      | misses => cases hcarrier
      | acquires => exact ⟨carrier, .of_owner rfl (by simp [Pc.owns])⟩
      | marks => exact ⟨carrier, .of_loop 2 (by simp)⟩
      | again => exact ⟨carrier, .of_loop mutex.atom (by simp)⟩
      | @spins state => exact ⟨carrier, .of_loop state (by simp)⟩
      | drops => exact ⟨carrier, by simpa [Carries] using hcarrier⟩
      | retries => exact ⟨carrier, by simpa [Carries] using hcarrier⟩
      | frees hatom => exact absurd hcarrier hatom
  | enters hqueue =>
      obtain ⟨-, rfl⟩ := Queue.step_enter hqueue
      refine ⟨carrier, .of_wait (by simp) fun hself => ?_⟩
      have hpends := hself.1
      simp [Point.pends] at hpends
  | @polls waker queue hqueue =>
      by_cases hself : queue.Sleeps carrier
      · exact hasleep hself hcarrier
      · exact ⟨carrier, .of_wait hpc hself⟩
  | @waits spurious queue hqueue =>
      by_cases hself : queue.Sleeps carrier
      · exact hasleep hself hcarrier
      · by_cases hready : queue.point carrier = .rest ∧ queue.slot carrier = none
        · exact ⟨carrier, .of_loop 0 (by simp [afterWait, hready])⟩
        · exact ⟨carrier, .of_wait (by simp [afterWait, hready]) hself⟩
  | hands hatom hqueue =>
      obtain ⟨-, rfl⟩ := Queue.step_notify hqueue
      refine ⟨carrier, ?_⟩
      simp [Carries, Point.delivers]
  | notifies hqueue => exact hnotify hpc hcarrier hqueue (by simp) hbefore

end Handover

/-! ## Runs -/

/-- Nobody goes on after a panic. -/
theorem Step.panicked (hstep : Step checked mutex task (mutex.pc task) mutex') {other : τ}
    (hpanicked : mutex.queue.point other = .panicked) :
    mutex'.queue.point other = .panicked := by
  rcases hstep.queue with hsame | ⟨act, hqueue⟩
  · rw [hsame]
    exact hpanicked
  · have hcases := Queue.step_cases hqueue
    by_cases htask : other = task
    · subst htask
      rw [hpanicked] at hcases
      generalize mutex'.queue = queue at hcases
      cases hcases with
      | quiet hquiet => cases hquiet
    · rw [hcases.others htask]
      exact hpanicked

section Sound

/-- Every notification of the mutex is for one future. -/
theorem Step.regular (hregular : mutex.queue.Regular) (hinv : mutex.queue.Inv)
    (hstep : Step checked mutex task (mutex.pc task) mutex') : mutex'.queue.Regular := by
  generalize mutex.pc task = before at hstep
  cases hstep with
  | moves hmoves =>
      rw [hmoves.queue]
      exact hregular
  | enters hqueue =>
      refine hregular.step hinv (Queue.step_cases hqueue) fun called amount _ hafter => ?_
      obtain ⟨-, rfl⟩ := Queue.step_enter hqueue
      simp at hafter
  | polls hqueue =>
      refine hregular.step hinv (Queue.step_cases hqueue) fun called amount _ hafter => ?_
      obtain ⟨-, generation, iteration, rfl⟩ := Queue.step_poll hqueue
      simp at hafter
  | waits hqueue =>
      exact hregular.step hinv (Queue.step_cases hqueue) fun called amount hrest =>
        absurd hrest (Queue.step_rest hqueue)
  | hands hatom hqueue =>
      refine hregular.step hinv (Queue.step_cases hqueue) fun called amount _ hafter => ?_
      obtain ⟨-, rfl⟩ := Queue.step_notify hqueue
      simp only [setPc_queue, setQueue_queue, Queue.setPoint_point, Function.update_self,
        Point.notifyLoad.injEq] at hafter
      exact hafter.2.symm
  | notifies hqueue =>
      exact hregular.step hinv (Queue.step_cases hqueue) fun called amount hrest =>
        absurd hrest (Queue.step_rest hqueue)

/-- Nobody has panicked in the queue or met a mismatched bucket of the current
generation, and no unlock has taken an abandoned waker there. -/
def Intact (mutex : Mutex τ ω) (strays : List ℕ) : Prop :=
  (∀ task, mutex.queue.point task ≠ .panicked) ∧ ¬ mutex.queue.Broken ∧
    mutex.queue.atom.generation ∉ strays

variable [Fintype τ]

structure Sound (mutex : Mutex τ ω) (strays : List ℕ) : Prop where
  inv : mutex.queue.Inv
  regular : mutex.queue.Regular
  locked : mutex.Locked
  queued : mutex.Queued
  even : mutex.Intact strays → mutex.queue.Even
  carried : mutex.Intact strays →
    ∀ sleeper, mutex.queue.Sleeps sleeper → ∃ carrier, mutex.Carries carrier

omit [DecidableEq τ] [DecidableEq ω] in
theorem Sound.initial : (new : Mutex τ ω).Sound [] := by
  have hzero (weight : Point ω → ℕ) (hrest : weight .rest = 0) :
      tally weight (fun _ : τ => .rest) = 0 := tally_eq_zero fun _ => hrest
  constructor
  case inv => exact ⟨.initial (by decide), .initial 1, .initial 1⟩
  case regular => exact fun _ => trivial
  case locked => exact .initial
  case queued => exact .initial
  case even =>
    have hbounded : 0 < half := by decide
    refine fun _ => ⟨Nat.le_refl _, hbounded, fun index _ => ?_⟩
    change 0 + tally (Point.enters 0 1 index) (fun _ : τ => (.rest : Point ω)) + 0 =
      0 + tally (Point.visits 0 1 index) (fun _ : τ => (.rest : Point ω)) + 0
    rw [hzero _ rfl, hzero _ rfl]
  case carried =>
    rintro - sleeper ⟨-, generation, iteration, waker, hslot, -⟩
    cases hslot

omit [Fintype τ] [DecidableEq ω] in
/-- In a new generation nobody sleeps yet. -/
theorem not_sleeps_of_grown {queue : Queue τ ω} (hinv : queue.Inv) {generation index : ℕ}
    {new : Generation ω} (hbefore : queue.point task = .expandSwap generation index)
    (hinv' : (queue.grown task generation new).Inv) (sleeper : τ) :
    ¬ (queue.grown task generation new).Sleeps sleeper := by
  intro hsleeps
  have hlast := (hinv.expansion.swept task generation index (by rw [hbefore]; rfl)).1
  obtain ⟨iteration, waker, hslot, -⟩ := hsleeps.current hinv'
  have hle := hinv.slots.current sleeper (queue.last + 1) iteration hslot
  omega

theorem Sound.step {strays : List ℕ} (hsound : mutex.Sound strays)
    (hroom : checked = true ∨ mutex.queue.atom.waits + 1 < half)
    (hstep : Step checked mutex task (mutex.pc task) mutex') :
    mutex'.Sound ((mutex.strays mutex' task).toList ++ strays) := by
  obtain ⟨hinv, hregular, hlocked, hqueued, heven, hcarried⟩ := hsound
  have hinv' : mutex'.queue.Inv := by
    rcases hstep.queue with hsame | ⟨act, hqueue⟩
    · rw [hsame]
      exact hinv
    · exact hinv.step (Queue.step_cases hqueue)
  -- a new generation begins, or an intact one was intact before
  have hcurrent : (∃ generation index new, mutex.queue.point task = .expandSwap generation index ∧
        Generation.new (mutex.queue.capacity generation * 2) = some new ∧
        mutex'.queue = mutex.queue.grown task generation new) ∨
      mutex'.queue.atom.generation = mutex.queue.atom.generation ∧
        (mutex'.Intact ((mutex.strays mutex' task).toList ++ strays) →
          mutex.Intact strays) := by
    rcases hstep.queue with hsame | ⟨act, hqueue⟩
    · refine Or.inr ⟨by rw [hsame], fun ⟨hpoints, hbroken, hstrays⟩ => ?_⟩
      rw [hsame] at hpoints hbroken hstrays
      exact ⟨hpoints, hbroken, fun hmem => hstrays (List.mem_append_right _ hmem)⟩
    · have hcases := Queue.step_cases hqueue
      rcases hcases.current with ⟨hgeneration, hcapacity⟩ | hgrown
      · refine Or.inr ⟨hgeneration, fun ⟨hpoints, hbroken, hstrays⟩ => ⟨?_, ?_, ?_⟩⟩
        · exact fun other hpanicked => hpoints other (hstep.panicked hpanicked)
        · exact fun hbefore => hbroken (hbefore.step hinv.expansion hcases hgeneration
            (hcapacity _))
        · rw [← hgeneration]
          exact fun hmem => hstrays (List.mem_append_right _ hmem)
      · exact Or.inl hgrown
  have heven' : mutex'.Intact ((mutex.strays mutex' task).toList ++ strays) →
      mutex'.queue.Even := by
    intro hintact
    rcases hcurrent with ⟨generation, index, new, hbefore, hnew, hgrown⟩ | ⟨-, hbefore⟩
    · rw [hgrown]
      exact .grows hinv hregular hbefore hnew
    · have hevens := heven (hbefore hintact)
      rcases hstep.queue with hsame | ⟨act, hqueue⟩
      · rw [hsame]
        exact hevens
      · rcases hevens.step hinv hregular (hbefore hintact).2.1 hroom (Queue.step_cases hqueue)
          with hpanicked | hbroken | hafter
        · exact absurd hpanicked (hintact.1 task)
        · exact absurd hbroken hintact.2.1
        · exact hafter
  refine ⟨hinv', hstep.regular hregular hinv, hlocked.step hstep, hqueued.step hinv.slots hstep,
    heven', fun hintact sleeper hsleeps => ?_⟩
  rcases hcurrent with ⟨generation, index, new, hbefore, -, hgrown⟩ | ⟨hgeneration, hbefore⟩
  · rw [hgrown] at hsleeps hinv'
    exact absurd hsleeps (not_sleeps_of_grown hinv hbefore hinv' sleeper)
  · have hstray : mutex.strays mutex' task ≠
        some mutex.queue.atom.generation := by
      intro hstray
      refine hintact.2.2 (List.mem_append_left _ ?_)
      rw [hstray, hgeneration]
      exact List.mem_singleton_self _
    exact carries_of_step hinv hregular hlocked hqueued (heven (hbefore hintact)) hroom hstep
      hgeneration hintact.2.1 (hintact.1 task) hstray (hcarried (hbefore hintact)) hsleeps

/-- The runs with a list of the generations in which an unlock took an abandoned
waker.  A build that does not check its additions is to stay below `2 ^ 32`
waits in a generation. -/
def watched (checked : Bool) : Machine (Mutex τ ω × List ℕ) (τ × Act ω) (τ × Act ω) :=
  ((machine checked).record (fun before label _ after strays =>
    (before.strays after label.1).toList ++ strays) []).restrict
      fun current _ => checked = true ∨ current.1.queue.atom.waits + 1 < half

theorem sound_of_reachable {strays : List ℕ}
    (hreach : (watched checked).Reachable (mutex, strays)) : mutex.Sound strays := by
  refine hreach.invariant (motive := fun current => current.1.Sound current.2) .initial ?_
  rintro ⟨before, strays⟩ label ⟨after, strays'⟩ events - hsound hnext
  obtain ⟨hroom, hnext⟩ := Machine.restrict_next.mp hnext
  obtain ⟨hnext, hstrays⟩ := Machine.record_next hnext
  rw [hstrays]
  exact hsound.step hroom (step_of_next hnext)

/-- Nothing runs by itself: every task is at rest, has the lock or waits with a
future that was not woken since its last poll. -/
def Rests (mutex : Mutex τ ω) : Prop :=
  ∀ task, mutex.pc task = .idle ∨ mutex.pc task = .guard ∨
    mutex.pc task = .wait ∧ mutex.queue.point task = .rest ∧ mutex.queue.woken task = false

omit [DecidableEq τ] [DecidableEq ω] [Fintype τ] in
theorem Rests.point (hrests : mutex.Rests) (hqueued : mutex.Queued) (task : τ) :
    mutex.queue.point task = .rest := by
  rcases hrests task with hpc | hpc | ⟨-, hrest, -⟩
  · exact (hqueued.outside task (by rw [hpc]; rfl)).1
  · exact (hqueued.outside task (by rw [hpc]; rfl)).1
  · exact hrest

omit [DecidableEq τ] [DecidableEq ω] [Fintype τ] in
/-- A future that was not woken has its waker in its bucket. -/
theorem Rests.sleeps (hrests : mutex.Rests) (hqueued : mutex.Queued) (hinv : mutex.queue.Inv)
    (hpc : mutex.pc task = .wait) : mutex.queue.Sleeps task := by
  have hrest := hrests.point hqueued task
  have hasleep : mutex.queue.woken task = false := by
    rcases hrests task with hidle | hguard | ⟨-, -, hasleep⟩
    · exact absurd (hpc.symm.trans hidle) (by simp)
    · exact absurd (hpc.symm.trans hguard) (by simp)
    · exact hasleep
  obtain ⟨⟨generation, iteration⟩, hslot⟩ :=
    Option.ne_none_iff_exists'.mp (hqueued.wait task hpc hrest)
  have htaken : ¬ Queue.Taken (mutex.queue.bucket generation iteration) := by
    intro htaken
    rcases hinv.alert task generation iteration hslot htaken with hdone | ⟨other, waker, -, htakes⟩
    · rw [hasleep] at hdone
      cases hdone
    · rw [hrests.point hqueued other] at htakes
      exact htakes
  have hheld := hinv.slots.held task generation iteration hslot
  refine ⟨by rw [hrest]; rfl, generation, iteration, ?_⟩
  cases hbucket : mutex.queue.bucket generation iteration with
  | waiting waker => exact ⟨waker, hslot, rfl⟩
  | waking => exact absurd (Or.inl hbucket) htaken
  | tombstone => exact absurd (Or.inr hbucket) htaken
  | empty other => simp [hbucket, Bucket.Held] at hheld
  | woken other => simp [hbucket, Bucket.Held] at hheld

end Sound

end Mutex

end Futex2

end AsyncMutex
