import AsyncMutex.Futex2Ring
import Mathlib.Data.Fintype.Card
import Mathlib.Order.Interval.Finset.Nat

/-!
# Polls and notifications one after the other

A future is live while the waker that it registered last has not been woken.
As long as no two live futures share a waker, a future that sleeps has not been
woken, and every notification goes to a live future.
-/

namespace AsyncMutex

namespace Futex2

namespace Queue

variable {τ ω : Type} {checked : Bool}
  {queue queue' : Queue τ ω} {task : τ} {generation iteration low high : ℕ}

/-! ## Whom a waker belongs to -/

/-- No other future that sleeps has registered this waker. -/
def Unclaimed (queue : Queue τ ω) (task : τ) (waker : ω) : Prop :=
  ∀ other, other ≠ task → queue.sleeping other = true →
    queue.registered other ≠ some waker

/-- Nobody who sleeps has registered the waker that a point is about to
register or to wake. -/
def Unshared (queue : Queue τ ω) (task : τ) : Point ω → Prop
  | .enterLoad waker => queue.Unclaimed task waker
  | .enterCas waker _ => queue.Unclaimed task waker
  | .enterBucket waker _ _ _ => queue.Unclaimed task waker
  | .waitLoad waker _ _ => queue.Unclaimed task waker
  | .waitCas waker _ _ _ => queue.Unclaimed task waker
  | .notifyWake _ _ _ waker =>
      ∀ other, queue.sleeping other = true → queue.registered other ≠ some waker
  | _ => True

/-- A future that sleeps was not woken. -/
def Asleep (queue : Queue τ ω) : Prop :=
  ∀ other, queue.sleeping other = true → queue.woken other = false

/-- The same, unless the buckets are being buried. -/
def Unwoken (queue : Queue τ ω) : Point ω → Prop
  | .expandSwap _ _ => True
  | .expandWake _ _ _ => True
  | _ => queue.Asleep

/-- The sleeping futures have wakers of their own that nobody has woken. -/
structure Vigil (queue : Queue τ ω) (task : τ) : Prop where
  apart : ∀ first second, queue.sleeping first = true → queue.sleeping second = true →
    queue.registered first = queue.registered second → first = second
  unshared : queue.Unshared task (queue.point task)
  unwoken : queue.Unwoken (queue.point task)

theorem unshared_of_idle {point : Point ω} (hidle : point.idle = true) :
    queue.Unshared task point := by
  cases point <;> first | exact True.intro | cases hidle

theorem unwoken_of_idle {point : Point ω} (hidle : point.idle = true) :
    queue.Unwoken point ↔ queue.Asleep := by
  cases point <;> first | exact Iff.rfl | cases hidle

/-- From one state to the next nobody falls asleep, registers or is woken. -/
structure Undisturbed (queue queue' : Queue τ ω) : Prop where
  sleeping : ∀ other, queue'.sleeping other = true → queue.sleeping other = true
  registered : queue'.registered = queue.registered
  woken : queue'.woken = queue.woken

theorem Undisturbed.of_same (hslot : queue'.slot = queue.slot)
    (hgenerations : queue'.generations = queue.generations)
    (hregistered : queue'.registered = queue.registered)
    (hwoken : queue'.woken = queue.woken) : Undisturbed queue queue' := by
  refine ⟨fun other hsleeping => ?_, hregistered, hwoken⟩
  rw [← hsleeping]
  simp only [Queue.sleeping, bucket, hslot, hgenerations]

theorem Undisturbed.trans {queue'' : Queue τ ω} (hfirst : Undisturbed queue queue')
    (hsecond : Undisturbed queue' queue'') : Undisturbed queue queue'' :=
  ⟨fun other hsleeping => hfirst.sleeping other (hsecond.sleeping other hsleeping),
    hsecond.registered.trans hfirst.registered, hsecond.woken.trans hfirst.woken⟩

/-- A bucket is exchanged for one that holds no waker. -/
theorem Undisturbed.setBucket {bucket : Bucket ω} (hbucket : bucket.sleeps = false)
    (generation index : ℕ) : Undisturbed queue (queue.setBucket generation index bucket) := by
  refine ⟨fun other hsleeping => ?_, rfl, rfl⟩
  obtain ⟨generation', iteration', hslot, hsleeps⟩ := sleeping_iff.mp hsleeping
  refine sleeping_iff.mpr ⟨generation', iteration', hslot, ?_⟩
  have hindex : ((queue.setBucket generation index bucket).generations generation').index
      iteration' = (queue.generations generation').index iteration' := index_setBucket ..
  simp only [Queue.bucket, Generation.get, hindex, waiters_setBucket] at hsleeps ⊢
  split at hsleeps
  case isTrue => simp [hbucket] at hsleeps
  case isFalse => exact hsleeps

variable [DecidableEq τ]

theorem Undisturbed.setSlot : Undisturbed queue (queue.setSlot task none) := by
  refine ⟨fun other hsleeping => ?_, rfl, rfl⟩
  obtain ⟨generation', iteration', hslot, hsleeps⟩ := sleeping_iff.mp hsleeping
  have hne : other ≠ task := by
    rintro rfl
    simp at hslot
  refine sleeping_iff.mpr ⟨generation', iteration', ?_, hsleeps⟩
  simpa [hne] using hslot

omit [DecidableEq τ] in
theorem Unclaimed.frame {waker : ω} (hunclaimed : queue.Unclaimed task waker)
    (hframe : Undisturbed queue queue') : queue'.Unclaimed task waker := by
  intro other hother hsleeping
  rw [hframe.registered]
  exact hunclaimed other hother (hframe.sleeping other hsleeping)

omit [DecidableEq τ] in
theorem Asleep.frame (hasleep : queue.Asleep) (hframe : Undisturbed queue queue') :
    queue'.Asleep := by
  intro other hsleeping
  rw [hframe.woken]
  exact hasleep other (hframe.sleeping other hsleeping)

omit [DecidableEq τ] in
theorem Asleep.unwoken (hasleep : queue.Asleep) (point : Point ω) : queue.Unwoken point := by
  cases point <;> first | exact hasleep | exact True.intro

omit [DecidableEq τ] in
theorem unshared_visit {last : ℕ} : queue.Unshared task (visit generation iteration last) := by
  unfold Queue.visit
  split <;> trivial

/-- The task moves on and nobody else notices. -/
theorem Vigil.moveTo {after : Point ω} (hvigil : queue.Vigil task)
    (hframe : Undisturbed queue queue') (hunshared : queue'.Unshared task after)
    (hunwoken : queue'.Unwoken after) : (queue'.setPoint task after).Vigil task where
  apart first second hfirst hsecond hsame := by
    have hsame' : queue'.registered first = queue'.registered second := hsame
    rw [hframe.registered] at hsame'
    exact hvigil.apart first second (hframe.sleeping first hfirst)
      (hframe.sleeping second hsecond) hsame'
  unshared := by
    rw [setPoint_point, Function.update_self]
    exact hunshared
  unwoken := by
    rw [setPoint_point, Function.update_self]
    exact hunwoken

omit [DecidableEq τ] in
/-- A poll may bring a waker that no other live future has registered. -/
theorem Foreign.unclaimed {waker : ω} (hforeign : queue.Foreign task waker)
    (hasleep : queue.Asleep) : queue.Unclaimed task waker :=
  fun other hother hsleeping =>
    hforeign other hother (live_of_sleeping hsleeping (hasleep other hsleeping))

variable [DecidableEq ω]

/-- The steps that exchange nothing. -/
theorem Vigil.quiet {act : Act ω} {before after : Point ω} (hvigil : queue.Vigil task)
    (hbefore : queue.point task = before) (hspared : queue.Spared (task, act))
    (hstep : queue.step checked task act = some (queue.setPoint task after))
    (hquiet : Quiet checked queue task before after) : (queue.setPoint task after).Vigil task := by
  have hasleep : queue.Asleep := by
    have hunwoken := hvigil.unwoken
    rw [hbefore] at hunwoken
    cases hquiet <;> exact hunwoken
  have hunshared := hvigil.unshared
  rw [hbefore] at hunshared
  refine hvigil.moveTo (.of_same rfl rfl rfl rfl) ?_ (hasleep.unwoken _)
  cases hquiet with
  | enter waker hslot =>
      have hforeign : queue.Foreign task waker := by
        cases act with
        | enter waker' =>
            have hpoint := congrArg (fun next => next.point task) (step_enter hstep).2
            simp only [setPoint_point, Function.update_self, Point.enterLoad.injEq] at hpoint
            rw [hpoint]
            exact hspared
        | poll waker' =>
            obtain ⟨-, generation, iteration, hnext⟩ := step_poll hstep
            have hpoint := congrArg (fun next => next.point task) hnext
            simp at hpoint
        | notify amount =>
            have hpoint := congrArg (fun next => next.point task) (step_notify hstep).2
            simp at hpoint
        | step spurious condition => exact absurd hbefore (step_rest hstep)
      exact hforeign.unclaimed hasleep
  | poll waker hslot =>
      have hforeign : queue.Foreign task waker := by
        cases act with
        | enter waker' =>
            have hpoint := congrArg (fun next => next.point task) (step_enter hstep).2
            simp at hpoint
        | poll waker' =>
            obtain ⟨-, generation, iteration, hnext⟩ := step_poll hstep
            have hpoint := congrArg (fun next => next.point task) hnext
            simp only [setPoint_point, Function.update_self, Point.waitLoad.injEq] at hpoint
            rw [hpoint.1]
            exact hspared
        | notify amount =>
            have hpoint := congrArg (fun next => next.point task) (step_notify hstep).2
            simp at hpoint
        | step spurious condition => exact absurd hbefore (step_rest hstep)
      exact hforeign.unclaimed hasleep
  | enterLoad waker => exact hunshared
  | enterAgain waker => exact hunshared
  | bucketAgain waker => exact hunshared
  | waitLoad waker => exact hunshared
  | waitAgain waker => exact hunshared
  | _ => trivial

omit [DecidableEq ω] in
/-- The task registers the waker that its poll brought. -/
theorem Vigil.claims {waker : ω} (hvigil : queue.Vigil task)
    (hunclaimed : queue.Unclaimed task waker) (hasleep : queue.Asleep)
    (hothers : ∀ other, other ≠ task → queue'.sleeping other = true →
      queue.sleeping other = true)
    (hregistered : queue'.registered = Function.update queue.registered task (some waker))
    (hwoken : queue'.woken = Function.update queue.woken task false)
    (hunshared : queue'.Unshared task (queue'.point task)) : queue'.Vigil task := by
  have hkept (other : τ) (hother : other ≠ task) :
      queue'.registered other = queue.registered other := by
    rw [hregistered, Function.update_of_ne hother]
  have hmine : queue'.registered task = some waker := by
    rw [hregistered, Function.update_self]
  constructor
  case apart =>
    intro first second hfirst hsecond hsame
    by_cases hone : first = task
    · by_cases htwo : second = task
      · rw [hone, htwo]
      · rw [hone, hmine, hkept second htwo] at hsame
        exact absurd hsame.symm (hunclaimed second htwo (hothers second htwo hsecond))
    · by_cases htwo : second = task
      · rw [htwo, hmine, hkept first hone] at hsame
        exact absurd hsame (hunclaimed first hone (hothers first hone hfirst))
      · rw [hkept first hone, hkept second htwo] at hsame
        exact hvigil.apart first second (hothers first hone hfirst)
          (hothers second htwo hsecond) hsame
  case unshared => exact hunshared
  case unwoken =>
    refine Asleep.unwoken (fun other hsleeping => ?_) _
    by_cases hother : other = task
    · rw [hwoken, hother, Function.update_self]
    · rw [hwoken, Function.update_of_ne hother]
      exact hasleep other (hothers other hother hsleeping)

omit [DecidableEq ω] in
/-- A wait registers its waker in an empty bucket. -/
theorem Vigil.registers {waker : ω} (hslots : queue.Slots) (hvigil : queue.Vigil task)
    (hunclaimed : queue.Unclaimed task waker) (hasleep : queue.Asleep)
    (hbucket : queue.bucket generation iteration = .empty iteration) :
    ((((queue.setBucket generation (queue.index generation iteration)
      (.waiting waker)).setSlot task (some (generation, iteration))).register task
        waker).setPoint task (.condition generation iteration)).Vigil task := by
  refine hvigil.claims hunclaimed hasleep (fun other hother hsleeping => ?_) rfl rfl ?_
  · obtain ⟨generation', iteration', hslot, hsleeps⟩ := sleeping_iff.mp hsleeping
    have hold : queue.slot other = some (generation', iteration') := by
      simpa [hother] using hslot
    have haway : ¬ (generation' = generation ∧ queue.index generation' iteration' =
        queue.index generation iteration) := by
      rintro ⟨rfl, hindex⟩
      exact hslots.vacant (by simp [hbucket, Bucket.Occupied]) hold hindex
    refine sleeping_iff.mpr ⟨generation', iteration', hold, ?_⟩
    simpa [bucket_setBucket, haway] using hsleeps
  · rw [setPoint_point, Function.update_self]
    trivial

omit [DecidableEq ω] in
/-- A poll exchanges its waker for the one that it registered before. -/
theorem Vigil.registersAgain {waker old : ω} (hvigil : queue.Vigil task)
    (hunclaimed : queue.Unclaimed task waker) (hasleep : queue.Asleep)
    (hbucket : queue.bucket generation iteration = .waiting old) :
    (((queue.setBucket generation (queue.index generation iteration)
      (.waiting waker)).register task waker).setPoint task .rest).Vigil task := by
  refine hvigil.claims hunclaimed hasleep (fun other _ hsleeping => ?_) rfl rfl ?_
  · obtain ⟨generation', iteration', hslot, hsleeps⟩ := sleeping_iff.mp hsleeping
    have hsame : ((queue.setBucket generation (queue.index generation iteration)
        (.waiting waker)).bucket generation' iteration').sleeps =
          (queue.bucket generation' iteration').sleeps :=
      sleeps_setBucket (by rw [hbucket]; rfl) generation' iteration'
    exact sleeping_iff.mpr ⟨generation', iteration', hslot, hsame.symm.trans hsleeps⟩
  · rw [setPoint_point, Function.update_self]
    trivial

omit [DecidableEq ω] in
/-- A notification takes a waker that nobody else who sleeps has registered. -/
theorem Visits.unshared {last : ℕ} {waker : ω} (hslots : queue.Slots)
    (hvigil : queue.Vigil task) (hvisits : queue.Visits generation iteration last)
    (hbelow : queue.atom.notifies ≤ queue.atom.waits)
    (hbucket : queue.bucket generation iteration = .waiting waker) (other : τ)
    (hsleeping : ((queue.setBucket generation (queue.index generation iteration)
      .waking).setPoint task (.notifyWake generation iteration last waker)).sleeping other =
        true) : queue.registered other ≠ some waker := by
  intro hsame
  obtain ⟨generation', iteration', hslot, hsleeps⟩ := sleeping_iff.mp hsleeping
  have haway : ¬ (generation' = generation ∧ queue.index generation' iteration' =
      queue.index generation iteration) := by
    intro hat
    rw [bucket_setPoint, bucket_setBucket, if_pos hat] at hsleeps
    cases hsleeps
  have hold : (queue.bucket generation' iteration').sleeps = true := by
    simpa [bucket_setBucket, haway] using hsleeps
  obtain ⟨rfl, rfl, hbefore, -, hring | ⟨-, hring⟩⟩ := hvisits
  · obtain ⟨owner, howner, hfirst⟩ := hring.held iteration (Nat.le_refl _) (by omega)
    have hheld := hslots.held owner _ _ howner
    rw [hbucket] at hheld
    have hone : owner = other :=
      hvigil.apart owner other (sleeping_iff.mpr ⟨_, _, howner, hfirst⟩)
        (sleeping_iff.mpr ⟨_, _, hslot, hold⟩) (hheld.trans hsame.symm)
    rw [hone] at howner
    have hat := Option.some.inj (hslot.symm.trans howner)
    rw [Prod.mk.injEq] at hat
    exact haway ⟨hat.1, by rw [hat.1, hat.2]⟩
  · -- the bucket of a failed condition is taken when nobody sleeps
    obtain ⟨-, hge, hlt⟩ := hring.within other generation' iteration' hslot hold
    omega

theorem Vigil.step {act : Act ω} (hslots : queue.Slots) (hplain : queue.Plain)
    (hstage : queue.Stage (queue.point task)) (hvigil : queue.Vigil task)
    (hspared : queue.Spared (task, act))
    (hstep : queue.step checked task act = some queue') (hsound : queue'.poisoned = false)
    (hstage' : queue'.Stage (queue'.point task)) : queue'.Vigil task := by
  have hcases := step_cases hstep
  have hunshared := hvigil.unshared
  have hunwoken := hvigil.unwoken
  generalize hbefore : queue.point task = before at hcases hstage hunshared hunwoken
  cases hcases with
  | quiet hquiet => exact hvigil.quiet hbefore hspared hstep hquiet
  | @waits waker waits hadd =>
      have hframe : Undisturbed queue (queue.setAtom { queue.atom with waits := waits }) :=
        .of_same rfl rfl rfl rfl
      exact hvigil.moveTo hframe (Unclaimed.frame hunshared hframe)
        ((Asleep.frame hunwoken hframe).unwoken _)
  | registers waker hbucket => exact hvigil.registers hslots hunshared hunwoken hbucket
  | consumes => exact absurd rfl (hstage.2.2 _)
  | registersAgain waker hbucket => exact hvigil.registersAgain hunshared hunwoken hbucket
  | abandons generation iteration =>
      exact hvigil.moveTo .setSlot True.intro ((Asleep.frame hunwoken .setSlot).unwoken _)
  | @leaves waker generation iteration next hbucket =>
      have hempty : Undisturbed queue (queue.setBucket generation
          (queue.index generation iteration) (.empty next)) := .setBucket rfl _ _
      have hframe : Undisturbed queue ((queue.setBucket generation
          (queue.index generation iteration) (.empty next)).setSlot task none) :=
        hempty.trans .setSlot
      exact hvigil.moveTo hframe True.intro ((Asleep.frame hunwoken hframe).unwoken _)
  | leavesPanicking waker generation iteration =>
      exact hvigil.moveTo .setSlot True.intro ((Asleep.frame hunwoken .setSlot).unwoken _)
  | leavesExpanding waker generation iteration =>
      exact hvigil.moveTo .setSlot True.intro ((Asleep.frame hunwoken .setSlot).unwoken _)
  | @notifies called amount sum hadd =>
      have hframe : Undisturbed queue (queue.setAtom { queue.atom with
          notifies := min sum queue.atom.waits }) := .of_same rfl rfl rfl rfl
      exact hvigil.moveTo hframe unshared_visit ((Asleep.frame hunwoken hframe).unwoken _)
  | @takes generation iteration last waker hbucket =>
      have hframe : Undisturbed queue (queue.setBucket generation
          (queue.index generation iteration) .waking) := .setBucket rfl _ _
      exact hvigil.moveTo hframe (hstage.1.unshared hslots hvigil hplain.below hbucket)
        ((Asleep.frame hunwoken hframe).unwoken _)
  | marks => cases hstage.2
  | @notifyWakes generation iteration last waker =>
      -- whoever sleeps has another waker than the one that is woken
      have hasleep : (queue.wake waker).Asleep := by
        intro other hsleeping
        simp [hunwoken other hsleeping, hunshared other hsleeping]
      refine ⟨hvigil.apart, ?_, hasleep.unwoken _⟩
      rw [setPoint_point, Function.update_self]
      exact unshared_visit
  | locks => exact hvigil.moveTo (.of_same rfl rfl rfl rfl) True.intro True.intro
  | buriesWaiting => exact hvigil.moveTo (.setBucket rfl _ _) True.intro True.intro
  | buries => exact hvigil.moveTo (.setBucket rfl _ _) True.intro True.intro
  | expandWakes =>
      refine ⟨hvigil.apart, ?_, ?_⟩ <;>
        rw [setPoint_point, Function.update_self] <;> trivial
  | fails => cases hsound
  | @grows generation index new hindex hnew =>
      -- the new generation has no waits
      rw [setPoint_point, Function.update_self] at hstage'
      have hnobody (other : τ) : (((queue.setGeneration (queue.last + 1) new).setAtom
          ⟨queue.last + 1, 0, 0⟩).setPoint task (.expandPush generation)).sleeping other ≠
            true := by
        intro hsleeping
        obtain ⟨generation', iteration', hslot, hsleeps⟩ := sleeping_iff.mp hsleeping
        exact absurd (hstage'.within other generation' iteration' hslot hsleeps).2.2
          (Nat.not_lt_zero _)
      refine ⟨fun first _ hfirst => absurd hfirst (hnobody first), ?_,
        Asleep.unwoken (fun other hsleeping => absurd hsleeping (hnobody other)) _⟩
      rw [setPoint_point, Function.update_self]
      trivial
  | pushes generation =>
      have hframe : Undisturbed queue ((queue.setLast (queue.last + 1)).setLock none) :=
        .of_same rfl rfl rfl rfl
      exact hvigil.moveTo hframe True.intro ((Asleep.frame hunwoken hframe).unwoken _)

/-! ## Between the polls and the calls -/

/-- The sleeping futures make up the ring, and are live. -/
structure Calm (queue : Queue τ ω) : Prop where
  inv : queue.Inv
  alone : ∀ task, (queue.point task).idle = false →
    ∀ other, other ≠ task → (queue.point other).idle = true
  stage : queue.poisoned = true ∨ queue.Plain ∧
    ∀ task, (∀ other, other ≠ task → (queue.point other).idle = true) →
      queue.Stage (queue.point task) ∧ queue.Vigil task

omit [DecidableEq τ] [DecidableEq ω] in
theorem Calm.initial {cap : ℕ} (hcap : 0 < cap) : (withCapacity cap : Queue τ ω).Calm where
  inv := ⟨.initial hcap, .initial cap, .initial cap⟩
  alone := by simp [withCapacity, Point.idle]
  stage := Or.inr ⟨⟨Nat.le_refl 0, by simp [withCapacity]⟩, fun _ _ =>
    ⟨⟨by simp [withCapacity], by simp [withCapacity]⟩,
      ⟨by simp [withCapacity, sleeping], True.intro,
        fun _ hsleeping => by simp [withCapacity, sleeping] at hsleeping⟩⟩⟩

theorem Step.poisoned {before : Point ω} (hstep : Step checked queue task before queue')
    (hpoisoned : queue.poisoned = true) : queue'.poisoned = true := by
  cases hstep <;> first | exact hpoisoned | rfl

theorem step_of_idle {spurious condition : Bool} (hidle : (queue.point task).idle = true) :
    queue.step checked task (.step spurious condition) = none := by
  cases hpoint : queue.point task with
  | rest => simp [Queue.step, hpoint]
  | panicked => simp [Queue.step, hpoint]
  | unreachable => simp [Queue.step, hpoint]
  | _ =>
      rw [hpoint] at hidle
      cases hidle

theorem Promised.idle {act : Act ω} (hpromised : queue.Promised (task, act))
    (hstep : queue.step checked task act = some queue')
    (hidle : (queue.point task).idle = true) (other : τ) : (queue.point other).idle = true := by
  cases act with
  | enter waker => exact hpromised other
  | poll waker => exact hpromised other
  | notify amount => exact hpromised.1 other
  | step spurious condition =>
      rw [step_of_idle hidle] at hstep
      cases hstep

theorem Calm.step {act : Act ω} (hcalm : queue.Calm) (hpromised : queue.Promised (task, act))
    (hspared : queue.Spared (task, act))
    (hstep : queue.step checked task act = some queue') : queue'.Calm := by
  have hcases := step_cases hstep
  have hothers (other : τ) (hother : other ≠ task) : (queue.point other).idle = true := by
    cases hidle : (queue.point task).idle with
    | true => exact hpromised.idle hstep hidle other
    | false => exact hcalm.alone task hidle other hother
  have hothers' (other : τ) (hother : other ≠ task) : (queue'.point other).idle = true := by
    rw [hcases.others hother]
    exact hothers other hother
  constructor
  case inv => exact hcalm.inv.step hcases
  case alone =>
    intro busy hbusy other hother
    have heq : busy = task := by
      by_contra hne
      rw [hothers' busy hne] at hbusy
      cases hbusy
    exact hothers' other (heq ▸ hother)
  case stage =>
    rcases hcalm.stage with hpoisoned | ⟨hplain, hstages⟩
    · exact Or.inl (hcases.poisoned hpoisoned)
    · obtain ⟨hstage, hvigil⟩ := hstages task hothers
      have hasleep (generation iteration : ℕ)
          (hpoint : queue.point task = .condition generation iteration) : queue.Asleep := by
        have hunwoken := hvigil.unwoken
        rw [hpoint] at hunwoken
        exact hunwoken
      cases hsound : queue'.poisoned with
      | true => exact Or.inl rfl
      | false =>
          have hstage' := (hstage.step hcalm.inv hplain hpromised hspared hasleep
            hstep).resolve_left (by simp [hsound])
          have hvigil' :=
            hvigil.step hcalm.inv.slots hplain hstage hspared hstep hsound hstage'
          refine Or.inr ⟨hplain.step hstage hpromised hstep, fun other hidle => ?_⟩
          by_cases heq : other = task
          · rw [heq]
            exact ⟨hstage', hvigil'⟩
          · -- both are idle
            have hmine := hidle task (Ne.symm heq)
            have hother := hothers' other heq
            exact ⟨(stage_of_idle hother).mpr ((stage_of_idle hmine).mp hstage'),
              hvigil'.apart, unshared_of_idle hother,
              (unwoken_of_idle hother).mpr ((unwoken_of_idle hmine).mp hvigil'.unwoken)⟩

/-! ## Calls of `notify` -/

omit [DecidableEq τ] [DecidableEq ω] in
/-- A pending future that does not sleep has been woken once nobody is at work. -/
theorem Inv.woken (hinv : queue.Inv) (hidle : ∀ task, (queue.point task).idle = true)
    (hslot : queue.slot task = some (generation, iteration))
    (hasleep : (queue.bucket generation iteration).sleeps = false) : queue.woken task = true := by
  have hheld := hinv.slots.held task generation iteration hslot
  have htaken : Taken (queue.bucket generation iteration) := by
    cases hbucket : queue.bucket generation iteration with
    | empty other => simp [hbucket, Bucket.Held] at hheld
    | woken other => simp [hbucket, Bucket.Held] at hheld
    | waiting waker => simp [hbucket, Bucket.sleeps] at hasleep
    | waking => exact Or.inl rfl
    | tombstone => exact Or.inr rfl
  rcases hinv.alert task generation iteration hslot htaken with hdone | ⟨other, waker, -, htakes⟩
  · exact hdone
  · have hother := hidle other
    cases hpoint : queue.point other <;> rw [hpoint] at htakes hother <;>
      first | exact htakes.elim | cases hother

omit [DecidableEq τ] [DecidableEq ω] in
/-- A live future sleeps once nobody is at work. -/
theorem Inv.sleeping (hinv : queue.Inv) (hidle : ∀ task, (queue.point task).idle = true)
    (hlive : queue.live task = true) : queue.sleeping task = true := by
  simp only [live, Bool.and_eq_true, Bool.not_eq_true'] at hlive
  obtain ⟨⟨generation, iteration⟩, hslot⟩ := Option.isSome_iff_exists.mp hlive.1
  refine sleeping_iff.mpr ⟨generation, iteration, hslot, ?_⟩
  by_contra hasleep
  rw [hinv.woken hidle hslot (eq_false_of_ne_true hasleep)] at hlive
  cases hlive.2

omit [DecidableEq τ] [DecidableEq ω] in
/-- The live futures are those that sleep. -/
theorem Inv.live_iff (hinv : queue.Inv) (hidle : ∀ task, (queue.point task).idle = true)
    (hasleep : queue.Asleep) : queue.live task = true ↔ queue.sleeping task = true :=
  ⟨hinv.sleeping hidle, fun hsleeping => live_of_sleeping hsleeping (hasleep task hsleeping)⟩

/-- The position of the task's future. -/
def position (queue : Queue τ ω) (task : τ) : ℕ :=
  match queue.slot task with
  | some (_, iteration) => iteration
  | none => 0

omit [DecidableEq τ] [DecidableEq ω] in
theorem position_of_slot (hslot : queue.slot task = some (generation, iteration)) :
    queue.position task = iteration := by
  unfold position
  rw [hslot]

/-- The call of `notify` that the task made of `before` has done its exchange
or not. -/
def Calling (before queue : Queue τ ω) (amount : ℕ) : Point ω → Prop
  | .notifyLoad called given => called = true ∧ given = amount ∧ queue.atom = before.atom
  | .notifyCas called given _ => called = true ∧ given = amount ∧ queue.atom = before.atom
  | .bucketLoad _ _ _ =>
      queue.atom.notifies = min (before.atom.notifies + amount) before.atom.waits
  | .bucketCas _ _ _ _ =>
      queue.atom.notifies = min (before.atom.notifies + amount) before.atom.waits
  | .notifyWake _ _ _ _ =>
      queue.atom.notifies = min (before.atom.notifies + amount) before.atom.waits
  | .rest => queue.atom.notifies = min (before.atom.notifies + amount) before.atom.waits
  | _ => False

structure During (before : Queue τ ω) (task : τ) (amount : ℕ) (queue : Queue τ ω) : Prop where
  began : ∀ other, (before.point other).idle = true
  slot : queue.slot = before.slot
  waits : queue.atom.waits = before.atom.waits
  sound : queue.poisoned = false
  others : ∀ other, other ≠ task → (queue.point other).idle = true
  calling : before.Calling queue amount (queue.point task)

omit [DecidableEq τ] [DecidableEq ω] in
/-- The call is over. -/
theorem During.notifies {before : Queue τ ω} {amount : ℕ}
    (hduring : before.During task amount queue) (hidle : (queue.point task).idle = true) :
    queue.atom.notifies = min (before.atom.notifies + amount) before.atom.waits := by
  have hcalling := hduring.calling
  cases hpoint : queue.point task <;> rw [hpoint] at hcalling hidle <;>
    first | exact hcalling | exact hcalling.elim | cases hidle

omit [DecidableEq τ] [DecidableEq ω] in
theorem Calling.visit {before : Queue τ ω} {amount : ℕ}
    (hnotifies : queue.atom.notifies = min (before.atom.notifies + amount) before.atom.waits)
    (generation iteration last : ℕ) :
    before.Calling queue amount (visit generation iteration last) := by
  unfold Queue.visit
  split <;> exact hnotifies

/-- A call goes on by itself. -/
theorem During.step {before : Queue τ ω} {amount : ℕ} {other : τ} {spurious condition : Bool}
    (hduring : before.During task amount queue) (hcalm : queue.Calm)
    (hspared : queue.Spared (other, .step spurious condition))
    (hstep : queue.step checked other (.step spurious condition) = some queue') :
    before.During task amount queue' := by
  have hother : other = task := by
    by_contra hne
    rw [step_of_idle (hduring.others other hne)] at hstep
    cases hstep
  subst hother
  have hbegan := hduring.began
  have hslot := hduring.slot
  have hwaits := hduring.waits
  have hsound := hduring.sound
  have hcalling := hduring.calling
  have hcases := step_cases hstep
  have hothers' (another : τ) (hne : another ≠ other) : (queue'.point another).idle = true := by
    rw [hcases.others hne]
    exact hduring.others another hne
  obtain ⟨-, hstages⟩ := hcalm.stage.resolve_left (by simp [hsound])
  obtain ⟨hstage, -⟩ := hstages other hduring.others
  generalize hbefore : queue.point other = before' at hcases hstage hcalling
  cases hcases with
  | @quiet _ after hquiet =>
      refine ⟨hbegan, hslot, hwaits, hsound, hothers', ?_⟩
      have hself : (queue.setPoint other after).point other = after := by simp
      rw [hself]
      cases hquiet with
      | notifyLoad => exact hcalling
      | notifyAgain => exact hcalling
      | notifyPanics => exact absurd hself (hspared.notifies hbefore hstep).2
      | visitLoad => exact hcalling
      | visitAgain => exact hcalling
      | visitExpands => exact absurd hself (visit_stays hbefore hstage.2 hstep)
      | enter => exact absurd hbefore (step_rest hstep)
      | poll => exact absurd hbefore (step_rest hstep)
      | notify => exact absurd hbefore (step_rest hstep)
      | _ => exact hcalling.elim
  | @notifies called given sum hadd =>
      obtain ⟨-, rfl, hatom⟩ := hcalling
      refine ⟨hbegan, hslot, hwaits, hsound, hothers', ?_⟩
      rw [setPoint_point, Function.update_self]
      have hsum := (hspared.notifies hbefore hstep).1
      rw [add_of_lt hsum, Option.some.injEq] at hadd
      refine Calling.visit ?_ _ _ _
      simp [← hadd, hatom]
  | takes =>
      refine ⟨hbegan, hslot, hwaits, hsound, hothers', ?_⟩
      rw [setPoint_point, Function.update_self]
      exact hcalling
  | marks => cases hstage.2
  | notifyWakes =>
      refine ⟨hbegan, hslot, hwaits, hsound, hothers', ?_⟩
      rw [setPoint_point, Function.update_self]
      exact Calling.visit hcalling _ _ _
  | _ => exact hcalling.elim

section Runs

variable [Fintype τ]

instance (queue : Queue τ ω) (task : τ) (waker : ω) : Decidable (queue.Foreign task waker) :=
  inferInstanceAs (Decidable (∀ _, _))

instance (queue : Queue τ ω) (label : τ × Act ω) : Decidable (queue.Promised label) := by
  unfold Promised
  split <;> infer_instance

instance (queue : Queue τ ω) (label : τ × Act ω) : Decidable (queue.Spared label) := by
  unfold Spared
  split <;> infer_instance

/-- All runs without interleaving. -/
def sequential (checked : Bool) (cap : ℕ) :
    Machine (Queue τ ω) (τ × Act ω) (τ × Act ω) :=
  (machine checked cap).restrict fun queue label => queue.Promised label

/-- Those that no failed condition disturbs. -/
def undisturbed (checked : Bool) (cap : ℕ) :
    Machine (Queue τ ω) (τ × Act ω) (τ × Act ω) :=
  (sequential checked cap).restrict fun queue label => queue.Spared label

def liveTasks (queue : Queue τ ω) : Finset τ :=
  Finset.univ.filter fun task => queue.live task = true

/-- A call of `notify` from `queue` to `after` has woken enough live futures. -/
def Served (queue after : Queue τ ω) (amount : ℕ) : Prop :=
  ∃ served : Finset τ, min amount queue.liveTasks.card ≤ served.card ∧
    ∀ task ∈ served, queue.live task = true ∧ after.live task = false ∧
      after.woken task = true

omit [DecidableEq τ] [DecidableEq ω] in
/-- There are no more live futures than positions. -/
theorem Ring.card_le (hring : queue.Ring low high) (hinv : queue.Inv)
    (hidle : ∀ task, (queue.point task).idle = true) : queue.liveTasks.card ≤ high - low := by
  rw [← Nat.card_Ico low high]
  apply Finset.card_le_card_of_injOn queue.position
  · intro other hother
    obtain ⟨generation, iteration, hslot, hsleeps⟩ :=
      sleeping_iff.mp (hinv.sleeping hidle (Finset.mem_filter.mp hother).2)
    obtain ⟨-, hge, hlt⟩ := hring.within other generation iteration hslot hsleeps
    rw [position_of_slot hslot]
    exact Finset.mem_coe.mpr (Finset.mem_Ico.mpr ⟨hge, hlt⟩)
  · intro first hfirst second hsecond hsame
    obtain ⟨generation, iteration, hslot, hsleeps⟩ :=
      sleeping_iff.mp (hinv.sleeping hidle (Finset.mem_filter.mp hfirst).2)
    obtain ⟨generation', iteration', hslot', hsleeps'⟩ :=
      sleeping_iff.mp (hinv.sleeping hidle (Finset.mem_filter.mp hsecond).2)
    have hcurrent := (hring.within first generation iteration hslot hsleeps).1
    have hcurrent' := (hring.within second generation' iteration' hslot' hsleeps').1
    rw [position_of_slot hslot, position_of_slot hslot'] at hsame
    subst hcurrent hcurrent' hsame
    exact hinv.slots.apart first second _ _ _ hslot hslot' rfl

omit [DecidableEq τ] [DecidableEq ω] in
/-- The futures at the positions that the call went over. -/
theorem Ring.served {low' amount : ℕ} (hring : queue.Ring low high) (hinv : queue.Inv)
    (hbegan : ∀ task, (queue.point task).idle = true) (hasleep : queue.Asleep)
    (hring' : queue'.Ring low' high) (hinv' : queue'.Inv)
    (hslot : queue'.slot = queue.slot) (hidle : ∀ task, (queue'.point task).idle = true)
    (hlow : low' = min (low + amount) high) (hle : low ≤ high) :
    queue.Served queue' amount := by
  let served := Finset.univ.filter fun task =>
    queue.live task = true ∧ queue'.live task = false ∧ queue'.woken task = true
  have hcover : (Finset.Ico low low').card ≤ served.card := by
    apply Finset.card_le_card_of_surjOn queue.position
    intro iteration hiteration
    obtain ⟨hge, hlt⟩ := Finset.mem_Ico.mp (Finset.mem_coe.mp hiteration)
    obtain ⟨owner, howner, hsleeps⟩ := hring.held iteration hge (by omega)
    have hlive : queue.live owner = true :=
      (hinv.live_iff hbegan hasleep).mpr (sleeping_iff.mpr ⟨_, _, howner, hsleeps⟩)
    -- its position is behind the call
    have htaken : (queue'.bucket queue.atom.generation iteration).sleeps = false := by
      by_contra hsleeps'
      obtain ⟨-, hge', -⟩ := hring'.within owner queue.atom.generation iteration
        (by rw [hslot, howner]) (eq_true_of_ne_false hsleeps')
      omega
    have hwoken : queue'.woken owner = true :=
      hinv'.woken hidle (by rw [hslot, howner]) htaken
    refine ⟨owner, ?_, position_of_slot howner⟩
    exact Finset.mem_coe.mpr (Finset.mem_filter.mpr ⟨Finset.mem_univ _, hlive,
      by simp [live, hwoken], hwoken⟩)
  refine ⟨served, ?_, fun task htask => (Finset.mem_filter.mp htask).2⟩
  have hcard := hring.card_le hinv hbegan
  rw [Nat.card_Ico] at hcover
  omega

theorem Calm.of_trace {cap : ℕ} (hcap : 0 < cap) {history : List (τ × Act ω)}
    (htrace : (undisturbed checked cap).Trace history queue) : queue.Calm := by
  refine htrace.invariant (motive := fun _ queue => queue.Calm) (.initial hcap) ?_
  intro past before label after events _ hcalm hnext
  obtain ⟨hspared, hnext⟩ := Machine.restrict_next.mp hnext
  obtain ⟨hpromised, hnext⟩ := Machine.restrict_next.mp hnext
  simp only [machine, Option.map_eq_some_iff, Prod.mk.injEq] at hnext
  obtain ⟨next, hstep, rfl, -⟩ := hnext
  exact hcalm.step hpromised hspared hstep

omit [Fintype τ] in
/-- A call begins. -/
theorem During.begin {amount : ℕ} (hpromised : queue.Promised (task, .notify amount))
    (hsound : queue.poisoned = false)
    (hstep : queue.step checked task (.notify amount) = some queue') :
    queue.During task amount queue' := by
  obtain ⟨hidle, hamount⟩ := hpromised
  obtain ⟨-, rfl⟩ := step_notify hstep
  rw [Nat.mod_eq_of_lt hamount]
  refine ⟨hidle, rfl, rfl, hsound, fun other hother => ?_, ?_⟩
  · simpa [hother] using hidle other
  · rw [setPoint_point, Function.update_self]
    exact ⟨rfl, rfl, rfl⟩

/-- Nobody is at work when a call begins. -/
theorem idle_of_call {cap amount : ℕ} {steps : List (τ × Act ω)}
    (hcall : ((undisturbed checked cap).start queue).Trace
      ((task, .notify amount) :: steps) queue') (other : τ) :
    (queue.point other).idle = true := by
  have hrun := hcall.invariant
    (motive := fun events state => (events = [] → state = queue) ∧
      ∀ steps, events = (task, .notify amount) :: steps →
        ∀ other, (queue.point other).idle = true)
    ⟨fun _ => rfl, fun steps hnil => by cases hnil⟩ ?_
  · exact hrun.2 steps rfl other
  · rintro past before ⟨doer, act⟩ after events - ⟨hempty, hbegan⟩ hnext
    obtain ⟨-, hnext⟩ := Machine.restrict_next.mp hnext
    obtain ⟨hpromised, hnext⟩ := Machine.restrict_next.mp hnext
    simp only [machine, Option.map_eq_some_iff, Prod.mk.injEq] at hnext
    obtain ⟨next, -, rfl, rfl⟩ := hnext
    refine ⟨by simp, fun later hlater => ?_⟩
    cases past with
    | nil =>
        simp only [List.nil_append, List.cons.injEq, Prod.mk.injEq] at hlater
        obtain ⟨⟨rfl, rfl⟩, -⟩ := hlater
        rw [hempty rfl] at hpromised
        exact hpromised.1
    | cons first past =>
        rw [List.cons_append, List.cons.injEq] at hlater
        obtain ⟨rfl, -⟩ := hlater
        exact hbegan past rfl

/-- The run of a call. -/
theorem During.of_trace {cap amount : ℕ} {steps : List (τ × Act ω)} (hcalm : queue.Calm)
    (hsound : queue.poisoned = false)
    (hcall : ((undisturbed checked cap).start queue).Trace
      ((task, .notify amount) :: steps) queue')
    (hsteps : ∀ label ∈ steps, ∃ spurious condition, label.2 = .step spurious condition) :
    queue.During task amount queue' ∧ queue'.Calm := by
  have hrun := hcall.invariant
    (motive := fun events state => state.Calm ∧ (events = [] → state = queue) ∧
      ∀ steps, events = (task, .notify amount) :: steps →
        (∀ label ∈ steps, ∃ spurious condition, label.2 = .step spurious condition) →
          queue.During task amount state)
    ⟨hcalm, fun _ => rfl, fun steps hnil => by cases hnil⟩ ?_
  · exact ⟨hrun.2.2 steps rfl hsteps, hrun.1⟩
  · rintro past before ⟨other, act⟩ after events - ⟨hcalm, hempty, hduring⟩ hnext
    obtain ⟨hspared, hnext⟩ := Machine.restrict_next.mp hnext
    obtain ⟨hpromised, hnext⟩ := Machine.restrict_next.mp hnext
    simp only [machine, Option.map_eq_some_iff, Prod.mk.injEq] at hnext
    obtain ⟨next, hstep, rfl, rfl⟩ := hnext
    refine ⟨hcalm.step hpromised hspared hstep, by simp, fun later hlater hlabels => ?_⟩
    cases past with
    | nil =>
        simp only [List.nil_append, List.cons.injEq, Prod.mk.injEq] at hlater
        obtain ⟨⟨rfl, rfl⟩, -⟩ := hlater
        rw [hempty rfl] at hpromised hstep
        exact During.begin hpromised hsound hstep
    | cons first past =>
        rw [List.cons_append, List.cons.injEq] at hlater
        obtain ⟨rfl, rfl⟩ := hlater
        have hbefore := hduring past rfl fun label hlabel =>
          hlabels label (List.mem_append_left _ hlabel)
        obtain ⟨spurious, condition, hact⟩ := hlabels (other, act) (by simp)
        subst hact
        exact hbefore.step hcalm hspared hstep

/-- Every call of `notify` that runs to its end wakes as many live futures as
it was asked to, or all of them, whatever was polled and notified before. -/
theorem served_of_trace {cap amount : ℕ} (hcap : 0 < cap) {history steps : List (τ × Act ω)}
    (htrace : (undisturbed checked cap).Trace history queue)
    (hcall : ((undisturbed checked cap).start queue).Trace
      ((task, .notify amount) :: steps) queue')
    (hsteps : ∀ label ∈ steps, ∃ spurious condition, label.2 = .step spurious condition)
    (hidle : ∀ task, (queue'.point task).idle = true) : queue.Served queue' amount := by
  have hcalm := Calm.of_trace hcap htrace
  have hbegan := idle_of_call hcall
  cases hsound : queue.poisoned with
  | true =>
      have hnobody : queue.liveTasks = ∅ := by
        refine Finset.filter_eq_empty_iff.mpr fun other _ hlive => ?_
        have hsleeping := hcalm.inv.sleeping hbegan hlive
        rw [hcalm.inv.dead hsound other] at hsleeping
        cases hsleeping
      exact ⟨∅, by simp [hnobody], by simp⟩
  | false =>
      obtain ⟨hduring, hcalm'⟩ := During.of_trace hcalm hsound hcall hsteps
      obtain ⟨hplain, hstages⟩ := hcalm.stage.resolve_left (by simp [hsound])
      obtain ⟨-, hstages'⟩ := hcalm'.stage.resolve_left (by simp [hduring.sound])
      obtain ⟨hstage, hvigil⟩ := hstages task fun other _ => hbegan other
      obtain ⟨hstage', -⟩ := hstages' task fun other _ => hidle other
      have hring := (stage_of_idle (hbegan task)).mp hstage
      have hring' := (stage_of_idle (hidle task)).mp hstage'
      have hasleep := (unwoken_of_idle (hbegan task)).mp hvigil.unwoken
      have hnotifies := hduring.notifies (hidle task)
      rw [hduring.waits] at hring'
      exact hring.served hcalm.inv hbegan hasleep hring' hcalm'.inv hduring.slot hidle
        hnotifies hplain.below

/-- A wait whose condition fails while nobody else is live, then two waits and
a notification. -/
theorem served_of_waits :
    ∃ queue queue' : Queue (Fin 3) (Fin 3), queue.liveTasks = {0, 1} ∧
      queue'.liveTasks = {1} ∧ queue.Served queue' 1 := by
  let calm : Machine (Queue (Fin 3) (Fin 3)) _ _ := undisturbed true 4
  let wait (task : Fin 3) (condition : Bool) (count : ℕ) : List (Fin 3 × Act (Fin 3)) :=
    (task, .enter task) :: List.replicate count (task, .step false condition)
  let steps : List (Fin 3 × Act (Fin 3)) := List.replicate 5 (2, .step false true)
  have hrun : ((calm.run (wait 0 false 9 ++ wait 0 true 4 ++ wait 1 true 4)).bind
      fun result => ((calm.start result.1).run ((2, .notify 1) :: steps)).map
        fun result' => decide (result'.2 = (2, .notify 1) :: steps ∧
          result.1.liveTasks = {0, 1} ∧ result'.1.liveTasks = {1} ∧
          ∀ task, (result'.1.point task).idle = true)) = some true := by
    decide +kernel
  obtain ⟨⟨queue, history⟩, hresult, hcall⟩ := Option.bind_eq_some_iff.mp hrun
  obtain ⟨⟨queue', events⟩, hresult', hgood⟩ := Option.map_eq_some_iff.mp hcall
  obtain ⟨rfl, hlive, hlive', hidle⟩ := of_decide_eq_true hgood
  refine ⟨queue, queue', hlive, hlive', ?_⟩
  exact served_of_trace (by decide) ⟨_, hresult⟩ ⟨_, hresult'⟩
    (fun label hlabel => ⟨false, true, by rw [List.eq_of_mem_replicate hlabel]⟩) hidle

/-- Task 0 waits, the condition of task 1 fails and its notification goes to
task 0, task 2 waits.  A notification finds the bucket of task 1 and the only
live future sleeps on. -/
theorem unserved_of_failed :
    ¬ ∀ (checked : Bool) (queue queue' : Queue (Fin 4) (Fin 4)) (task : Fin 4) (amount : ℕ)
      (history steps : List (Fin 4 × Act (Fin 4))),
      (sequential checked 4).Trace history queue →
        ((sequential checked 4).start queue).Trace ((task, .notify amount) :: steps) queue' →
          (∀ label ∈ steps, ∃ spurious condition, label.2 = .step spurious condition) →
            (∀ task, (queue'.point task).idle = true) → queue.Served queue' amount := by
  intro hserved
  let calm : Machine (Queue (Fin 4) (Fin 4)) _ _ := sequential true 4
  let wait (task : Fin 4) (condition : Bool) (count : ℕ) : List (Fin 4 × Act (Fin 4)) :=
    (task, .enter task) :: List.replicate count (task, .step false condition)
  let steps : List (Fin 4 × Act (Fin 4)) := List.replicate 5 (3, .step false true)
  have hrun : ((calm.run (wait 0 true 4 ++ wait 1 false 9 ++ wait 2 true 4)).bind
      fun result => ((calm.start result.1).run ((3, .notify 1) :: steps)).map
        fun result' => decide (result'.2 = (3, .notify 1) :: steps ∧
          result.1.liveTasks = {2} ∧ result'.1.live 2 = true ∧
          ∀ task, (result'.1.point task).idle = true)) = some true := by
    decide +kernel
  obtain ⟨⟨queue, history⟩, hresult, hcall⟩ := Option.bind_eq_some_iff.mp hrun
  obtain ⟨⟨queue', events⟩, hresult', hgood⟩ := Option.map_eq_some_iff.mp hcall
  obtain ⟨rfl, hlive, hlive', hidle⟩ := of_decide_eq_true hgood
  obtain ⟨served, hcard, hwoken⟩ := hserved true queue queue' 3 1 _ _ ⟨_, hresult⟩
    ⟨_, hresult'⟩
    (fun label hlabel => ⟨false, true, by rw [List.eq_of_mem_replicate hlabel]⟩) hidle
  rw [hlive] at hcard
  obtain ⟨task, htask⟩ := Finset.card_pos.mp hcard
  obtain ⟨halive, hasleep, -⟩ := hwoken task htask
  have hmem : task ∈ queue.liveTasks := Finset.mem_filter.mpr ⟨Finset.mem_univ task, halive⟩
  rw [hlive, Finset.mem_singleton] at hmem
  rw [hmem, hlive'] at hasleep
  cases hasleep

end Runs

end Queue

end Futex2

end AsyncMutex
