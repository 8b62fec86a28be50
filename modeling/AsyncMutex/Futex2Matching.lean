import AsyncMutex.Futex2Levels

/-!
# Matched waits and notifications

Each task polls one `wait_if` future and, when its first poll has returned,
notifies once.  In the current generation the notifications then make up for
the waits, bucket by bucket, unless a task met a mismatched bucket there: then
every bucket is going to be buried.
-/

namespace AsyncMutex

namespace Futex2

/-- How far a task is with its first poll and its notification. -/
inductive Stage where
  | fresh
  | entering
  | entered
  | notifying
  | done
deriving DecidableEq

/-- The stage after a step, which has returned when the task rests again. -/
def Stage.after {ω : Type} (returned : Bool) : Stage → Act ω → Option Stage
  | .fresh, .enter _ => some .entering
  | .entered, .notify amount => if amount = 1 then some .notifying else none
  | .entering, .step _ _ => some (if returned then .entered else .entering)
  | .notifying, .step _ _ => some (if returned then .done else .notifying)
  | stage, .step _ _ => some stage
  | stage, .poll _ => some stage
  | _, _ => none

structure Matching (τ ω : Type) where
  queue : Queue τ ω
  stage : τ → Stage

namespace Matching

variable {τ ω : Type} [DecidableEq τ] [DecidableEq ω]

def next (checked : Bool) (matching : Matching τ ω) (label : τ × Act ω) :
    Option (Matching τ ω × List (τ × Act ω)) :=
  (matching.queue.step checked label.1 label.2).bind fun queue =>
    ((matching.stage label.1).after (queue.point label.1 = .rest) label.2).map fun stage =>
      (⟨queue, Function.update matching.stage label.1 stage⟩, [label])

def machine (checked : Bool) (cap : ℕ) :
    Machine (Matching τ ω) (τ × Act ω) (τ × Act ω) where
  init := ⟨.withCapacity cap, fun _ => .fresh⟩
  next := next checked

/-- The step is the exchange of the atom in a first poll. -/
def waits (matching : Matching τ ω) (label : τ × Act ω) : Bool :=
  match label.2, matching.queue.point label.1 with
  | .step false _, .enterCas _ atom => atom = matching.queue.atom
  | _, _ => false

/-- The step is not the wait that makes `2 ^ 32` of them in a generation. -/
def Few (matching : Matching τ ω) (label : τ × Act ω) : Prop :=
  matching.waits label = true → matching.queue.atom.waits + 1 < half

instance (matching : Matching τ ω) (label : τ × Act ω) : Decidable (matching.Few label) :=
  inferInstanceAs (Decidable (_ → _))

end Matching

/-! ## Debts -/

/-- The first poll has not exchanged the atom yet. -/
def Point.unqueued {ω : Type} : Point ω → Bool
  | .enterLoad _ => true
  | .enterCas _ _ => true
  | _ => false

/-- The notification that the task calls has not exchanged the atom yet. -/
def Point.unsettled {ω : Type} : Point ω → Bool
  | .notifyLoad called _ => called
  | .notifyCas called _ _ => called
  | .panicked => true
  | _ => false

/-- The task may still have to make up for its wait. -/
def Stage.Owes {ω : Type} : Stage → Point ω → Prop
  | .entering, point => point.unqueued = false
  | .entered, _ => True
  | .notifying, point => point.unsettled = true
  | _, _ => False

theorem Point.unqueued_of_settle {ω : Type} {before after : Point ω}
    (hsettle : before.settle after none ≠ none) : before.unqueued = true := by
  unfold Point.settle at hsettle
  split at hsettle <;> first | rfl | exact absurd rfl hsettle

theorem Point.settle_of_unqueued {ω : Type} {before after : Point ω} {debt : Option ℕ}
    (hafter : after.unqueued = true) (hsettle : before.settle after debt ≠ none) :
    debt ≠ none := by
  rintro rfl
  have hbefore := Point.unqueued_of_settle hsettle
  cases before with
  | enterLoad => exact hsettle rfl
  | enterCas =>
      cases after with
      | enterBucket => exact absurd hafter Bool.false_ne_true
      | _ => exact hsettle rfl
  | _ => exact absurd hbefore Bool.false_ne_true

namespace Queue

variable {τ ω : Type} [DecidableEq τ] {checked : Bool}
  {queue queue' : Queue τ ω} {task : τ}

theorem visit_unqueued (generation iteration last : ℕ) :
    (visit generation iteration last : Point ω).unqueued = false := by
  unfold visit
  split <;> rfl

variable [DecidableEq ω]

theorem Step.unqueued (hstep : Step checked queue task (queue.point task) queue')
    (hrest : queue.point task ≠ .rest) (hafter : (queue'.point task).unqueued = true) :
    (queue.point task).unqueued = true := by
  generalize queue.point task = before at *
  cases hstep with
  | quiet hquiet =>
      rw [setPoint_point, Function.update_self] at hafter
      cases hquiet with
      | enter => exact absurd rfl hrest
      | enterLoad => rfl
      | enterAgain => rfl
      | _ => exact absurd hafter Bool.false_ne_true
  | notifies => simp [visit_unqueued] at hafter
  | marks => simp [visit_unqueued] at hafter
  | notifyWakes => simp [visit_unqueued] at hafter
  | _ => simp [Point.unqueued] at hafter

theorem Step.unsettled (hstep : Step checked queue task (queue.point task) queue')
    (hbefore : (queue.point task).unsettled = true) {debt : Option ℕ}
    (hsettle : (queue.point task).settle (queue'.point task) debt ≠ none) :
    (queue'.point task).unsettled = true := by
  generalize queue.point task = before at *
  cases hstep with
  | quiet hquiet =>
      rw [setPoint_point, Function.update_self]
      cases hquiet with
      | notifyLoad => exact hbefore
      | notifyAgain => exact hbefore
      | notifyPanics => rfl
      | _ => exact absurd hbefore Bool.false_ne_true
  | notifies called =>
      obtain rfl : called = true := hbefore
      rw [setPoint_point, Function.update_self] at hsettle
      unfold visit at hsettle
      split at hsettle <;> exact absurd rfl hsettle
  | _ => exact absurd hbefore Bool.false_ne_true

end Queue

namespace Matching

variable {τ ω : Type} [DecidableEq τ] [DecidableEq ω] {checked : Bool}
  {matching matching' : Matching τ ω} {task : τ}

theorem next_cases {label : τ × Act ω} {events : List (τ × Act ω)}
    (hnext : next checked matching label = some (matching', events)) :
    ∃ queue stage, matching.queue.step checked label.1 label.2 = some queue ∧
      (matching.stage label.1).after (decide (queue.point label.1 = .rest)) label.2 =
        some stage ∧
      matching' = ⟨queue, Function.update matching.stage label.1 stage⟩ := by
  simp only [next, Option.bind_eq_some_iff, Option.map_eq_some_iff, Prod.mk.injEq] at hnext
  obtain ⟨queue, hqueue, stage, hstage, rfl, -⟩ := hnext
  exact ⟨queue, stage, hqueue, hstage, rfl⟩

/-- The task owes no notification of an earlier poll, and its debt is one of
its stage. -/
structure Due (stage : Stage) (point : Point ω) (debt : Option ℕ) : Prop where
  entering : point.unqueued = true → stage = .entering
  owes : debt ≠ none → stage.Owes point

theorem Due.step {queue queue' : Queue τ ω} {stage stage' : Stage} {debt : Option ℕ}
    {act : Act ω} (hdue : Due stage (queue.point task) debt)
    (hstep : queue.step checked task act = some queue')
    (hstage : stage.after (decide (queue'.point task = .rest)) act = some stage') :
    Due stage' (queue'.point task)
      ((queue.point task).settle (queue'.point task) debt) := by
  cases act with
  | enter waker =>
      obtain ⟨hrest, rfl⟩ := Queue.step_enter hstep
      cases stage <;> cases hstage
      refine ⟨fun _ => rfl, fun howes => ?_⟩
      simp only [hrest, Queue.setPoint_point, Function.update_self, Point.settle] at howes
      exact (hdue.owes howes).elim
  | poll waker =>
      obtain ⟨hrest, generation, iteration, rfl⟩ := Queue.step_poll hstep
      have hsame : stage' = stage := by cases stage <;> cases hstage <;> rfl
      simp only [hrest, Queue.setPoint_point, Function.update_self, Point.settle, hsame]
      rw [hrest] at hdue
      refine ⟨fun hunqueued => by simp [Point.unqueued] at hunqueued, fun howes => ?_⟩
      have howes' := hdue.owes howes
      cases stage <;> exact howes'
  | notify amount =>
      obtain ⟨hrest, rfl⟩ := Queue.step_notify hstep
      simp only [hrest, Queue.setPoint_point, Function.update_self, Point.settle]
      refine ⟨fun hunqueued => by simp [Point.unqueued] at hunqueued, fun howes => ?_⟩
      cases stage <;> simp only [Stage.after, reduceCtorEq, Option.ite_none_right_eq_some]
        at hstage
      obtain ⟨-, hstage⟩ := hstage
      cases hstage
      rfl
  | step spurious condition =>
      have hcases := Queue.step_cases hstep
      have hback := hcases.unqueued (Queue.step_rest hstep)
      have hfresh (hstage : stage ≠ .entering) (hafter : (queue'.point task).unqueued = true) :
          False := hstage (hdue.entering (hback hafter))
      -- a new debt comes with the exchange of the first poll
      have hnew (hstage : stage ≠ .entering)
          (hsettle : (queue.point task).settle (queue'.point task) debt ≠ none) :
          stage.Owes (queue.point task) := by
        by_cases hnone : debt = none
        · subst hnone
          exact absurd (hdue.entering (Point.unqueued_of_settle hsettle)) hstage
        · exact hdue.owes hnone
      cases stage with
      | fresh =>
          cases hstage
          exact ⟨fun hafter => (hfresh (by simp) hafter).elim,
            fun hsettle => (hnew (by simp) hsettle).elim⟩
      | done =>
          cases hstage
          exact ⟨fun hafter => (hfresh (by simp) hafter).elim,
            fun hsettle => (hnew (by simp) hsettle).elim⟩
      | entered =>
          cases hstage
          exact ⟨fun hafter => (hfresh (by simp) hafter).elim, fun _ => trivial⟩
      | entering =>
          by_cases hreturned : queue'.point task = .rest
          · simp only [Stage.after, hreturned, decide_true, if_true, Option.some.injEq] at hstage
            subst hstage
            rw [hreturned]
            exact ⟨fun hafter => absurd hafter Bool.false_ne_true, fun _ => trivial⟩
          · simp only [Stage.after, hreturned, decide_false, Bool.false_eq_true, if_false,
              Option.some.injEq] at hstage
            subst hstage
            refine ⟨fun _ => rfl, fun hsettle => ?_⟩
            refine eq_false_of_ne_true fun hafter => ?_
            have howes := hdue.owes (Point.settle_of_unqueued hafter hsettle)
            rw [show (queue.point task).unqueued = false from howes] at hback
            exact absurd (hback hafter) Bool.false_ne_true
      | notifying =>
          by_cases hreturned : queue'.point task = .rest
          · simp only [Stage.after, hreturned, decide_true, if_true, Option.some.injEq] at hstage
            subst hstage
            refine ⟨fun hafter => (hfresh (by simp) hafter).elim, fun hsettle => ?_⟩
            have hunsettled := hcases.unsettled (hnew (by simp) hsettle) hsettle
            rw [hreturned] at hunsettled
            exact absurd hunsettled Bool.false_ne_true
          · simp only [Stage.after, hreturned, decide_false, Bool.false_eq_true, if_false,
              Option.some.injEq] at hstage
            subst hstage
            exact ⟨fun hafter => (hfresh (by simp) hafter).elim,
              fun hsettle => hcases.unsettled (hnew (by simp) hsettle) hsettle⟩

variable [Fintype τ]

/-- The invariant of tasks that wait and notify once, for some debts. -/
structure Sound (matching : Matching τ ω) (debt : τ → Option ℕ) : Prop where
  inv : matching.queue.Inv
  regular : matching.queue.Regular
  due : ∀ task, Due (matching.stage task) (matching.queue.point task) (debt task)
  balanced : matching.queue.Broken ∨ ∃ served, matching.queue.Balanced served debt

omit [DecidableEq τ] [DecidableEq ω] in
theorem Sound.initial {cap : ℕ} (hcap : 0 < cap) :
    (⟨.withCapacity cap, fun _ => .fresh⟩ : Matching τ ω).Sound fun _ => none := by
  constructor
  case inv => exact ⟨.initial hcap, .initial cap, .initial cap⟩
  case regular => exact fun _ => trivial
  case due =>
    exact fun _ => ⟨fun hunqueued => absurd hunqueued Bool.false_ne_true,
      fun hdebt => absurd rfl hdebt⟩
  case balanced =>
    have hbounded : 0 < half := by decide
    refine Or.inr ⟨0, hbounded, Nat.le_refl _, Nat.le_refl _, Or.inl rfl, Nat.zero_le _, ?_⟩
    intro index _
    have henters : tally (Point.enters 0 cap index)
        (fun _ : τ => (Point.rest : Point ω)) = 0 := tally_eq_zero fun _ => rfl
    change 0 + tally (Point.enters 0 cap index) (fun _ : τ => (Point.rest : Point ω)) + 0 ≤ _
    rw [henters]
    exact Nat.zero_le _

omit [Fintype τ] in
/-- The exchange of a first poll is among the first `2 ^ 32 - 1` of its
generation. -/
theorem Few.waits {label : τ × Act ω} {queue : Queue τ ω} (hfew : matching.Few label)
    (hstep : matching.queue.step checked label.1 label.2 = some queue) {waker waker' : ω}
    {atom : Atom} {generation iteration : ℕ} {current : Bucket ω}
    (hbefore : matching.queue.point label.1 = .enterCas waker atom)
    (hafter : queue.point label.1 = .enterBucket waker' generation iteration current) :
    matching.queue.atom.waits + 1 < half := by
  obtain ⟨task, act⟩ := label
  cases act with
  | enter => exact absurd (hbefore.symm.trans (Queue.step_enter hstep).1) (by simp)
  | poll => exact absurd (hbefore.symm.trans (Queue.step_poll hstep).1) (by simp)
  | notify => exact absurd (hbefore.symm.trans (Queue.step_notify hstep).1) (by simp)
  | step spurious condition =>
      simp only [Queue.step, hbefore] at hstep
      split at hstep
      case h_1 =>
        cases hstep
        simp at hafter
      case h_2 waits hadd =>
        split at hstep
        case isTrue hmatched =>
          obtain ⟨rfl, rfl⟩ := hmatched
          exact hfew (by simp [Matching.waits, hbefore])
        case isFalse =>
          cases hstep
          simp at hafter

theorem Sound.step {debt : τ → Option ℕ} (hsound : matching.Sound debt)
    {label : τ × Act ω} {events : List (τ × Act ω)} (hfew : matching.Few label)
    (hnext : next checked matching label = some (matching', events)) :
    ∃ debt', matching'.Sound debt' := by
  obtain ⟨queue, stage, hstep, hstage, rfl⟩ := next_cases hnext
  obtain ⟨task, act⟩ := label
  dsimp only at hstep hstage ⊢
  have hcases := Queue.step_cases hstep
  have hdue := (hsound.due task).step hstep hstage
  let debt' := Function.update debt task
    ((matching.queue.point task).settle (queue.point task) (debt task))
  refine ⟨debt', hsound.inv.step hcases, ?_, ?_, ?_⟩
  · refine hsound.regular.step hsound.inv hcases fun called amount hrest hafter => ?_
    cases act with
    | enter => simp [(Queue.step_enter hstep).2] at hafter
    | poll =>
        obtain ⟨-, generation, iteration, rfl⟩ := Queue.step_poll hstep
        simp at hafter
    | notify count =>
        obtain ⟨-, rfl⟩ := Queue.step_notify hstep
        -- each task notifies one future
        have hone : count = 1 := by
          cases hbefore : matching.stage task <;>
            simp only [hbefore, Stage.after, reduceCtorEq, Option.ite_none_right_eq_some]
              at hstage
          exact hstage.1
        simp only [Queue.setPoint_point, Function.update_self, Point.notifyLoad.injEq,
          hone] at hafter
        exact hafter.2.symm
    | step => exact absurd hrest (Queue.step_rest hstep)
  · intro other
    by_cases hother : other = task
    · subst hother
      simpa [debt'] using hdue
    · simpa [debt', hother, hcases.others hother] using hsound.due other
  · by_cases hbroken : matching.queue.Broken
    · rcases hcases.current with hsame | ⟨generation, index, new, hbefore, hnew, rfl⟩
      · exact Or.inl (hbroken.step hsound.inv.expansion hcases hsame.1 (hsame.2 _))
      · exact Or.inr ⟨0, .grows hsound.inv hsound.regular hbefore hnew⟩
    · obtain ⟨served, hbal⟩ := hsound.balanced.resolve_left hbroken
      refine hbal.step hsound.inv hsound.regular hbroken hcases ?_ ?_
      · intro waker atom hbefore
        by_contra hdebt
        have hself := hsound.due task
        rw [hbefore] at hself
        have howes := hself.owes hdebt
        rw [hself.entering rfl] at howes
        exact absurd howes (by simp [Stage.Owes, Point.unqueued])
      · intro waker atom generation iteration current hbefore hafter
        exact hfew.waits hstep hbefore hafter

/-! ## Runs -/

/-- Everybody is through with the first poll and the notification, and no poll
goes on. -/
def Finished (matching : Matching τ ω) : Prop :=
  ∀ task, matching.stage task = .done ∧
    (matching.queue.point task = .rest ∨ matching.queue.point task = .panicked)

variable {generation iteration : ℕ}

omit [DecidableEq τ] [DecidableEq ω] [Fintype τ] in
theorem Finished.weights (hfinished : matching.Finished) (task : τ) :
    (matching.queue.point task).sweeps = none ∧
      (∀ generation, matching.queue.point task ≠ .expandLock generation) ∧
      (∀ generation cap index, (matching.queue.point task).enters generation cap index = 0) ∧
      (∀ generation cap index, (matching.queue.point task).visits generation cap index = 0) ∧
      ∀ generation index waker,
        ¬ (matching.queue.point task).Takes matching.queue generation index waker := by
  rcases (hfinished task).2 with hpoint | hpoint <;> rw [hpoint] <;>
    exact ⟨rfl, by simp, fun _ _ _ => rfl, fun _ _ _ => rfl, fun _ _ _ => id⟩

omit [DecidableEq τ] [DecidableEq ω] [Fintype τ] in
/-- A future whose waker was taken out of its bucket was woken. -/
theorem Finished.woken (hfinished : matching.Finished) (hinv : matching.queue.Inv)
    (hslot : matching.queue.slot task = some (generation, iteration))
    (htaken : Queue.Taken (matching.queue.bucket generation iteration)) :
    matching.queue.woken task = true := by
  rcases hinv.alert task generation iteration hslot htaken with
    hdone | ⟨taker, waker, -, htakes⟩
  · exact hdone
  · exact absurd htakes ((hfinished.weights taker).2.2.2.2 _ _ _)

omit [DecidableEq τ] [DecidableEq ω] [Fintype τ] in
/-- In a broken generation every bucket is buried by now. -/
theorem Finished.buried (hfinished : matching.Finished) (hinv : matching.queue.Inv)
    (hbroken : matching.queue.Broken) {index : ℕ}
    (hindex : index < matching.queue.capacity matching.queue.atom.generation) :
    matching.queue.Buried matching.queue.atom.generation index := by
  rcases hbroken with ⟨other, hlocks | hsweeps⟩ | ⟨other, -, hburied⟩
  · exact absurd hlocks ((hfinished.weights other).2.1 _)
  · simp [(hfinished.weights other).1] at hsweeps
  · rcases hinv.expansion.buried other hburied with ⟨sweeper, hsweeps⟩ | hall
    · simp [(hfinished.weights sweeper).1] at hsweeps
    · exact hall index hindex

omit [DecidableEq τ] [DecidableEq ω] in
/-- All waits of the current generation are served. -/
theorem Finished.served {served : ℕ} {debt : τ → Option ℕ} (hfinished : matching.Finished)
    (hdue : ∀ task, Due (matching.stage task) (matching.queue.point task) (debt task))
    (hbal : matching.queue.Balanced served debt) : served = matching.queue.atom.waits := by
  have hnone (other : τ) : debt other = none := by
    by_contra hdebt
    have howes := (hdue other).owes hdebt
    rw [(hfinished other).1] at howes
    exact howes
  have hzero : tally (owing matching.queue.atom.generation) debt = 0 :=
    tally_eq_zero fun other => by rw [hnone other, owing_none]
  have howed := hbal.owed
  have hle := hbal.served_le
  omega

/-- When every task waited and notified once, each future that is still pending
was woken. -/
theorem woken_of_finished {cap : ℕ} (hcap : 0 < cap)
    (hreach : ((machine checked cap).restrict Few).Reachable matching)
    (hfinished : matching.Finished) :
    ∀ task generation iteration, matching.queue.slot task = some (generation, iteration) →
      matching.queue.woken task = true := by
  have hinvariant : ∃ debt, matching.Sound debt := by
    refine hreach.invariant (motive := fun matching => ∃ debt, matching.Sound debt)
      ⟨_, .initial hcap⟩ ?_
    rintro before label after events - ⟨debt, hsound⟩ hnext
    obtain ⟨hfew, hnext⟩ := Machine.restrict_next.mp hnext
    exact hsound.step hfew hnext
  obtain ⟨debt, hsound⟩ := hinvariant
  have hexp := hsound.inv.expansion
  intro task generation iteration hslot
  by_cases htaken : Queue.Taken (matching.queue.bucket generation iteration)
  · exact hfinished.woken hsound.inv hslot htaken
  exfalso
  have hle := hsound.inv.slots.current task generation iteration hslot
  have hindex : matching.queue.index generation iteration < matching.queue.capacity generation :=
    Nat.mod_lt _ (hexp.positive generation hle)
  -- its bucket is no tombstone, so the generation is the current one and not broken
  have hcurrent : generation = matching.queue.atom.generation := by
    refine Nat.le_antisymm hle (Nat.le_of_not_lt fun hlt => htaken (Or.inr ?_))
    exact hexp.retired generation hlt _ hindex
  subst hcurrent
  have hbroken : ¬ matching.queue.Broken := fun hbroken =>
    htaken (Or.inr (hfinished.buried hsound.inv hbroken hindex))
  obtain ⟨served, hbal⟩ := hsound.balanced.resolve_left hbroken
  have hserved := hfinished.served hsound.due hbal
  -- a bucket with a waiting future would hold one wait more than was served
  have hlevel := hbal.level _ hindex
  have henters := tally_eq_zero fun other =>
    (hfinished.weights other).2.2.1 matching.queue.atom.generation
      (matching.queue.capacity matching.queue.atom.generation)
      (matching.queue.index matching.queue.atom.generation iteration)
  have hvisits := tally_eq_zero fun other =>
    (hfinished.weights other).2.2.2.1 matching.queue.atom.generation
      (matching.queue.capacity matching.queue.atom.generation)
      (matching.queue.index matching.queue.atom.generation iteration)
  have hheld := hsound.inv.slots.held task _ iteration hslot
  unfold Queue.Level at hlevel
  rw [henters, hvisits, hserved] at hlevel
  cases hbucket : matching.queue.bucket matching.queue.atom.generation iteration with
  | waiting waker =>
      rw [show (matching.queue.generations matching.queue.atom.generation).waiters
        (matching.queue.index matching.queue.atom.generation iteration) = .waiting waker from
          hbucket] at hlevel
      simp only [Bucket.waits, Bucket.marks] at hlevel
      omega
  | waking => exact htaken (Or.inl hbucket)
  | tombstone => exact htaken (Or.inr hbucket)
  | empty other => simp [hbucket, Bucket.Held] at hheld
  | woken other => simp [hbucket, Bucket.Held] at hheld

/-- Two tasks wait and notify each other. -/
def paired : List (Fin 2 × Act (Fin 2)) :=
  [(0, .enter 0), (0, .step false true), (0, .step false true), (0, .step false true),
    (0, .step false true), (1, .enter 1), (1, .step false true), (1, .step false true),
    (1, .step false true), (1, .step false true), (1, .notify 1), (1, .step false true),
    (1, .step false true), (1, .step false true), (1, .step false true),
    (1, .step false true), (0, .notify 1), (0, .step false true), (0, .step false true),
    (0, .step false true), (0, .step false true), (0, .step false true)]

theorem woken_of_paired :
    ∃ matching : Matching (Fin 2) (Fin 2), matching.Finished ∧
      matching.queue.slot 0 = some (0, 0) ∧ matching.queue.slot 1 = some (0, 1) ∧
      ∀ task generation iteration, matching.queue.slot task = some (generation, iteration) →
        matching.queue.woken task = true := by
  have hrun : ((((machine true 2).restrict Few).run paired).map fun result =>
      decide ((∀ task, result.1.stage task = .done ∧ (result.1.queue.point task = .rest ∨
        result.1.queue.point task = .panicked)) ∧ result.1.queue.slot 0 = some (0, 0) ∧
          result.1.queue.slot 1 = some (0, 1))) = some true := by
    decide +kernel
  obtain ⟨result, hresult, hfinal⟩ := Option.map_eq_some_iff.mp hrun
  obtain ⟨hfinished, hfirst, hsecond⟩ := of_decide_eq_true hfinal
  exact ⟨result.1, hfinished, hfirst, hsecond,
    woken_of_finished (by decide) (Machine.reachable_of_run _ _ hresult) hfinished⟩

end Matching

end Futex2

end AsyncMutex
