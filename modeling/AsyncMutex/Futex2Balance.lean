import AsyncMutex.Futex2Matching

/-!
# The balance of the ring

While nobody has met a mismatched bucket of the current generation, its waits
and its notifications balance exactly, bucket by bucket: a notification that
has its iteration and has not reached its bucket meets a wait there, or one
that is still on its way.
-/

namespace AsyncMutex

namespace Futex2

theorem add_of_room {checked : Bool} {count sum : ℕ}
    (hroom : checked = true ∨ count + 1 < half) (hadd : add checked count 1 = some sum) :
    sum = count + 1 ∧ sum < half := by
  unfold add at hadd
  split at hadd
  case isTrue hlt =>
    cases hadd
    exact ⟨rfl, hlt⟩
  case isFalse hlt =>
    rw [if_pos (hroom.resolve_right hlt)] at hadd
    cases hadd

theorem exists_of_tally {τ α : Type*} [Fintype τ] (weight : α → ℕ) (states : τ → α)
    (hpositive : 0 < tally weight states) : ∃ task, 0 < weight (states task) := by
  by_contra hnone
  have hzero : tally weight states = 0 := tally_eq_zero fun task => by
    by_contra hweight
    exact hnone ⟨task, Nat.pos_of_ne_zero hweight⟩
  omega

theorem Point.enters_pos {ω : Type} {point : Point ω} {generation cap index : ℕ}
    (hpositive : 0 < point.enters generation cap index) :
    ∃ waker iteration current, point = .enterBucket waker generation iteration current := by
  cases point with
  | enterBucket waker other iteration current =>
      simp only [Point.enters] at hpositive
      split at hpositive
      case isTrue hhere => exact ⟨waker, iteration, current, by rw [hhere.1]⟩
      case isFalse => cases hpositive
  | _ => cases hpositive

theorem Point.visits_pos {ω : Type} {point : Point ω} {generation cap index : ℕ}
    (hpositive : 0 < point.visits generation cap index) :
    (∃ iteration last, point = .bucketLoad generation iteration last) ∨
      ∃ iteration last old, point = .bucketCas generation iteration last old := by
  cases point with
  | bucketLoad other iteration last =>
      simp only [Point.visits] at hpositive
      split at hpositive
      case isTrue hhere => exact Or.inl ⟨iteration, last, by rw [hhere.1]⟩
      case isFalse => cases hpositive
  | bucketCas other iteration last old =>
      simp only [Point.visits] at hpositive
      split at hpositive
      case isTrue hhere => exact Or.inr ⟨iteration, last, old, by rw [hhere.1]⟩
      case isFalse => cases hpositive
  | _ => cases hpositive

namespace Queue

variable {τ ω : Type} [Fintype τ]

/-- In this bucket the waits and the notifications even out. -/
def Flush (generation cap notifies waits index : ℕ) (bucket : Bucket ω) (point : τ → Point ω) :
    Prop :=
  bucket.waits + tally (Point.enters generation cap index) point + laps cap notifies index =
    bucket.marks + tally (Point.visits generation cap index) point + laps cap waits index

structure Even (queue : Queue τ ω) : Prop where
  below : queue.atom.notifies ≤ queue.atom.waits
  bounded : queue.atom.waits < half
  flush : ∀ index < queue.capacity queue.atom.generation,
    Flush queue.atom.generation (queue.capacity queue.atom.generation) queue.atom.notifies
      queue.atom.waits index ((queue.generations queue.atom.generation).waiters index)
      queue.point

variable [DecidableEq τ] {checked : Bool} {queue queue' : Queue τ ω}
  {task : τ}

/-- A task moves on, and what it changes evens out. -/
theorem Flush.update {generation cap notifies notifies' waits waits' index : ℕ}
    {bucket bucket' : Bucket ω} {point : τ → Point ω} {after : Point ω}
    (hflush : Flush generation cap notifies waits index bucket point)
    (hchange : bucket'.waits + after.enters generation cap index + laps cap notifies' index +
        (bucket.marks + (point task).visits generation cap index + laps cap waits index) =
      bucket.waits + (point task).enters generation cap index + laps cap notifies index +
        (bucket'.marks + after.visits generation cap index + laps cap waits' index)) :
    Flush generation cap notifies' waits' index bucket' (Function.update point task after) := by
  have henters := tally_update (Point.enters generation cap index) point task after
  have hvisits := tally_update (Point.visits generation cap index) point task after
  unfold Flush at hflush ⊢
  omega

omit [DecidableEq τ] in
theorem Even.of_flush (heven : queue.Even) (hatom : queue'.atom = queue.atom)
    (hcap : queue'.capacity queue.atom.generation = queue.capacity queue.atom.generation)
    (hflush : ∀ index < queue.capacity queue.atom.generation,
      Flush queue.atom.generation (queue.capacity queue.atom.generation) queue.atom.notifies
        queue.atom.waits index ((queue'.generations queue.atom.generation).waiters index)
        queue'.point) : queue'.Even := by
  constructor
  case below => rw [hatom]; exact heven.below
  case bounded => rw [hatom]; exact heven.bounded
  case flush => rw [hatom, hcap]; exact hflush

/-- A step that changes no bucket of the current generation. -/
theorem Even.moves (heven : queue.Even) {after : Point ω} (hatom : queue'.atom = queue.atom)
    (hsame : queue'.generations queue.atom.generation =
      queue.generations queue.atom.generation)
    (hpoint : queue'.point = Function.update queue.point task after)
    (hweights : ∀ cap index,
      after.enters queue.atom.generation cap index =
          (queue.point task).enters queue.atom.generation cap index ∧
        after.visits queue.atom.generation cap index =
          (queue.point task).visits queue.atom.generation cap index) :
    queue'.Even := by
  refine heven.of_flush hatom (by rw [capacity, capacity, hsame]) fun index hindex => ?_
  rw [hpoint, hsame]
  refine (heven.flush index hindex).update ?_
  obtain ⟨henters, hvisits⟩ := hweights (queue.capacity queue.atom.generation) index
  omega

/-- The bucket of an iteration is exchanged. -/
theorem Even.exchanges (heven : queue.Even) {after : Point ω}
    {generation iteration : ℕ} {old new : Bucket ω}
    (hbucket : queue.bucket generation iteration = old)
    (hatom : queue'.atom = queue.atom)
    (hgenerations : queue'.generations =
      (queue.setBucket generation (queue.index generation iteration) new).generations)
    (hpoint : queue'.point = Function.update queue.point task after)
    (hafter : ∀ other cap index, after.enters other cap index = 0 ∧
      after.visits other cap index = 0)
    (hbefore : ∀ other cap index, ¬ (generation = other ∧ iteration % cap = index) →
      (queue.point task).enters other cap index = 0 ∧
        (queue.point task).visits other cap index = 0)
    (hat : new.waits + old.marks +
        (queue.point task).visits generation (queue.capacity generation)
          (queue.index generation iteration) =
      old.waits + new.marks +
        (queue.point task).enters generation (queue.capacity generation)
          (queue.index generation iteration)) :
    queue'.Even := by
  have hcap : queue'.capacity queue.atom.generation = queue.capacity queue.atom.generation := by
    rw [capacity, hgenerations]
    exact capacity_setBucket ..
  refine heven.of_flush hatom hcap fun index hindex => ?_
  rw [hpoint, hgenerations, waiters_setBucket]
  refine (heven.flush index hindex).update ?_
  rw [(hafter ..).1, (hafter ..).2]
  split
  case isTrue hhere =>
    obtain ⟨rfl, rfl⟩ := hhere
    have hold : (queue.generations queue.atom.generation).waiters
        (queue.index queue.atom.generation iteration) = old := hbucket
    rw [hold]
    omega
  case isFalse hhere =>
    obtain ⟨henters, hvisits⟩ := hbefore queue.atom.generation
      (queue.capacity queue.atom.generation) index fun hsame =>
        hhere ⟨hsame.1.symm, by rw [← hsame.2, ← hsame.1]; rfl⟩
    omega

omit [Fintype τ] [DecidableEq τ] in
/-- A task that leaves a mismatched bucket breaks the generation, one that
panics is lost, and any other quiet step keeps the balance. -/
theorem Quiet.evens {before after : Point ω} (hquiet : Quiet checked queue task before after)
    (current : ℕ) : after = .expandLock current ∨ after = .panicked ∨
      ∀ cap index, after.enters current cap index = before.enters current cap index ∧
        after.visits current cap index = before.visits current cap index := by
  cases hquiet with
  | enterPanics => exact Or.inr (Or.inl rfl)
  | bucketPanics => exact Or.inr (Or.inl rfl)
  | notifyPanics => exact Or.inr (Or.inl rfl)
  | expandPanics => exact Or.inr (Or.inl rfl)
  | bucketExpands waker generation iteration old =>
      by_cases hcurrent : generation = current
      · exact Or.inl (congrArg _ hcurrent)
      · exact Or.inr (Or.inr fun cap index => by simp [Point.enters, Point.visits, hcurrent])
  | visitExpands generation iteration last old =>
      by_cases hcurrent : generation = current
      · exact Or.inl (congrArg _ hcurrent)
      · exact Or.inr (Or.inr fun cap index => by simp [Point.enters, Point.visits, hcurrent])
  | _ => exact Or.inr (Or.inr fun cap index => ⟨rfl, rfl⟩)

/-- The task takes the next iteration for its wait. -/
theorem Even.waits (heven : queue.Even) {waker : ω} {atom : Atom}
    (hbefore : queue.point task = .enterCas waker atom)
    (hbounded : queue.atom.waits + 1 < half) :
    ((queue.setAtom { queue.atom with waits := queue.atom.waits + 1 }).setPoint task
      (.enterBucket waker queue.atom.generation queue.atom.waits
        (.empty queue.atom.waits))).Even := by
  refine ⟨Nat.le_succ_of_le heven.below, hbounded, fun index hindex => ?_⟩
  refine (heven.flush index hindex).update ?_
  have hlaps := laps_succ (queue.capacity queue.atom.generation) queue.atom.waits index
  have hone : (Point.enterBucket waker queue.atom.generation queue.atom.waits
      (.empty queue.atom.waits)).enters queue.atom.generation
        (queue.capacity queue.atom.generation) index =
      if queue.atom.waits % queue.capacity queue.atom.generation = index then 1 else 0 := by
    simp [Point.enters]
  rw [hbefore]
  change ((queue.generations queue.atom.generation).waiters index).waits +
      (Point.enterBucket waker queue.atom.generation queue.atom.waits
        (.empty queue.atom.waits)).enters queue.atom.generation
          (queue.capacity queue.atom.generation) index +
        laps (queue.capacity queue.atom.generation) queue.atom.notifies index + (_ + 0 + _) =
      _ + 0 + _ + (((queue.generations queue.atom.generation).waiters index).marks + 0 +
      laps (queue.capacity queue.atom.generation) (queue.atom.waits + 1) index)
  rw [hone, hlaps]
  omega

/-- The task notifies one future, if there is one left. -/
theorem Even.notifies (heven : queue.Even) {called : Bool} {atom : Atom}
    (hbefore : queue.point task = .notifyCas called 1 atom) :
    ((queue.setAtom { queue.atom with
      notifies := min (queue.atom.notifies + 1) queue.atom.waits }).setPoint task
        (visit queue.atom.generation queue.atom.notifies
          (min (queue.atom.notifies + 1) queue.atom.waits))).Even := by
  have hbelow := heven.below
  refine ⟨Nat.min_le_right _ _, heven.bounded, fun index hindex => ?_⟩
  refine (heven.flush index hindex).update ?_
  rw [hbefore, visit_enters]
  by_cases hall : queue.atom.notifies = queue.atom.waits
  · -- nobody is left
    have hmin : min (queue.atom.notifies + 1) queue.atom.waits = queue.atom.notifies := by omega
    simp only [hmin, visit, Nat.lt_irrefl, if_false, Point.enters, Point.visits, setPoint_atom,
      setAtom_atom, setPoint_generations, setAtom_generations]
  · have hmin : min (queue.atom.notifies + 1) queue.atom.waits = queue.atom.notifies + 1 := by
      omega
    have hlaps := laps_succ (queue.capacity queue.atom.generation) queue.atom.notifies index
    simp only [hmin, visit, Nat.lt_succ_self, if_true, Point.enters, Point.visits,
      setPoint_atom, setAtom_atom, setPoint_generations, setAtom_generations, true_and]
    change _ + 0 + laps (queue.capacity queue.atom.generation) (queue.atom.notifies + 1) index +
      (_ + 0 + _) = _ + 0 + _ + (_ + (if queue.atom.notifies %
        queue.capacity queue.atom.generation = index then 1 else 0) + _)
    rw [hlaps]
    omega

/-- A new generation has neither waits nor notifications. -/
theorem Even.grows (hinv : queue.Inv) (hregular : queue.Regular) {generation index : ℕ}
    {new : Generation ω} (hbefore : queue.point task = .expandSwap generation index)
    (hnew : Generation.new (queue.capacity generation * 2) = some new) :
    (queue.grown task generation new).Even := by
  have hlast := (hinv.expansion.swept task generation index (by rw [hbefore]; rfl)).1
  have hempty (index : ℕ) : ∃ iteration, new.waiters index = .empty iteration := by
    unfold Generation.new at hnew
    split at hnew <;> cases hnew
    exact ⟨index, rfl⟩
  have hpoint (other : τ) : ((queue.grown task generation new).point other).Regular queue.last := by
    by_cases heq : other = task
    · simp [grown, heq, Point.Regular]
    · have hsame : (queue.grown task generation new).point other = queue.point other := by
        simp [grown, heq]
      rw [hsame]
      exact (hregular other).mono (Nat.le_of_eq hlast)
  have henters (cap index : ℕ) : tally (Point.enters (queue.last + 1) cap index)
      (queue.grown task generation new).point = 0 := by
    refine tally_eq_zero fun other => ?_
    by_contra hweight
    obtain ⟨waker, iteration, current, hat⟩ := Point.enters_pos (Nat.pos_of_ne_zero hweight)
    have hle := hpoint other
    rw [hat] at hle
    exact absurd hle (Nat.not_succ_le_self _)
  have hvisits (cap index : ℕ) : tally (Point.visits (queue.last + 1) cap index)
      (queue.grown task generation new).point = 0 := by
    refine tally_eq_zero fun other => ?_
    by_contra hweight
    have hle := hpoint other
    rcases Point.visits_pos (Nat.pos_of_ne_zero hweight) with
      ⟨iteration, last, hat⟩ | ⟨iteration, last, old, hat⟩
    · rw [hat] at hle
      exact absurd hle.1 (Nat.not_succ_le_self _)
    · rw [hat] at hle
      exact absurd hle.1 (Nat.not_succ_le_self _)
  have hbounded : 0 < half := by decide
  refine ⟨Nat.le_refl _, hbounded, fun index _ => ?_⟩
  obtain ⟨iteration, hbucket⟩ := hempty index
  have hwaiters : ((queue.grown task generation new).generations
      (queue.last + 1)).waiters index = .empty iteration := by
    simp [grown, hbucket]
  unfold Flush
  change _ + tally (Point.enters (queue.last + 1) _ index) _ + 0 =
    _ + tally (Point.visits (queue.last + 1) _ index) _ + 0
  rw [show (queue.grown task generation new).atom.generation = queue.last + 1 from rfl,
    hwaiters, henters, hvisits]
  rfl

/-- While the current generation is not broken, every step keeps the balance
or is the last one of its task. -/
theorem Even.step [DecidableEq ω] (heven : queue.Even) (hinv : queue.Inv) (hregular : queue.Regular)
    (hbroken : ¬ queue.Broken) (hroom : checked = true ∨ queue.atom.waits + 1 < half)
    (hstep : Step checked queue task (queue.point task) queue') :
    queue'.point task = .panicked ∨ queue'.Broken ∨ queue'.Even := by
  have hself := hregular task
  have hexp := hinv.expansion
  -- a sweep of the current generation would break it
  have hsweeps {generation index : ℕ}
      (hswept : (queue.point task).sweptTo = some (generation, index)) : False := by
    have hsweeps := Point.sweeps_of_sweptTo hswept
    have hcurrent := (hexp.swept task generation index hswept).1.trans
      (hexp.last task generation hsweeps).symm
    exact hbroken (Or.inl ⟨task, Or.inr (hcurrent ▸ hsweeps)⟩)
  generalize hbefore : queue.point task = before at hstep hself hsweeps
  cases hstep with
  | @quiet _ after hquiet =>
      rcases hquiet.evens queue.atom.generation with rfl | rfl | hweights
      · exact Or.inr (Or.inl (Or.inl ⟨task, Or.inl (by simp)⟩))
      · exact Or.inl (by simp)
      · rw [← hbefore] at hweights
        exact Or.inr (Or.inr (heven.moves rfl rfl rfl hweights))
  | @waits waker waits hadd =>
      obtain ⟨rfl, hbounded⟩ := add_of_room hroom hadd
      exact Or.inr (Or.inr (heven.waits hbefore hbounded))
  | @registers waker generation iteration hbucket =>
      refine Or.inr (Or.inr (heven.exchanges hbucket rfl rfl rfl (fun _ _ _ => ⟨rfl, rfl⟩) ?_ ?_))
      · rw [hbefore]
        exact fun other cap index hne => ⟨if_neg hne, rfl⟩
      · simp [hbefore, Bucket.waits, Bucket.marks, Point.visits, Point.enters, index,
          Generation.index, capacity]
  | @consumes waker generation iteration next hbucket =>
      refine Or.inr (Or.inr (heven.exchanges hbucket rfl rfl rfl (fun _ _ _ => ⟨rfl, rfl⟩) ?_ ?_))
      · rw [hbefore]
        exact fun other cap index hne => ⟨if_neg hne, rfl⟩
      · simp [hbefore, Bucket.waits, Bucket.marks, Point.visits, Point.enters, index,
          Generation.index, capacity]
  | abandons =>
      refine Or.inr (Or.inr (heven.moves rfl rfl rfl fun _ _ => ?_))
      rw [hbefore]
      exact ⟨rfl, rfl⟩
  | @registersAgain waker generation iteration old hbucket =>
      refine Or.inr (Or.inr (heven.exchanges hbucket rfl rfl rfl (fun _ _ _ => ⟨rfl, rfl⟩) ?_ ?_))
      · rw [hbefore]
        exact fun other cap index hne => ⟨rfl, rfl⟩
      · rw [hbefore]
        rfl
  | @leaves waker generation iteration next hbucket =>
      refine Or.inr (Or.inr (heven.exchanges hbucket rfl rfl rfl (fun _ _ _ => ⟨rfl, rfl⟩) ?_ ?_))
      · rw [hbefore]
        exact fun other cap index hne => ⟨rfl, rfl⟩
      · rw [hbefore]
        rfl
  | leavesPanicking => exact Or.inl (by simp)
  | leavesExpanding waker generation iteration =>
      refine Or.inr (Or.inr (heven.moves rfl rfl rfl fun _ _ => ?_))
      rw [hbefore]
      exact ⟨rfl, rfl⟩
  | @notifies called amount sum hadd =>
      obtain rfl : amount = 1 := hself
      obtain ⟨rfl, -⟩ := add_of_room (hroom.imp_right fun hlt =>
        Nat.lt_of_le_of_lt (Nat.succ_le_succ heven.below) hlt) hadd
      exact Or.inr (Or.inr (heven.notifies hbefore))
  | @takes generation iteration last waker hbucket =>
      refine Or.inr (Or.inr (heven.exchanges hbucket rfl rfl rfl (fun _ _ _ => ⟨rfl, rfl⟩) ?_ ?_))
      · rw [hbefore]
        exact fun other cap index hne => ⟨rfl, if_neg hne⟩
      · simp [hbefore, Bucket.waits, Bucket.marks, Point.visits, Point.enters, index,
          Generation.index, capacity]
  | @marks generation iteration last hbucket =>
      obtain rfl : last = iteration + 1 := hself.2
      rw [visit_of_eq]
      refine Or.inr (Or.inr (heven.exchanges hbucket rfl rfl rfl (fun _ _ _ => ⟨rfl, rfl⟩) ?_ ?_))
      · rw [hbefore]
        exact fun other cap index hne => ⟨rfl, if_neg hne⟩
      · simp [hbefore, Bucket.waits, Bucket.marks, Point.visits, Point.enters, index,
          Generation.index, capacity]
  | notifyWakes generation iteration last waker =>
      obtain rfl : last = iteration + 1 := hself
      rw [visit_of_eq]
      refine Or.inr (Or.inr (heven.moves rfl rfl rfl fun _ _ => ?_))
      rw [hbefore]
      exact ⟨rfl, rfl⟩
  | locks hlock hpoisoned =>
      exact absurd (Or.inl ⟨task, Or.inl (by rw [hbefore, hexp.unlocked hlock])⟩) hbroken
  | buriesWaiting => exact (hsweeps rfl).elim
  | buries => exact (hsweeps rfl).elim
  | expandWakes => exact (hsweeps rfl).elim
  | fails => exact (hsweeps rfl).elim
  | grows => exact (hsweeps rfl).elim
  | pushes =>
      refine Or.inr (Or.inr (heven.moves rfl rfl rfl fun _ _ => ?_))
      rw [hbefore]
      exact ⟨rfl, rfl⟩

omit [DecidableEq τ] in
/-- When all waits have their notification, somebody is on the way to every
waker. -/
theorem Even.visited (heven : queue.Even) (hall : queue.atom.notifies = queue.atom.waits)
    {index : ℕ} (hindex : index < queue.capacity queue.atom.generation) {waker : ω}
    (hwaiting : (queue.generations queue.atom.generation).waiters index = .waiting waker) :
    ∃ other, (∃ iteration last,
        queue.point other = .bucketLoad queue.atom.generation iteration last) ∨
      ∃ iteration last old,
        queue.point other = .bucketCas queue.atom.generation iteration last old := by
  have hflush := heven.flush index hindex
  unfold Flush at hflush
  rw [hwaiting, hall] at hflush
  simp only [Bucket.waits, Bucket.marks] at hflush
  obtain ⟨other, hother⟩ := exists_of_tally (Point.visits queue.atom.generation
    (queue.capacity queue.atom.generation) index) queue.point (by omega)
  exact ⟨other, Point.visits_pos hother⟩

theorem laps_mono (cap : ℕ) {first second : ℕ} (hle : first ≤ second) (bucket : ℕ) :
    laps cap first bucket ≤ laps cap second bucket :=
  Nat.count_monotone _ hle

/-- A notification that finds its bucket empty is ahead of a wait. -/
theorem Even.awaited (heven : queue.Even) {iteration other last : ℕ}
    {old : Bucket ω}
    (hpoint : queue.point task = .bucketCas queue.atom.generation iteration last old)
    (hindex : queue.index queue.atom.generation iteration <
      queue.capacity queue.atom.generation)
    (hbucket : queue.bucket queue.atom.generation iteration = .empty other) :
    ∃ waiter waker iteration' current,
      queue.point waiter = .enterBucket waker queue.atom.generation iteration' current := by
  have hflush := heven.flush _ hindex
  have hlaps := laps_mono (queue.capacity queue.atom.generation) heven.below
    (queue.index queue.atom.generation iteration)
  have hvisits := tally_update (Point.visits queue.atom.generation
    (queue.capacity queue.atom.generation) (queue.index queue.atom.generation iteration))
      queue.point task .rest
  have hone : (queue.point task).visits queue.atom.generation
      (queue.capacity queue.atom.generation) (queue.index queue.atom.generation iteration) =
        1 := by
    rw [hpoint]
    exact if_pos ⟨rfl, rfl⟩
  rw [hone] at hvisits
  unfold Flush at hflush
  rw [show (queue.generations queue.atom.generation).waiters
    (queue.index queue.atom.generation iteration) = .empty other from hbucket] at hflush
  simp only [Bucket.waits, Bucket.marks, Point.visits] at hflush hvisits
  obtain ⟨waiter, hwaiter⟩ := exists_of_tally (Point.enters queue.atom.generation
    (queue.capacity queue.atom.generation) (queue.index queue.atom.generation iteration))
      queue.point (by omega)
  obtain ⟨waker, iteration', current, hat⟩ := Point.enters_pos hwaiter
  exact ⟨waiter, waker, iteration', current, hat⟩

end Queue

end Futex2

end AsyncMutex
