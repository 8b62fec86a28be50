import AsyncMutex.Futex2Ownership
import AsyncMutex.Tally
import Mathlib.Data.Nat.Count

/-!
# The levels of the buckets

In the current generation each bucket is at a level: the waits that go there and
the notifications that went there even out.  Every step keeps the levels, unless a
task met a mismatched bucket: then every bucket is going to be buried.
-/

namespace AsyncMutex

namespace Futex2

/-- How many of the iterations below `count` have this bucket. -/
def laps (cap count bucket : ℕ) : ℕ := Nat.count (fun iteration => iteration % cap = bucket) count

theorem laps_succ (cap count bucket : ℕ) :
    laps cap (count + 1) bucket = laps cap count bucket + if count % cap = bucket then 1 else 0 :=
  Nat.count_succ ..

/-- A wait that has its iteration and has not reached its bucket. -/
def Point.enters {ω : Type} (generation cap bucket : ℕ) : Point ω → ℕ
  | .enterBucket _ other iteration _ =>
      if other = generation ∧ iteration % cap = bucket then 1 else 0
  | _ => 0

/-- A notification that has its iteration and has not reached its bucket. -/
def Point.visits {ω : Type} (generation cap bucket : ℕ) : Point ω → ℕ
  | .bucketLoad other iteration _ =>
      if other = generation ∧ iteration % cap = bucket then 1 else 0
  | .bucketCas other iteration _ _ =>
      if other = generation ∧ iteration % cap = bucket then 1 else 0
  | _ => 0

def Bucket.waits {ω : Type} : Bucket ω → ℕ
  | .waiting _ => 1
  | _ => 0

def Bucket.marks {ω : Type} : Bucket ω → ℕ
  | .woken _ => 1
  | _ => 0

/-- Every notification is for one future, and no task is ahead of the current
generation. -/
def Point.Regular {ω : Type} (current : ℕ) : Point ω → Prop
  | .enterBucket _ generation _ _ => generation ≤ current
  | .notifyLoad _ amount => amount = 1
  | .notifyCas _ amount _ => amount = 1
  | .bucketLoad generation iteration last => generation ≤ current ∧ last = iteration + 1
  | .bucketCas generation iteration last _ => generation ≤ current ∧ last = iteration + 1
  | .notifyWake _ iteration last _ => last = iteration + 1
  | .expandLock generation => generation ≤ current
  | _ => True

theorem Point.Regular.mono {ω : Type} {point : Point ω} {first second : ℕ}
    (hregular : point.Regular first) (hle : first ≤ second) : point.Regular second := by
  cases point <;> simp only [Point.Regular] at hregular ⊢ <;> omega

theorem add_le {checked : Bool} {first second sum : ℕ}
    (hadd : add checked first second = some sum) : sum ≤ first + second := by
  unfold add at hadd
  split at hadd
  case isTrue =>
    cases hadd
    exact Nat.le_refl _
  case isFalse =>
    split at hadd
    case isTrue => cases hadd
    case isFalse =>
      cases hadd
      exact Nat.mod_le _ _

/-- The counters wrap around only at `2 ^ 32`. -/
theorem add_one {checked : Bool} {count sum : ℕ} (hcount : count < half)
    (hadd : add checked count 1 = some sum) :
    sum = count + 1 ∨ (count + 1 = half ∧ sum = 0) := by
  unfold add at hadd
  split at hadd
  case isTrue =>
    cases hadd
    exact Or.inl rfl
  case isFalse hlt =>
    have heq : count + 1 = half := by omega
    split at hadd
    case isTrue => cases hadd
    case isFalse =>
      rw [heq, Nat.mod_self] at hadd
      cases hadd
      exact Or.inr ⟨heq, rfl⟩

/-- A wait in this generation that its task has not made up for. -/
def owing (generation : ℕ) (debt : Option ℕ) : ℕ := if debt = some generation then 1 else 0

@[simp] theorem owing_none (generation : ℕ) : owing generation none = 0 := rfl

@[simp] theorem owing_self (generation : ℕ) : owing generation (some generation) = 1 :=
  if_pos rfl

/-- What becomes of the debt of a task at a step. -/
def Point.settle {ω : Type} : Point ω → Point ω → Option ℕ → Option ℕ
  | .enterCas _ _, .enterBucket _ generation _ _, _ => some generation
  | .notifyCas _ _ _, .notifyCas _ _ _, debt => debt
  | .notifyCas _ _ _, .panicked, debt => debt
  | .notifyCas true _ _, _, _ => none
  | _, _, debt => debt

namespace Queue

variable {τ ω : Type} [Fintype τ]

/-- In this bucket every wait is on its way, waiting or served. -/
def Level (generation cap served waits index : ℕ) (bucket : Bucket ω) (point : τ → Point ω) :
    Prop :=
  bucket.waits + tally (Point.enters generation cap index) point + laps cap served index ≤
    bucket.marks + tally (Point.visits generation cap index) point + laps cap waits index

/-- The first `served` iterations of the current generation have their
notification, and the debts cover the others. -/
structure Balanced (queue : Queue τ ω) (served : ℕ) (debt : τ → Option ℕ) : Prop where
  bounded : queue.atom.waits < half
  served_le : served ≤ queue.atom.waits
  notifies_le : queue.atom.notifies ≤ served
  /-- The counter of notifications wraps around only when all waits of the
  generation are served. -/
  notifies_eq : queue.atom.notifies = served ∨
    (served = queue.atom.waits ∧ queue.atom.waits + 1 = half)
  owed : queue.atom.waits ≤ served + tally (owing queue.atom.generation) debt
  level : ∀ index < queue.capacity queue.atom.generation,
    Level queue.atom.generation (queue.capacity queue.atom.generation) served
      queue.atom.waits index ((queue.generations queue.atom.generation).waiters index)
      queue.point

/-- A task met a mismatched bucket of the current generation. -/
def Broken (queue : Queue τ ω) : Prop :=
  queue.Expands queue.atom.generation ∨
    ∃ index < queue.capacity queue.atom.generation,
      queue.Buried queue.atom.generation index

variable [DecidableEq τ] {checked : Bool} {queue queue' : Queue τ ω}
  {task : τ} {served : ℕ} {debt : τ → Option ℕ}

/-- A task moves on, and what it changes evens out. -/
theorem Level.update {generation cap served served' waits waits' index : ℕ}
    {bucket bucket' : Bucket ω} {point : τ → Point ω} {after : Point ω}
    (hlevel : Level generation cap served waits index bucket point)
    (hchange : bucket'.waits + after.enters generation cap index + laps cap served' index +
        (bucket.marks + (point task).visits generation cap index + laps cap waits index) ≤
      bucket.waits + (point task).enters generation cap index + laps cap served index +
        (bucket'.marks + after.visits generation cap index + laps cap waits' index)) :
    Level generation cap served' waits' index bucket' (Function.update point task after) := by
  have henters := tally_update (Point.enters generation cap index) point task after
  have hvisits := tally_update (Point.visits generation cap index) point task after
  unfold Level at hlevel ⊢
  omega

omit [DecidableEq τ] in
/-- A step that changes at most one bucket keeps the balance when the task
accounts for the change. -/
theorem Balanced.of_level (hbal : queue.Balanced served debt) (hatom : queue'.atom = queue.atom)
    (hcap : queue'.capacity queue.atom.generation = queue.capacity queue.atom.generation)
    (hlevel : ∀ index < queue.capacity queue.atom.generation,
      Level queue.atom.generation (queue.capacity queue.atom.generation) served
        queue.atom.waits index ((queue'.generations queue.atom.generation).waiters index)
        queue'.point) : queue'.Balanced served debt := by
  constructor
  case bounded => rw [hatom]; exact hbal.bounded
  case served_le => rw [hatom]; exact hbal.served_le
  case notifies_le => rw [hatom]; exact hbal.notifies_le
  case notifies_eq => rw [hatom]; exact hbal.notifies_eq
  case owed => rw [hatom]; exact hbal.owed
  case level => rw [hatom, hcap]; exact hlevel

/-- A step that changes no bucket of the current generation. -/
theorem Balanced.moves (hbal : queue.Balanced served debt) {after : Point ω}
    (hatom : queue'.atom = queue.atom)
    (hsame : queue'.generations queue.atom.generation =
      queue.generations queue.atom.generation)
    (hpoint : queue'.point = Function.update queue.point task after)
    (henters : ∀ cap index, after.enters queue.atom.generation cap index ≤
      (queue.point task).enters queue.atom.generation cap index)
    (hvisits : ∀ cap index, (queue.point task).visits queue.atom.generation cap index ≤
      after.visits queue.atom.generation cap index) :
    queue'.Balanced served debt := by
  refine hbal.of_level hatom (by rw [capacity, capacity, hsame]) fun index hindex => ?_
  rw [hpoint, hsame]
  refine (hbal.level index hindex).update ?_
  have henters := henters (queue.capacity queue.atom.generation) index
  have hvisits := hvisits (queue.capacity queue.atom.generation) index
  omega

/-- The bucket of an iteration is exchanged. -/
theorem Balanced.exchanges (hbal : queue.Balanced served debt) {after : Point ω}
    {generation iteration : ℕ} {old new : Bucket ω}
    (hbucket : queue.bucket generation iteration = old)
    (hatom : queue'.atom = queue.atom)
    (hgenerations : queue'.generations =
      (queue.setBucket generation (queue.index generation iteration) new).generations)
    (hpoint : queue'.point = Function.update queue.point task after)
    (hafter : ∀ generation cap index, after.enters generation cap index = 0)
    (hvisits : ∀ other cap index, ¬ (generation = other ∧ iteration % cap = index) →
      (queue.point task).visits other cap index = 0)
    (hat : new.waits + old.marks +
        (queue.point task).visits generation (queue.capacity generation)
          (queue.index generation iteration) ≤
      old.waits + new.marks +
        (queue.point task).enters generation (queue.capacity generation)
          (queue.index generation iteration)) :
    queue'.Balanced served debt := by
  have hcap : queue'.capacity queue.atom.generation = queue.capacity queue.atom.generation := by
    rw [capacity, hgenerations]
    exact capacity_setBucket ..
  refine hbal.of_level hatom hcap fun index hindex => ?_
  rw [hpoint, hgenerations, waiters_setBucket]
  refine (hbal.level index hindex).update ?_
  rw [hafter]
  split
  case isTrue hhere =>
    obtain ⟨rfl, rfl⟩ := hhere
    have hold : (queue.generations queue.atom.generation).waiters
        (queue.index queue.atom.generation iteration) = old := hbucket
    rw [hold]
    omega
  case isFalse hhere =>
    have hzero := hvisits queue.atom.generation (queue.capacity queue.atom.generation) index
      fun hsame => hhere ⟨hsame.1.symm, by
        rw [← hsame.2, ← hsame.1]; rfl⟩
    omega

/-- The task exchanges the atom for the one of a new generation. -/
def grown (queue : Queue τ ω) (task : τ) (generation : ℕ) (new : Generation ω) : Queue τ ω :=
  ((queue.setGeneration (queue.last + 1) new).setAtom ⟨queue.last + 1, 0, 0⟩).setPoint task
    (.expandPush generation)

omit [Fintype τ] in
/-- A step stays in the current generation or begins a new one. -/
theorem Step.current [DecidableEq ω] (hstep : Step checked queue task (queue.point task) queue') :
    (queue'.atom.generation = queue.atom.generation ∧
      ∀ generation, queue'.capacity generation = queue.capacity generation) ∨
    ∃ generation index new, queue.point task = .expandSwap generation index ∧
      Generation.new (queue.capacity generation * 2) = some new ∧
      queue' = queue.grown task generation new := by
  generalize hbefore : queue.point task = before at hstep
  cases hstep with
  | registers => exact Or.inl ⟨rfl, fun _ => capacity_setBucket ..⟩
  | @consumes waker generation iteration next hbucket =>
      exact Or.inl ⟨rfl, fun _ => capacity_setBucket ..⟩
  | registersAgain => exact Or.inl ⟨rfl, fun _ => capacity_setBucket ..⟩
  | @leaves waker generation iteration next hbucket =>
      exact Or.inl ⟨rfl, fun _ => capacity_setBucket ..⟩
  | takes => exact Or.inl ⟨rfl, fun _ => capacity_setBucket ..⟩
  | marks => exact Or.inl ⟨rfl, fun _ => capacity_setBucket ..⟩
  | buriesWaiting => exact Or.inl ⟨rfl, fun _ => capacity_setBucket ..⟩
  | buries => exact Or.inl ⟨rfl, fun _ => capacity_setBucket ..⟩
  | @grows generation index new hindex hnew =>
      exact Or.inr ⟨generation, index, new, rfl, hnew, rfl⟩
  | _ => exact Or.inl ⟨rfl, fun _ => rfl⟩

omit [Fintype τ] [DecidableEq τ] in
theorem Expansion.of_poisoned (hexp : queue.Expansion) (hpoisoned : queue.poisoned = true) :
    ∃ index < queue.capacity queue.atom.generation,
      queue.Buried queue.atom.generation index := by
  have hpositive := hexp.positive queue.atom.generation (Nat.le_refl _)
  exact ⟨0, hpositive, hexp.poisoned hpoisoned 0 hpositive⟩

omit [Fintype τ] in
/-- A broken generation stays so until the next one begins. -/
theorem Broken.step [DecidableEq ω] (hbroken : queue.Broken) (hexp : queue.Expansion)
    (hstep : Step checked queue task (queue.point task) queue')
    (hgeneration : queue'.atom.generation = queue.atom.generation)
    (hcapacity : queue'.capacity queue.atom.generation =
      queue.capacity queue.atom.generation) : queue'.Broken := by
  have hstays : (∃ index < queue.capacity queue.atom.generation,
      queue.Buried queue.atom.generation index) → queue'.Broken := by
    rintro ⟨index, hindex, hburied⟩
    refine Or.inr ⟨index, ?_, ?_⟩
    · rw [hgeneration, hcapacity]
      exact hindex
    · rw [hgeneration]
      exact (hstep.buried hexp (Nat.le_refl _) hburied).2
  rcases hbroken with ⟨other, hother⟩ | hburied
  case inr => exact hstays hburied
  by_cases htask : other = task
  case neg =>
    refine Or.inl ⟨other, ?_⟩
    rw [hstep.others htask, hgeneration]
    exact hother
  subst htask
  have hsweeps (hafter : (queue'.point other).sweeps = some queue.atom.generation) :
      queue'.Broken := Or.inl ⟨other, Or.inr (hgeneration ▸ hafter)⟩
  generalize hbefore : queue.point other = before at hstep hother
  rcases hother with hother | hother
  · cases hstep with
    | quiet hquiet =>
        cases hquiet with
        | expandPanics hpoisoned => exact hstays (hexp.of_poisoned hpoisoned)
        | expandReturns hlock hlast =>
            cases hother
            exact absurd (hexp.unlocked hlock).symm hlast
        | _ => cases hother
    | locks hlock hpoisoned =>
        exact hsweeps (by simp [Point.sweeps, hexp.unlocked hlock])
    | _ => cases hother
  · cases hstep with
    | quiet hquiet => simp [hquiet.sweeps.1] at hother
    | buriesWaiting => exact hsweeps (by simpa [Point.sweeps] using hother)
    | buries => exact hsweeps (by simpa [Point.sweeps] using hother)
    | expandWakes => exact hsweeps (by simpa [Point.sweeps] using hother)
    | @fails generation index hindex =>
        -- the sweep buried every bucket before it failed
        have hpositive := hexp.positive queue.atom.generation (Nat.le_refl _)
        have hburied := (hexp.swept other generation index (by rw [hbefore]; rfl)).2
        simp only [Point.sweeps, Option.some.injEq] at hother
        subst hother
        refine hstays ⟨0, hpositive, hburied 0 ?_⟩
        exact Nat.lt_of_lt_of_le hpositive (Nat.le_of_not_lt hindex)
    | @grows generation index new hindex hnew =>
        have hlast := (hexp.swept other generation index (by rw [hbefore]; rfl)).1
        simp [hlast] at hgeneration
    | pushes generation =>
        have hpushing := hexp.pushing other generation hbefore
        have hlast := hexp.last other generation (by rw [hbefore]; rfl)
        simp only [Point.sweeps, Option.some.injEq] at hother
        omega
    | _ => simp [Point.sweeps] at hother

/-! ## The steps of the tasks -/

def Regular (queue : Queue τ ω) : Prop :=
  ∀ task, (queue.point task).Regular queue.atom.generation

theorem visit_of_eq (generation iteration : ℕ) :
    (visit generation (iteration + 1) (iteration + 1) : Point ω) = .rest := by
  simp [visit]

omit [Fintype τ] [DecidableEq τ] in
theorem Quiet.regular {before after : Point ω} (hquiet : Quiet checked queue task before after)
    (hregular : before.Regular queue.atom.generation)
    (hone : ∀ called amount, before = .rest → after = .notifyLoad called amount → amount = 1) :
    after.Regular queue.atom.generation := by
  cases hquiet with
  | notify amount => exact hone _ _ rfl rfl
  | bucketAgain => exact hregular
  | bucketExpands => exact hregular
  | notifyLoad => exact hregular
  | notifyAgain => exact hregular
  | visitLoad => exact hregular
  | visitAgain => exact hregular
  | visitExpands => exact hregular.1
  | _ => trivial

omit [Fintype τ] in
/-- The tasks go on for one future at a time. -/
theorem Regular.step [DecidableEq ω] (hregular : queue.Regular) (hinv : queue.Inv)
    (hstep : Step checked queue task (queue.point task) queue')
    (hone : ∀ called amount, queue.point task = .rest →
      queue'.point task = .notifyLoad called amount → amount = 1) : queue'.Regular := by
  have hle : queue.atom.generation ≤ queue'.atom.generation := by
    rcases hstep.current with hsame | ⟨generation, index, new, hbefore, -, rfl⟩
    · exact Nat.le_of_eq hsame.1.symm
    · have hlast := (hinv.expansion.swept task generation index (by rw [hbefore]; rfl)).1
      simp [grown, hlast]
  intro other
  by_cases hother : other = task
  case neg =>
    rw [hstep.others hother]
    exact (hregular other).mono hle
  subst hother
  have hself := hregular other
  have hslot := hinv.slots.fits other
  refine Point.Regular.mono ?_ hle
  generalize hbefore : queue.point other = before at hstep hself hslot hone
  cases hstep with
  | quiet hquiet =>
      rw [setPoint_point, Function.update_self]
      exact hquiet.regular hself fun called amount hrest hafter =>
        hone called amount hrest (by simpa using hafter)
  | waits => simp [Point.Regular]
  | abandons => simp [Point.Regular]
  | @leavesExpanding waker generation iteration =>
      simpa [Point.Regular] using hinv.slots.current other generation iteration hslot.1
  | @notifies called amount sum hadd =>
      obtain rfl : amount = 1 := hself
      have hsum := add_le hadd
      rw [setPoint_point, Function.update_self]
      unfold visit
      split
      case isTrue hlt =>
        refine ⟨Nat.le_refl _, ?_⟩
        have hmin := Nat.min_le_left sum queue.atom.waits
        omega
      case isFalse => trivial
  | takes => simpa [Point.Regular] using hself.2
  | marks => simp [hself.2, visit_of_eq, Point.Regular]
  | @notifyWakes generation iteration last waker =>
      obtain rfl : last = iteration + 1 := hself
      simp [visit_of_eq, Point.Regular]
  | _ => simp [Point.Regular]

/-- The task takes the next iteration for its wait. -/
theorem Balanced.waits (hbal : queue.Balanced served debt) {waker : ω} {atom : Atom}
    (hbefore : queue.point task = .enterCas waker atom)
    (hfew : queue.atom.waits + 1 < half) (hdebt : debt task = none) :
    ((queue.setAtom { queue.atom with waits := queue.atom.waits + 1 }).setPoint task
      (.enterBucket waker queue.atom.generation queue.atom.waits
        (.empty queue.atom.waits))).Balanced served
          (Function.update debt task (some queue.atom.generation)) := by
  have hle := hbal.served_le
  constructor
  case bounded => exact hfew
  case served_le => exact Nat.le_succ_of_le hle
  case notifies_le => exact hbal.notifies_le
  case notifies_eq =>
    refine Or.inl (hbal.notifies_eq.resolve_right ?_)
    rintro ⟨-, hfull⟩
    omega
  case owed =>
    have howed := hbal.owed
    have htally := tally_update (owing queue.atom.generation) debt task
      (some queue.atom.generation)
    rw [hdebt, owing_none, owing_self] at htally
    change queue.atom.waits + 1 ≤ served + tally (owing queue.atom.generation)
      (Function.update debt task (some queue.atom.generation))
    omega
  case level =>
    intro index hindex
    refine (hbal.level index hindex).update ?_
    have hlaps := laps_succ (queue.capacity queue.atom.generation) queue.atom.waits index
    have hone : (Point.enterBucket waker queue.atom.generation queue.atom.waits
        (.empty queue.atom.waits)).enters queue.atom.generation
          (queue.capacity queue.atom.generation) index =
        if queue.atom.waits % queue.capacity queue.atom.generation = index then 1 else 0 := by
      simp [Point.enters]
    rw [hbefore]
    change ((queue.generations queue.atom.generation).waiters index).waits +
        (Point.enterBucket waker queue.atom.generation queue.atom.waits
          (.empty queue.atom.waits)).enters queue.atom.generation
            (queue.capacity queue.atom.generation) index + _ + (_ + 0 + _) ≤ _ + 0 + _ +
      (((queue.generations queue.atom.generation).waiters index).marks + 0 +
        laps (queue.capacity queue.atom.generation) (queue.atom.waits + 1) index)
    rw [hone, hlaps]
    omega

theorem visit_enters (generation iteration last other cap index : ℕ) :
    (visit generation iteration last : Point ω).enters other cap index = 0 := by
  unfold visit
  split <;> rfl

/-- The task notifies one future, for a wait of its own or for another one. -/
theorem Balanced.notifies (hbal : queue.Balanced served debt) {debt' : τ → Option ℕ}
    {called : Bool} {atom : Atom} {sum : ℕ} (hbefore : queue.point task = .notifyCas called 1 atom)
    (hadd : add checked queue.atom.notifies 1 = some sum)
    (hdebt : tally (owing queue.atom.generation) debt ≤
      tally (owing queue.atom.generation) debt' + 1) :
    ∃ served', ((queue.setAtom { queue.atom with
      notifies := min sum queue.atom.waits }).setPoint task
        (visit queue.atom.generation queue.atom.notifies
          (min sum queue.atom.waits))).Balanced served' debt' := by
  have hle := hbal.served_le
  have hbounded := hbal.bounded
  have hnotifies := hbal.notifies_le
  have howed := hbal.owed
  by_cases hall : served = queue.atom.waits
  · -- nothing is left to serve
    refine ⟨served, hbounded, hle, ?_, ?_, ?_, ?_⟩
    · rw [hall]
      exact Nat.min_le_right _ _
    · change min sum queue.atom.waits = served ∨
        (served = queue.atom.waits ∧ queue.atom.waits + 1 = half)
      rcases hbal.notifies_eq with heq | hfull
      · rcases add_one (by omega) hadd with rfl | ⟨hwrap, -⟩
        · exact Or.inl (by omega)
        · exact Or.inr ⟨hall, by omega⟩
      · exact Or.inr hfull
    · change queue.atom.waits ≤ served + tally (owing queue.atom.generation) debt'
      omega
    · intro index hindex
      refine (hbal.level index hindex).update ?_
      rw [hbefore, visit_enters]
      simp only [Point.enters, Point.visits, setPoint_atom, setAtom_atom, setPoint_generations,
        setAtom_generations]
      omega
  · -- the notification goes to the next iteration
    have heq : queue.atom.notifies = served :=
      hbal.notifies_eq.resolve_right fun hfull => hall hfull.1
    have hsum : min sum queue.atom.waits = queue.atom.notifies + 1 := by
      rcases add_one (by omega) hadd with rfl | ⟨hwrap, -⟩ <;> omega
    rw [hsum]
    refine ⟨served + 1, hbounded, ?_, ?_, ?_, ?_, ?_⟩
    · exact Nat.lt_of_le_of_ne hle hall
    · exact Nat.succ_le_succ hnotifies
    · exact Or.inl (congrArg (· + 1) heq)
    · change queue.atom.waits ≤ served + 1 + tally (owing queue.atom.generation) debt'
      omega
    · intro index hindex
      refine (hbal.level index hindex).update ?_
      have hlaps := laps_succ (queue.capacity queue.atom.generation) served index
      rw [hbefore, visit_enters]
      simp only [visit, Nat.lt_succ_self, if_true, Point.enters, Point.visits, setPoint_atom,
        setAtom_atom, setPoint_generations, setAtom_generations, true_and]
      change _ + 0 + laps (queue.capacity queue.atom.generation) (served + 1) index +
        (_ + 0 + _) ≤ _ + 0 + _ + (_ + (if queue.atom.notifies %
          queue.capacity queue.atom.generation = index then 1 else 0) + _)
      rw [hlaps, heq]
      omega

/-- A new generation has neither waits nor notifications. -/
theorem Balanced.grows (hinv : queue.Inv) (hregular : queue.Regular) {generation index : ℕ}
    {new : Generation ω} (hbefore : queue.point task = .expandSwap generation index)
    (hnew : Generation.new (queue.capacity generation * 2) = some new) :
    (queue.grown task generation new).Balanced 0 debt := by
  have hlast := (hinv.expansion.swept task generation index (by rw [hbefore]; rfl)).1
  have hempty : ∀ index, (new.waiters index).waits = 0 := by
    unfold Generation.new at hnew
    split at hnew <;> cases hnew
    exact fun _ => rfl
  have henters (cap index : ℕ) :
      tally (Point.enters (queue.last + 1) cap index)
        (queue.grown task generation new).point = 0 := by
    refine tally_eq_zero fun other => ?_
    have hother := (hregular other).mono (Nat.le_of_eq hlast)
    by_cases heq : other = task
    · simp [grown, heq, Point.enters]
    · have hsame : (queue.grown task generation new).point other = queue.point other := by
        simp [grown, heq]
      rw [hsame]
      cases hpoint : queue.point other with
      | enterBucket waker ahead iteration current =>
          rw [hpoint] at hother
          have hne : ahead ≠ queue.last + 1 := Nat.ne_of_lt (Nat.lt_succ_of_le hother)
          simp [Point.enters, hne]
      | _ => rfl
  have hbounded : 0 < half := by decide
  refine ⟨hbounded, Nat.le_refl _, Nat.le_refl _, Or.inl rfl, Nat.zero_le _, ?_⟩
  intro index _
  have hwaits : (((queue.grown task generation new).generations
      (queue.last + 1)).waiters index).waits = 0 := by
    simp [grown, hempty]
  change _ + _ + 0 ≤ _
  rw [show (queue.grown task generation new).atom.generation = queue.last + 1 from rfl,
    hwaits, henters]
  exact Nat.zero_le _

omit [Fintype τ] [DecidableEq τ] in
theorem Quiet.settle {before after : Point ω} (hquiet : Quiet checked queue task before after)
    (owed : Option ℕ) : before.settle after owed = owed := by
  cases hquiet with
  | notifyAgain called => cases called <;> rfl
  | notifyPanics called => cases called <;> rfl
  | _ => rfl

omit [Fintype τ] [DecidableEq τ] in
/-- A notification that meets a mismatched bucket breaks the generation; any
other quiet step keeps the balance. -/
theorem Quiet.weights {before after : Point ω} (hquiet : Quiet checked queue task before after)
    (current : ℕ) : after = .expandLock current ∨
      ∀ cap index, after.enters current cap index ≤ before.enters current cap index ∧
        before.visits current cap index ≤ after.visits current cap index := by
  cases hquiet with
  | visitExpands generation iteration last old =>
      by_cases hcurrent : generation = current
      · exact Or.inl (congrArg _ hcurrent)
      · exact Or.inr fun cap index => by simp [Point.enters, Point.visits, hcurrent]
  | _ => exact Or.inr fun cap index => ⟨by simp [Point.enters], by simp [Point.visits]⟩

/-- While the current generation is not broken, every step keeps its balance. -/
theorem Balanced.step [DecidableEq ω] (hbal : queue.Balanced served debt) (hinv : queue.Inv)
    (hregular : queue.Regular) (hbroken : ¬ queue.Broken)
    (hstep : Step checked queue task (queue.point task) queue')
    (hdebt : ∀ waker atom, queue.point task = .enterCas waker atom → debt task = none)
    (hfew : ∀ waker atom generation iteration current,
      queue.point task = .enterCas waker atom →
        queue'.point task = .enterBucket waker generation iteration current →
          queue.atom.waits + 1 < half) :
    queue'.Broken ∨ ∃ served', queue'.Balanced served' (Function.update debt task
      ((queue.point task).settle (queue'.point task) (debt task))) := by
  have hself := hregular task
  have hexp := hinv.expansion
  -- a sweep of the current generation would break it
  have hsweeps {generation index : ℕ}
      (hswept : (queue.point task).sweptTo = some (generation, index)) : False := by
    have hsweeps := Point.sweeps_of_sweptTo hswept
    have hcurrent := (hexp.swept task generation index hswept).1.trans
      (hexp.last task generation hsweeps).symm
    exact hbroken (Or.inl ⟨task, Or.inr (hcurrent ▸ hsweeps)⟩)
  have hmoves {after : Point ω} (hatom : queue'.atom = queue.atom)
      (hsame : queue'.generations = queue.generations)
      (hpoint : queue'.point = Function.update queue.point task after)
      (hsettle : (queue.point task).settle after (debt task) = debt task)
      (hweights : ∀ cap index, after.enters queue.atom.generation cap index ≤
          (queue.point task).enters queue.atom.generation cap index ∧
        (queue.point task).visits queue.atom.generation cap index ≤
          after.visits queue.atom.generation cap index) :
      queue'.Broken ∨ ∃ served', queue'.Balanced served' (Function.update debt task
        ((queue.point task).settle (queue'.point task) (debt task))) := by
    refine Or.inr ⟨served, ?_⟩
    rw [hpoint, Function.update_self, hsettle, Function.update_eq_self]
    exact hbal.moves hatom (by rw [hsame]) hpoint (fun cap index => (hweights cap index).1)
      fun cap index => (hweights cap index).2
  have hexchanges {generation iteration : ℕ} {old new : Bucket ω} {after : Point ω}
      (hbucket : queue.bucket generation iteration = old)
      (hatom : queue'.atom = queue.atom)
      (hgenerations : queue'.generations =
        (queue.setBucket generation (queue.index generation iteration) new).generations)
      (hpoint : queue'.point = Function.update queue.point task after)
      (hsettle : (queue.point task).settle after (debt task) = debt task)
      (hafter : ∀ generation cap index, after.enters generation cap index = 0)
      (hvisits : ∀ other cap index, ¬ (generation = other ∧ iteration % cap = index) →
        (queue.point task).visits other cap index = 0)
      (hat : new.waits + old.marks +
          (queue.point task).visits generation (queue.capacity generation)
            (queue.index generation iteration) ≤
        old.waits + new.marks +
          (queue.point task).enters generation (queue.capacity generation)
            (queue.index generation iteration)) :
      queue'.Broken ∨ ∃ served', queue'.Balanced served' (Function.update debt task
        ((queue.point task).settle (queue'.point task) (debt task))) := by
    refine Or.inr ⟨served, ?_⟩
    rw [hpoint, Function.update_self, hsettle, Function.update_eq_self]
    exact hbal.exchanges hbucket hatom hgenerations hpoint hafter hvisits hat
  generalize hbefore : queue.point task = before at *
  cases hstep with
  | @quiet _ after hquiet =>
      rcases hquiet.weights queue.atom.generation with rfl | hweights
      · exact Or.inl (Or.inl ⟨task, Or.inl (by simp)⟩)
      · exact hmoves rfl rfl rfl (hquiet.settle _) hweights
  | @waits waker waits hadd =>
      have hlt := hfew waker queue.atom queue.atom.generation queue.atom.waits
        (.empty queue.atom.waits) rfl (by simp)
      obtain rfl : waits = queue.atom.waits + 1 :=
        (add_one hbal.bounded hadd).resolve_right fun hwrap => by omega
      refine Or.inr ⟨served, ?_⟩
      rw [setPoint_point, Function.update_self]
      exact hbal.waits hbefore hlt (hdebt waker queue.atom rfl)
  | @registers waker generation iteration hbucket =>
      refine hexchanges hbucket rfl rfl rfl rfl (fun _ _ _ => rfl) (fun _ _ _ _ => rfl) ?_
      simp [Bucket.waits, Bucket.marks, Point.visits, Point.enters, index, Generation.index,
        capacity]
  | @consumes waker generation iteration next hbucket =>
      refine hexchanges hbucket rfl rfl rfl rfl (fun _ _ _ => rfl) (fun _ _ _ _ => rfl) ?_
      simp [Bucket.waits, Bucket.marks, Point.visits, Point.enters, index, Generation.index,
        capacity]
  | abandons => exact hmoves rfl rfl rfl rfl fun _ _ => ⟨Nat.le_refl _, Nat.le_refl _⟩
  | @registersAgain waker generation iteration old hbucket =>
      exact hexchanges hbucket rfl rfl rfl rfl (fun _ _ _ => rfl) (fun _ _ _ _ => rfl)
        (Nat.le_refl _)
  | @leaves waker generation iteration next hbucket =>
      exact hexchanges hbucket rfl rfl rfl rfl (fun _ _ _ => rfl) (fun _ _ _ _ => rfl)
        (Nat.le_refl _)
  | leavesPanicking => exact hmoves rfl rfl rfl rfl fun _ _ => ⟨Nat.le_refl _, Nat.le_refl _⟩
  | leavesExpanding => exact hmoves rfl rfl rfl rfl fun _ _ => ⟨Nat.le_refl _, Nat.le_refl _⟩
  | @notifies called amount sum hadd =>
      obtain rfl : amount = 1 := hself
      rw [setPoint_point, Function.update_self]
      cases called with
      | true =>
          have htally := tally_update (owing queue.atom.generation) debt task none
          rw [owing_none] at htally
          have hone : owing queue.atom.generation (debt task) ≤ 1 := by
            unfold owing
            split <;> decide
          have hsettle : (Point.notifyCas true 1 queue.atom : Point ω).settle
              (visit queue.atom.generation queue.atom.notifies (min sum queue.atom.waits))
                (debt task) = none := by
            unfold visit
            split <;> rfl
          rw [hsettle]
          exact Or.inr (hbal.notifies hbefore hadd (by omega))
      | false =>
          have hsettle : (Point.notifyCas false 1 queue.atom : Point ω).settle
              (visit queue.atom.generation queue.atom.notifies (min sum queue.atom.waits))
                (debt task) = debt task := by
            unfold visit
            split <;> rfl
          rw [hsettle, Function.update_eq_self]
          exact Or.inr (hbal.notifies hbefore hadd (Nat.le_succ _))
  | @takes generation iteration last waker hbucket =>
      refine hexchanges hbucket rfl rfl rfl rfl (fun _ _ _ => rfl) ?_ ?_
      · exact fun other cap index hne => if_neg hne
      · simp [Bucket.waits, Bucket.marks, Point.visits, Point.enters, index,
          Generation.index, capacity]
  | @marks generation iteration last hbucket =>
      obtain rfl : last = iteration + 1 := hself.2
      rw [visit_of_eq] at *
      refine hexchanges hbucket rfl rfl rfl rfl (fun _ _ _ => rfl) ?_ ?_
      · exact fun other cap index hne => if_neg hne
      · simp [Bucket.waits, Bucket.marks, Point.visits, Point.enters, index,
          Generation.index, capacity]
  | notifyWakes generation iteration last waker =>
      obtain rfl : last = iteration + 1 := hself
      rw [visit_of_eq] at *
      exact hmoves rfl rfl rfl rfl fun _ _ => ⟨Nat.le_refl _, Nat.le_refl _⟩
  | locks hlock hpoisoned =>
      exact absurd (Or.inl ⟨task, Or.inl (by rw [hbefore, hexp.unlocked hlock])⟩) hbroken
  | buriesWaiting => exact (hsweeps rfl).elim
  | buries => exact (hsweeps rfl).elim
  | expandWakes => exact (hsweeps rfl).elim
  | fails => exact (hsweeps rfl).elim
  | grows => exact (hsweeps rfl).elim
  | pushes => exact hmoves rfl rfl rfl rfl fun _ _ => ⟨Nat.le_refl _, Nat.le_refl _⟩

end Queue

end Futex2

end AsyncMutex
