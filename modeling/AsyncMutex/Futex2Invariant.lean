import AsyncMutex.Futex2Queue
import Mathlib.Tactic.Common

/-!
# The invariants of the ring

`Expansion` follows the one task that holds the lock: it buries the buckets of
the current generation in order, and the next generation begins when all of
them are tombstones.  `Slots` follows the futures that wait in a bucket, and
`Alerted` the wakers that were taken out of the buckets.
-/

namespace AsyncMutex

namespace Futex2

namespace Point

variable {ω : Type}

/-- The generation that the task buries or has replaced. -/
def sweeps : Point ω → Option ℕ
  | .expandSwap generation _ => some generation
  | .expandWake generation _ _ => some generation
  | .expandPush generation => some generation
  | _ => none

/-- The buckets of this generation up to this index are buried. -/
def sweptTo : Point ω → Option (ℕ × ℕ)
  | .expandSwap generation index => some (generation, index)
  | .expandWake generation index _ => some (generation, index + 1)
  | _ => none

theorem sweeps_of_sweptTo {point : Point ω} {generation index : ℕ}
    (hswept : point.sweptTo = some (generation, index)) :
    point.sweeps = some generation := by
  cases point <;> simp_all [sweptTo, sweeps]

end Point

namespace Queue

variable {τ ω : Type}

def capacity (queue : Queue τ ω) (generation : ℕ) : ℕ :=
  (queue.generations generation).capacity

def Buried (queue : Queue τ ω) (generation index : ℕ) : Prop :=
  (queue.generations generation).waiters index = .tombstone

structure Expansion (queue : Queue τ ω) : Prop where
  locked : ∀ task, queue.lock = some task ↔ (queue.point task).sweeps ≠ none
  last : ∀ task generation, (queue.point task).sweeps = some generation →
    generation = queue.last
  swept : ∀ task generation index,
    (queue.point task).sweptTo = some (generation, index) →
      queue.atom.generation = queue.last ∧ ∀ other < index, queue.Buried generation other
  sound : ∀ task, (queue.point task).sweptTo ≠ none → queue.poisoned = false
  pushing : ∀ task generation, queue.point task = .expandPush generation →
    queue.atom.generation = queue.last + 1
  unlocked : queue.lock = none → queue.atom.generation = queue.last
  retired : ∀ generation < queue.atom.generation,
    ∀ index < queue.capacity generation, queue.Buried generation index
  positive : ∀ generation ≤ queue.atom.generation, 0 < queue.capacity generation
  /-- A tombstone in the current generation is the work of the sweeping task or
  of one that panicked after its sweep. -/
  buried : ∀ index, queue.Buried queue.atom.generation index →
    (∃ task, (queue.point task).sweeps = some queue.atom.generation) ∨
      ∀ other < queue.capacity queue.atom.generation,
        queue.Buried queue.atom.generation other
  poisoned : queue.poisoned = true → ∀ index < queue.capacity queue.atom.generation,
    queue.Buried queue.atom.generation index

/-- The generations and their tombstones are the same. -/
structure Alike (queue queue' : Queue τ ω) : Prop where
  generation : queue'.atom.generation = queue.atom.generation
  last : queue'.last = queue.last
  lock : queue'.lock = queue.lock
  poisoned : queue'.poisoned = queue.poisoned
  capacity : ∀ generation, queue'.capacity generation = queue.capacity generation
  buried : ∀ generation index,
    queue'.Buried generation index ↔ queue.Buried generation index

/-- Nothing but the futures and the points changes, and the counters. -/
theorem Alike.of_generations {queue queue' : Queue τ ω}
    (hgenerations : queue'.generations = queue.generations)
    (hgeneration : queue'.atom.generation = queue.atom.generation)
    (hlast : queue'.last = queue.last) (hlock : queue'.lock = queue.lock)
    (hpoisoned : queue'.poisoned = queue.poisoned) : queue.Alike queue' where
  generation := hgeneration
  last := hlast
  lock := hlock
  poisoned := hpoisoned
  capacity generation := by simp only [Queue.capacity, hgenerations]
  buried generation index := by simp only [Buried, hgenerations]

variable {checked : Bool} {queue queue' : Queue τ ω}
  {task : τ}

theorem capacity_setBucket (generation index other : ℕ) (bucket : Bucket ω) :
    (queue.setBucket generation index bucket).capacity other = queue.capacity other := by
  by_cases hother : other = generation
  · simp [capacity, hother]
  · simp [capacity, hother]

theorem waiters_setBucket (generation index : ℕ) (bucket : Bucket ω)
    (other other' : ℕ) :
    ((queue.setBucket generation index bucket).generations other).waiters other' =
      if other = generation ∧ other' = index then bucket
      else (queue.generations other).waiters other' := by
  by_cases hother : other = generation
  · subst hother
    by_cases hother' : other' = index
    · simp [hother']
    · simp [hother']
  · simp [hother]

/-- A bucket that is not a tombstone is exchanged for another one. -/
theorem alike_setBucket {generation iteration : ℕ} {old : Bucket ω}
    (hbucket : queue.bucket generation iteration = old) (hold : old ≠ .tombstone)
    (bucket : Bucket ω) (hnew : bucket ≠ .tombstone) :
    queue.Alike (queue.setBucket generation (queue.index generation iteration) bucket) where
  generation := rfl
  last := rfl
  lock := rfl
  poisoned := rfl
  capacity other := capacity_setBucket ..
  buried other index := by
    unfold Buried
    rw [waiters_setBucket]
    split
    case isTrue hat =>
      obtain ⟨rfl, rfl⟩ := hat
      exact ⟨fun hnow => absurd hnow hnew,
        fun hwas => absurd (hbucket.symm.trans hwas) hold⟩
    case isFalse => exact Iff.rfl

variable [DecidableEq τ]

/-- A task that is not sweeping moves on. -/
theorem Expansion.of_alike (hexp : queue.Expansion) (halike : queue.Alike queue')
    {after : Point ω} (hpoint : queue'.point = Function.update queue.point task after)
    (hbefore : (queue.point task).sweeps = none) (hafter : after.sweeps = none) :
    queue'.Expansion := by
  have hsweeps (other : τ) : (queue'.point other).sweeps = (queue.point other).sweeps := by
    by_cases hother : other = task
    · rw [hpoint, hother, Function.update_self, hafter, hbefore]
    · rw [hpoint, Function.update_of_ne hother]
  have hsame (other : τ) (hsweeping : (queue'.point other).sweeps ≠ none) :
      queue'.point other = queue.point other := by
    by_cases hother : other = task
    · rw [hsweeps, hother, hbefore] at hsweeping
      exact absurd rfl hsweeping
    · rw [hpoint, Function.update_of_ne hother]
  constructor
  case locked =>
    intro other
    rw [halike.lock, hsweeps]
    exact hexp.locked other
  case last =>
    intro other generation hother
    rw [halike.last]
    rw [hsweeps] at hother
    exact hexp.last other generation hother
  case swept =>
    intro other generation index hother
    have hsweeping := Point.sweeps_of_sweptTo hother
    rw [hsame other (by simp [hsweeping])] at hother
    obtain ⟨hlast, hburied⟩ := hexp.swept other generation index hother
    rw [halike.generation, halike.last]
    refine ⟨hlast, fun below hbelow => ?_⟩
    rw [halike.buried]
    exact hburied below hbelow
  case sound =>
    intro other hother
    obtain ⟨⟨generation, index⟩, hswept⟩ := Option.ne_none_iff_exists'.mp hother
    have hsweeping := Point.sweeps_of_sweptTo hswept
    rw [hsame other (by simp [hsweeping])] at hother
    rw [halike.poisoned]
    exact hexp.sound other hother
  case pushing =>
    intro other generation hother
    rw [hsame other (by simp [hother, Point.sweeps])] at hother
    rw [halike.generation, halike.last]
    exact hexp.pushing other generation hother
  case unlocked =>
    rw [halike.lock, halike.generation, halike.last]
    exact hexp.unlocked
  case retired =>
    intro generation hgeneration index hindex
    rw [halike.generation] at hgeneration
    rw [halike.capacity] at hindex
    rw [halike.buried]
    exact hexp.retired generation hgeneration index hindex
  case positive =>
    intro generation hgeneration
    rw [halike.generation] at hgeneration
    rw [halike.capacity]
    exact hexp.positive generation hgeneration
  case buried =>
    intro index hindex
    rw [halike.generation] at hindex ⊢
    rw [halike.buried] at hindex
    simp only [hsweeps, halike.capacity, halike.buried]
    exact hexp.buried index hindex
  case poisoned =>
    rw [halike.poisoned, halike.generation, halike.capacity]
    simp only [halike.buried]
    exact hexp.poisoned

omit [DecidableEq τ] in
theorem Expansion.alone (hexp : queue.Expansion)
    (htask : (queue.point task).sweeps ≠ none) {other : τ} (hother : other ≠ task) :
    (queue.point other).sweeps = none := by
  by_contra hsweeping
  have hlock := (hexp.locked task).mpr htask
  have hlock' := (hexp.locked other).mpr hsweeping
  rw [hlock, Option.some.injEq] at hlock'
  exact hother hlock'.symm

omit [DecidableEq τ] in
theorem Expansion.free (hexp : queue.Expansion) (hlock : queue.lock = none) (other : τ) :
    (queue.point other).sweeps = none := by
  by_contra hsweeping
  have hheld := (hexp.locked other).mpr hsweeping
  rw [hlock] at hheld
  cases hheld

/-- The task takes the lock for the last generation. -/
theorem Expansion.locks (hexp : queue.Expansion) (hlock : queue.lock = none)
    (hpoisoned : queue.poisoned = false) :
    ((queue.setLock (some task)).setPoint task (.expandSwap queue.last 0)).Expansion := by
  have hfree := hexp.free hlock
  have hself : (Point.expandSwap queue.last 0 : Point ω).sweeps = some queue.last := rfl
  constructor
  case locked =>
    intro other
    by_cases hother : other = task
    · simp [hother, hself]
    · simp [hother, hfree, Ne.symm hother]
  case last =>
    intro other generation hsweeping
    by_cases hother : other = task
    · simpa [hother, hself] using hsweeping.symm
    · simp [hother, hfree] at hsweeping
  case swept =>
    intro other generation index hswept
    by_cases hother : other = task
    · simp only [hother, setPoint_point, Function.update_self, Point.sweptTo,
        Option.some.injEq, Prod.mk.injEq] at hswept
      obtain ⟨-, rfl⟩ := hswept
      exact ⟨hexp.unlocked hlock, by simp⟩
    · have hsweeping := Point.sweeps_of_sweptTo hswept
      simp [hother, hfree] at hsweeping
  case sound => exact fun _ _ => hpoisoned
  case pushing =>
    intro other generation hpoint
    by_cases hother : other = task
    · simp [hother] at hpoint
    · have hsweeping := hfree other
      rw [setPoint_point, Function.update_of_ne hother, setLock_point] at hpoint
      simp [hpoint, Point.sweeps] at hsweeping
  case unlocked => simp
  case retired => exact hexp.retired
  case positive => exact hexp.positive
  case buried =>
    intro index _
    refine Or.inl ⟨task, ?_⟩
    have hgeneration : queue.atom.generation = queue.last := hexp.unlocked hlock
    simp [hself, hgeneration]
  case poisoned => exact hexp.poisoned

omit [DecidableEq τ] in
theorem buried_setBucket {generation index other other' : ℕ} :
    (queue.setBucket generation index .tombstone).Buried other other' ↔
      (other = generation ∧ other' = index) ∨ queue.Buried other other' := by
  unfold Buried
  rw [waiters_setBucket]
  split
  case isTrue hat => exact ⟨fun _ => Or.inl hat, fun _ => rfl⟩
  case isFalse hat => exact ⟨Or.inr, fun hor => hor.resolve_left hat⟩

/-- One more bucket is a tombstone. -/
theorem Expansion.buries (hexp : queue.Expansion) {generation index : ℕ}
    (hbefore : queue.point task = .expandSwap generation index) {after : Point ω}
    (hafter : after.sweptTo = some (generation, index + 1)) :
    ((queue.setBucket generation index .tombstone).setPoint task after).Expansion := by
  have hsweeps := Point.sweeps_of_sweptTo hafter
  have htask : (queue.point task).sweeps = some generation := by rw [hbefore]; rfl
  have hgeneration := hexp.last task generation htask
  obtain ⟨hlast, hburied⟩ := hexp.swept task generation index (by rw [hbefore]; rfl)
  have hmono {other other' : ℕ} (hwas : queue.Buried other other') :
      (queue.setBucket generation index .tombstone).Buried other other' :=
    buried_setBucket.mpr (Or.inr hwas)
  have hothers (other : τ) (hother : other ≠ task) : (queue.point other).sweeps = none :=
    hexp.alone (by simp [htask]) hother
  have hcapacity (other : ℕ) :
      ((queue.setBucket generation index .tombstone).setPoint task after).capacity other =
        queue.capacity other := capacity_setBucket ..
  constructor
  case locked =>
    intro other
    by_cases hother : other = task
    · simpa [hother, hsweeps, htask] using hexp.locked task
    · simpa [hother] using hexp.locked other
  case last =>
    intro other generation' hsweeping
    by_cases hother : other = task
    · simp only [hother, setPoint_point, Function.update_self, hsweeps,
        Option.some.injEq] at hsweeping
      exact hsweeping ▸ hgeneration
    · simp [hother, hothers other hother] at hsweeping
  case swept =>
    intro other generation' index' hswept
    by_cases hother : other = task
    · simp only [hother, setPoint_point, Function.update_self, hafter, Option.some.injEq,
        Prod.mk.injEq] at hswept
      obtain ⟨rfl, rfl⟩ := hswept
      refine ⟨hlast, fun below hbelow => ?_⟩
      rcases Nat.lt_succ_iff_lt_or_eq.mp hbelow with hlt | heq
      · exact hmono (hburied below hlt)
      · exact buried_setBucket.mpr (Or.inl ⟨rfl, heq⟩)
    · have hsweeping := Point.sweeps_of_sweptTo hswept
      simp [hother, hothers other hother] at hsweeping
  case sound => exact fun _ _ => hexp.sound task (by simp [hbefore, Point.sweptTo])
  case pushing =>
    intro other generation' hpoint
    by_cases hother : other = task
    · simp only [hother, setPoint_point, Function.update_self] at hpoint
      simp [hpoint, Point.sweptTo] at hafter
    · have hsweeping := hothers other hother
      rw [setPoint_point, Function.update_of_ne hother] at hpoint
      rw [setBucket_point] at hpoint
      simp [hpoint, Point.sweeps] at hsweeping
  case unlocked =>
    intro hlock
    have hheld := (hexp.locked task).mpr (by simp [htask])
    rw [show queue.lock = none from hlock] at hheld
    cases hheld
  case retired =>
    intro generation' hlt index' hindex
    rw [hcapacity] at hindex
    exact hmono (hexp.retired generation' hlt index' hindex)
  case positive =>
    intro generation' hle
    rw [hcapacity]
    exact hexp.positive generation' hle
  case buried =>
    intro index' _
    refine Or.inl ⟨task, ?_⟩
    have hcurrent : queue.atom.generation = generation := hlast.trans hgeneration.symm
    simp [hsweeps, hcurrent]
  case poisoned =>
    intro hpoisoned index' hindex
    rw [hcapacity] at hindex
    exact hmono (hexp.poisoned hpoisoned index' hindex)

/-- The task woke the waker of the bucket that it buried. -/
theorem Expansion.expandWakes [DecidableEq ω] (hexp : queue.Expansion) {generation index : ℕ}
    {waker : ω}
    (hbefore : queue.point task = .expandWake generation index waker) :
    ((queue.wake waker).setPoint task (.expandSwap generation (index + 1))).Expansion := by
  have htask : (queue.point task).sweeps = some generation := by rw [hbefore]; rfl
  have hself : (Point.expandSwap generation (index + 1) : Point ω).sweeps =
    some generation := rfl
  have hothers (other : τ) (hother : other ≠ task) : (queue.point other).sweeps = none :=
    hexp.alone (by simp [htask]) hother
  have hsweeps (other : τ) :
      (((queue.wake waker).setPoint task (.expandSwap generation (index + 1))).point
        other).sweeps = (queue.point other).sweeps := by
    by_cases hother : other = task
    · simp [hother, hself, htask]
    · simp [hother]
  constructor
  case locked =>
    intro other
    rw [hsweeps]
    exact hexp.locked other
  case last =>
    intro other generation' hsweeping
    rw [hsweeps] at hsweeping
    exact hexp.last other generation' hsweeping
  case swept =>
    intro other generation' index' hswept
    by_cases hother : other = task
    · refine hexp.swept task generation' index' ?_
      rw [hbefore]
      simpa [hother, Point.sweptTo] using hswept
    · have hsweeping := Point.sweeps_of_sweptTo hswept
      rw [hsweeps, hothers other hother] at hsweeping
      cases hsweeping
  case sound => exact fun _ _ => hexp.sound task (by simp [hbefore, Point.sweptTo])
  case pushing =>
    intro other generation' hpoint
    by_cases hother : other = task
    · simp [hother] at hpoint
    · refine hexp.pushing other generation' ?_
      simpa [hother] using hpoint
  case unlocked => exact hexp.unlocked
  case retired => exact hexp.retired
  case positive => exact hexp.positive
  case buried =>
    intro index' hburied
    simp only [hsweeps]
    exact hexp.buried index' hburied
  case poisoned => exact hexp.poisoned

/-- The task stops sweeping: no task does now. -/
theorem Expansion.nobody (hexp : queue.Expansion) {generation : ℕ}
    (htask : (queue.point task).sweeps = some generation)
    {after : Point ω} (hafter : after.sweeps = none) (other : τ) :
    (Function.update queue.point task after other).sweeps = none := by
  by_cases hother : other = task
  · rw [hother, Function.update_self, hafter]
  · rw [Function.update_of_ne hother]
    exact hexp.alone (by simp [htask]) hother

theorem Expansion.fails (hexp : queue.Expansion) {generation index : ℕ}
    (hbefore : queue.point task = .expandSwap generation index)
    (hindex : ¬ index < queue.capacity generation) :
    (((queue.setLock none).poison).setPoint task .panicked).Expansion := by
  have htask : (queue.point task).sweeps = some generation := by rw [hbefore]; rfl
  obtain ⟨hlast, hburied⟩ := hexp.swept task generation index (by rw [hbefore]; rfl)
  have hgeneration : queue.atom.generation = generation :=
    hlast.trans (hexp.last task generation htask).symm
  have hpanicked : (Point.panicked : Point ω).sweeps = none := rfl
  have hnobody := hexp.nobody htask hpanicked
  have hall (other : ℕ) (hother : other < queue.capacity queue.atom.generation) :
      queue.Buried queue.atom.generation other := by
    rw [hgeneration] at hother ⊢
    exact hburied other (by omega)
  constructor
  case locked => simp [hnobody]
  case last => simp [hnobody]
  case swept =>
    intro other generation' index' hswept
    have hsweeping := Point.sweeps_of_sweptTo hswept
    simp [hnobody] at hsweeping
  case sound =>
    intro other hother
    obtain ⟨⟨generation, index⟩, hswept⟩ := Option.ne_none_iff_exists'.mp hother
    have hsweeping := Point.sweeps_of_sweptTo hswept
    simp [hnobody] at hsweeping
  case pushing =>
    intro other generation' hpoint
    have hsweeping := hnobody other
    rw [show Function.update queue.point task .panicked other = .expandPush generation' from
      hpoint] at hsweeping
    cases hsweeping
  case unlocked => exact fun _ => hlast
  case retired => exact hexp.retired
  case positive => exact hexp.positive
  case buried => exact fun _ _ => Or.inr hall
  case poisoned => exact fun _ => hall

/-- A new generation replaces the one whose buckets are all tombstones. -/
theorem Expansion.grows (hexp : queue.Expansion) {generation index : ℕ}
    {new : Generation ω} (hbefore : queue.point task = .expandSwap generation index)
    (hindex : ¬ index < queue.capacity generation)
    (hnew : Generation.new (queue.capacity generation * 2) = some new) :
    (((queue.setGeneration (queue.last + 1) new).setAtom ⟨queue.last + 1, 0, 0⟩).setPoint
      task (.expandPush generation)).Expansion := by
  have htask : (queue.point task).sweeps = some generation := by rw [hbefore]; rfl
  have hself : (Point.expandPush generation : Point ω).sweeps = some generation := rfl
  have hgeneration := hexp.last task generation htask
  obtain ⟨hlast, hburied⟩ := hexp.swept task generation index (by rw [hbefore]; rfl)
  have hothers (other : τ) (hother : other ≠ task) : (queue.point other).sweeps = none :=
    hexp.alone (by simp [htask]) hother
  have hcap : new.capacity = queue.capacity generation * 2 ∧
      ∀ index, new.waiters index ≠ .tombstone := by
    unfold Generation.new at hnew
    split at hnew <;> cases hnew
    exact ⟨rfl, fun index => by simp⟩
  have hsweeps (other : τ) :
      (Function.update queue.point task (.expandPush generation) other).sweeps =
        (queue.point other).sweeps := by
    by_cases hother : other = task
    · simp [hother, hself, htask]
    · simp [hother]
  constructor
  case locked =>
    intro other
    change queue.lock = some other ↔
      (Function.update queue.point task (.expandPush generation) other).sweeps ≠ none
    rw [hsweeps]
    exact hexp.locked other
  case last =>
    intro other generation' hsweeping
    change (Function.update queue.point task (.expandPush generation) other).sweeps =
      some generation' at hsweeping
    rw [hsweeps] at hsweeping
    exact hexp.last other generation' hsweeping
  case swept =>
    intro other generation' index' hswept
    by_cases hother : other = task
    · simp [hother, Point.sweptTo] at hswept
    · have hsweeping := Point.sweeps_of_sweptTo hswept
      simp [hother, hothers other hother] at hsweeping
  case sound => exact fun _ _ => hexp.sound task (by simp [hbefore, Point.sweptTo])
  case pushing => exact fun _ _ _ => rfl
  case unlocked =>
    intro hlock
    have hheld := (hexp.locked task).mpr (by simp [htask])
    rw [show queue.lock = none from hlock] at hheld
    cases hheld
  case retired =>
    intro generation' hlt index' hindex'
    have hlt' : generation' < queue.last + 1 := hlt
    have hne : generation' ≠ queue.last + 1 := by omega
    have hold : index' < queue.capacity generation' := by
      simpa [capacity, hne] using hindex'
    have hburied' : queue.Buried generation' index' := by
      rcases Nat.lt_succ_iff_lt_or_eq.mp hlt' with hless | heq
      · exact hexp.retired generation' (hlast ▸ hless) index' hold
      · rw [heq, ← hgeneration] at hold ⊢
        exact hburied index' (by omega)
    simpa [Buried, hne] using hburied'
  case positive =>
    intro generation' hle
    have hle' : generation' ≤ queue.last + 1 := hle
    by_cases heq : generation' = queue.last + 1
    · have hpositive := hexp.positive generation (by omega)
      simp only [capacity, heq, setPoint_generations, setAtom_generations,
        setGeneration_generations, Function.update_self, hcap.1]
      unfold capacity at hpositive
      omega
    · have hpositive := hexp.positive generation' (by omega)
      simpa [capacity, heq] using hpositive
  case buried =>
    intro index' hburied'
    simp [Buried, hcap.2] at hburied'
  case poisoned =>
    intro hpoisoned
    have hsound := hexp.sound task (by simp [hbefore, Point.sweptTo])
    rw [show queue.poisoned = true from hpoisoned] at hsound
    cases hsound

theorem Expansion.pushes (hexp : queue.Expansion) {generation : ℕ}
    (hbefore : queue.point task = .expandPush generation) :
    (((queue.setLast (queue.last + 1)).setLock none).setPoint task .rest).Expansion := by
  have htask : (queue.point task).sweeps = some generation := by rw [hbefore]; rfl
  have hrest : (Point.rest : Point ω).sweeps = none := rfl
  have hnobody := hexp.nobody htask hrest
  constructor
  case locked => simp [hnobody]
  case last => simp [hnobody]
  case swept =>
    intro other generation' index' hswept
    have hsweeping := Point.sweeps_of_sweptTo hswept
    simp [hnobody] at hsweeping
  case sound =>
    intro other hother
    obtain ⟨⟨generation, index⟩, hswept⟩ := Option.ne_none_iff_exists'.mp hother
    have hsweeping := Point.sweeps_of_sweptTo hswept
    simp [hnobody] at hsweeping
  case pushing =>
    intro other generation' hpoint
    have hsweeping := hnobody other
    rw [show Function.update queue.point task .rest other = .expandPush generation' from
      hpoint] at hsweeping
    cases hsweeping
  case unlocked => exact fun _ => hexp.pushing task generation hbefore
  case retired => exact hexp.retired
  case positive => exact hexp.positive
  case buried =>
    intro index hburied
    rcases hexp.buried index hburied with ⟨other, hsweeping⟩ | hall
    · by_cases hother : other = task
      · -- the replaced generation is not the current one
        have hlast := hexp.last task generation htask
        have hcurrent := hexp.pushing task generation hbefore
        rw [hother, htask, Option.some.injEq] at hsweeping
        omega
      · rw [hexp.alone (by simp [htask]) hother] at hsweeping
        cases hsweeping
    · exact Or.inr hall
  case poisoned => exact hexp.poisoned

omit [DecidableEq τ] in
theorem Quiet.sweeps {before after : Point ω} (hquiet : Quiet checked queue task before after) :
    before.sweeps = none ∧ after.sweeps = none := by
  cases hquiet <;> exact ⟨rfl, rfl⟩

theorem visit_sweeps (generation iteration last : ℕ) :
    (visit generation iteration last : Point ω).sweeps = none := by
  unfold visit
  split <;> rfl

theorem Expansion.step [DecidableEq ω] (hexp : queue.Expansion)
    (hstep : Step checked queue task (queue.point task) queue') : queue'.Expansion := by
  generalize hbefore : queue.point task = before at hstep
  have hquiet (hnone : before.sweeps = none) : (queue.point task).sweeps = none := by
    rw [hbefore, hnone]
  cases hstep with
  | quiet hmoves =>
      obtain ⟨hsweeps, hsweeps'⟩ := hmoves.sweeps
      exact hexp.of_alike (.of_generations rfl rfl rfl rfl rfl) rfl (hquiet hsweeps) hsweeps'
  | waits waker hadd =>
      exact hexp.of_alike (.of_generations rfl rfl rfl rfl rfl) rfl (hquiet rfl) rfl
  | registers waker hbucket =>
      have halike := alike_setBucket hbucket (by simp) (.waiting waker) (by simp)
      exact hexp.of_alike { halike with buried := halike.buried } rfl (hquiet rfl) rfl
  | @consumes waker generation iteration next hbucket =>
      have halike := alike_setBucket hbucket (by simp) (.empty next) (by simp)
      exact hexp.of_alike { halike with buried := halike.buried } rfl (hquiet rfl) rfl
  | abandons generation iteration =>
      exact hexp.of_alike (.of_generations rfl rfl rfl rfl rfl) rfl (hquiet rfl) rfl
  | registersAgain waker hbucket =>
      have halike := alike_setBucket hbucket (by simp) (.waiting waker) (by simp)
      exact hexp.of_alike { halike with buried := halike.buried } rfl (hquiet rfl) rfl
  | @leaves waker generation iteration next hbucket =>
      have halike := alike_setBucket hbucket (by simp) (.empty next) (by simp)
      exact hexp.of_alike { halike with buried := halike.buried } rfl (hquiet rfl) rfl
  | leavesPanicking waker generation iteration =>
      exact hexp.of_alike (.of_generations rfl rfl rfl rfl rfl) rfl (hquiet rfl) rfl
  | leavesExpanding waker generation iteration =>
      exact hexp.of_alike (.of_generations rfl rfl rfl rfl rfl) rfl (hquiet rfl) rfl
  | notifies called amount hadd =>
      exact hexp.of_alike (.of_generations rfl rfl rfl rfl rfl) rfl (hquiet rfl)
        (visit_sweeps ..)
  | takes hbucket =>
      have halike := alike_setBucket hbucket (by simp) .waking (by simp)
      exact hexp.of_alike { halike with buried := halike.buried } rfl (hquiet rfl) rfl
  | @marks generation iteration last hbucket =>
      have halike := alike_setBucket hbucket (by simp) (.woken iteration) (by simp)
      exact hexp.of_alike { halike with buried := halike.buried } rfl (hquiet rfl)
        (visit_sweeps ..)
  | notifyWakes generation iteration last waker =>
      exact hexp.of_alike (.of_generations rfl rfl rfl rfl rfl) rfl (hquiet rfl)
        (visit_sweeps ..)
  | locks hlock hpoisoned => exact hexp.locks hlock hpoisoned
  | buriesWaiting hindex hwaiting => exact hexp.buries hbefore rfl
  | buries hindex hwaiting => exact hexp.buries hbefore rfl
  | expandWakes generation index waker => exact hexp.expandWakes hbefore
  | fails hindex => exact hexp.fails hbefore hindex
  | grows hindex hnew => exact hexp.grows hbefore hindex hnew
  | pushes generation => exact hexp.pushes hbefore

omit [DecidableEq τ] in
theorem Expansion.initial {cap : ℕ} (hcap : 0 < cap) :
    (withCapacity cap : Queue τ ω).Expansion := by
  constructor <;> simp [withCapacity, Point.sweeps, Point.sweptTo, capacity, Buried, hcap]

omit [DecidableEq τ] in
theorem bucket_setBucket (generation iteration other other' : ℕ) (bucket : Bucket ω) :
    (queue.setBucket generation (queue.index generation iteration) bucket).bucket other
        other' =
      if other = generation ∧ queue.index other other' = queue.index generation iteration
      then bucket else queue.bucket other other' := by
  have hindex : ((queue.setBucket generation (queue.index generation iteration)
      bucket).generations other).index other' = queue.index other other' := by
    by_cases hother : other = generation
    · simp [Generation.index, index, hother]
    · simp [Generation.index, index, hother]
  unfold Queue.bucket Generation.get
  rw [hindex, waiters_setBucket]
  rfl

omit [DecidableEq τ] in
theorem index_setBucket (generation index' other other' : ℕ) (bucket : Bucket ω) :
    (queue.setBucket generation index' bucket).index other other' =
      queue.index other other' := by
  by_cases hother : other = generation
  · simp [Generation.index, index, hother]
  · simp [Generation.index, index, hother]

end Queue

end Futex2

end AsyncMutex
