import AsyncMutex.Futex2Invariant

/-!
# Futures that wait

A future whose exchange of the atom succeeded has a bucket of its own, and the
bucket holds its waker until it is notified, buried or left.
-/

namespace AsyncMutex

namespace Futex2

namespace Bucket

variable {ω : Type}

/-- What a future finds in the bucket it waits in. -/
def Held (registered : Option ω) : Bucket ω → Prop
  | .waiting waker => registered = some waker
  | .waking => True
  | .tombstone => True
  | _ => False

/-- What `poll_waiting` can go on with. -/
def Occupied : Bucket ω → Prop
  | .empty _ => False
  | .woken _ => False
  | _ => True

theorem Held.occupied {registered : Option ω} {bucket : Bucket ω}
    (hheld : bucket.Held registered) : bucket.Occupied := by
  cases bucket <;> first | exact hheld.elim | trivial

end Bucket

/-- The slot of a task fits its point. -/
def Point.Fits {ω : Type} (slot : Option (ℕ × ℕ)) : Point ω → Prop
  | .enterLoad _ => slot = none
  | .enterCas _ _ => slot = none
  | .enterBucket _ _ _ _ => slot = none
  | .condition generation iteration => slot = some (generation, iteration)
  | .waitLoad _ generation iteration => slot = some (generation, iteration)
  | .waitCas _ generation iteration current =>
      slot = some (generation, iteration) ∧ current.Occupied
  | .unreachable => False
  | _ => True

namespace Queue

variable {τ ω : Type} [DecidableEq τ]

structure Slots (queue : Queue τ ω) : Prop where
  held : ∀ task generation iteration, queue.slot task = some (generation, iteration) →
    (queue.bucket generation iteration).Held (queue.registered task)
  apart : ∀ task other generation iteration iteration',
    queue.slot task = some (generation, iteration) →
      queue.slot other = some (generation, iteration') →
        queue.index generation iteration = queue.index generation iteration' →
          task = other
  fits : ∀ task, (queue.point task).Fits (queue.slot task)
  current : ∀ task generation iteration,
    queue.slot task = some (generation, iteration) → generation ≤ queue.atom.generation
  entering : ∀ task waker generation iteration current,
    queue.point task = .enterBucket waker generation iteration current →
      generation ≤ queue.atom.generation

variable {checked : Bool} {queue queue' : Queue τ ω} {task : τ}

/-- A task moves on and the buckets stay. -/
theorem Slots.setPoint (hslots : queue.Slots) {after : Point ω}
    (hfits : after.Fits (queue.slot task))
    (hentering : ∀ waker generation iteration current,
      after = .enterBucket waker generation iteration current →
        generation ≤ queue.atom.generation) : (queue.setPoint task after).Slots := by
  refine { hslots with fits := fun other => ?_, entering := fun other => ?_ }
  · by_cases hother : other = task
    · simpa [hother] using hfits
    · simpa [hother] using hslots.fits other
  · by_cases hother : other = task
    · simpa [hother] using hentering
    · simpa [hother] using hslots.entering other

/-- The future of the task ends. -/
theorem Slots.release (hslots : queue.Slots) {after : Point ω}
    (hfits : after.Fits none)
    (hentering : ∀ waker generation iteration current,
      after ≠ .enterBucket waker generation iteration current) :
    ((queue.setSlot task none).setPoint task after).Slots := by
  have hsame (other : τ) (pair : ℕ × ℕ)
      (hother : Function.update queue.slot task none other = some pair) :
      queue.slot other = some pair := by
    by_cases heq : other = task
    · simp [heq] at hother
    · simpa [heq] using hother
  constructor
  case held =>
    intro other generation iteration hother
    exact hslots.held other generation iteration (hsame other _ hother)
  case apart =>
    intro first second generation iteration iteration' hfirst hsecond
    exact hslots.apart first second generation iteration iteration' (hsame first _ hfirst)
      (hsame second _ hsecond)
  case fits =>
    intro other
    by_cases hother : other = task
    · simpa [hother] using hfits
    · simpa [hother] using hslots.fits other
  case current =>
    intro other generation iteration hother
    exact hslots.current other generation iteration (hsame other _ hother)
  case entering =>
    intro other waker generation iteration current hpoint
    by_cases hother : other = task
    · simp only [hother, setPoint_point, Function.update_self] at hpoint
      exact absurd hpoint (hentering waker generation iteration current)
    · refine hslots.entering other waker generation iteration current ?_
      simpa [hother] using hpoint

omit [DecidableEq τ] in
/-- A bucket changes in a way that its future, if any, accepts. -/
theorem Slots.setBucket (hslots : queue.Slots) (generation iteration : ℕ)
    (bucket : Bucket ω)
    (hheld : ∀ other iteration', queue.slot other = some (generation, iteration') →
      queue.index generation iteration' = queue.index generation iteration →
        bucket.Held (queue.registered other)) :
    (queue.setBucket generation (queue.index generation iteration) bucket).Slots := by
  refine { hslots with held := ?_, apart := ?_ }
  · intro other generation' iteration' hother
    rw [bucket_setBucket]
    split
    case isTrue hat =>
      obtain ⟨rfl, hindex⟩ := hat
      exact hheld other iteration' hother hindex
    case isFalse => exact hslots.held other generation' iteration' hother
  · intro first second generation' first' second' hfirst hsecond
    rw [index_setBucket, index_setBucket]
    exact hslots.apart first second generation' first' second' hfirst hsecond

omit [DecidableEq τ] in
/-- No future waits in a bucket that is not held. -/
theorem Slots.vacant (hslots : queue.Slots) {generation iteration : ℕ}
    (hbucket : ¬ (queue.bucket generation iteration).Occupied) {other : τ}
    {iteration' : ℕ} (hother : queue.slot other = some (generation, iteration'))
    (hindex : queue.index generation iteration' = queue.index generation iteration) :
    False := by
  have hheld := (hslots.held other generation iteration' hother).occupied
  have hsame : queue.bucket generation iteration' = queue.bucket generation iteration :=
    congrArg (queue.generations generation).waiters hindex
  exact hbucket (hsame ▸ hheld)

/-- The future registers in an empty bucket. -/
theorem Slots.registers (hslots : queue.Slots) {waker : ω} {generation iteration : ℕ}
    (hgeneration : generation ≤ queue.atom.generation)
    (hbucket : queue.bucket generation iteration = .empty iteration) :
    ((((queue.setBucket generation (queue.index generation iteration)
      (.waiting waker)).setSlot task (some (generation, iteration))).register task
        waker).setPoint task (.condition generation iteration)).Slots := by
  have hvacant {other : τ} {iteration' : ℕ}
      (hother : queue.slot other = some (generation, iteration'))
      (hindex : queue.index generation iteration' = queue.index generation iteration) :
      False := hslots.vacant (by simp [hbucket, Bucket.Occupied]) hother hindex
  have hset := hslots.setBucket generation iteration (.waiting waker)
    fun other iteration' hother hindex => (hvacant hother hindex).elim
  constructor
  case held =>
    intro other generation' iteration' hother
    by_cases heq : other = task
    · simp only [heq, setPoint_slot, register_slot, setSlot_slot, Function.update_self,
        Option.some.injEq, Prod.mk.injEq] at hother
      obtain ⟨rfl, rfl⟩ := hother
      simp [heq, Bucket.Held, bucket_setBucket]
    · have hold : queue.slot other = some (generation', iteration') := by
        simpa [heq] using hother
      have hheld := hset.held other generation' iteration' hold
      simpa [heq] using hheld
  case apart =>
    intro first second generation' first' second' hfirst hsecond hindex
    have hindex' : queue.index generation' first' = queue.index generation' second' := by
      rw [← index_setBucket generation (queue.index generation iteration) generation' first'
        (.waiting waker), ← index_setBucket generation (queue.index generation iteration)
        generation' second' (.waiting waker)]
      exact hindex
    by_cases hone : first = task
    · by_cases htwo : second = task
      · rw [hone, htwo]
      · simp only [hone, setPoint_slot, register_slot, setSlot_slot, Function.update_self,
          Option.some.injEq, Prod.mk.injEq] at hfirst
        obtain ⟨rfl, rfl⟩ := hfirst
        have hold : queue.slot second = some (generation, second') := by
          simpa [htwo] using hsecond
        exact (hvacant hold hindex'.symm).elim
    · have hold : queue.slot first = some (generation', first') := by
        simpa [hone] using hfirst
      by_cases htwo : second = task
      · simp only [htwo, setPoint_slot, register_slot, setSlot_slot, Function.update_self,
          Option.some.injEq, Prod.mk.injEq] at hsecond
        obtain ⟨rfl, rfl⟩ := hsecond
        exact (hvacant hold hindex').elim
      · have hold' : queue.slot second = some (generation', second') := by
          simpa [htwo] using hsecond
        exact hslots.apart first second generation' first' second' hold hold' hindex'
  case fits =>
    intro other
    by_cases hother : other = task
    · simp [hother, Point.Fits]
    · simpa [hother] using hslots.fits other
  case current =>
    intro other generation' iteration' hother
    by_cases heq : other = task
    · simp only [heq, setPoint_slot, register_slot, setSlot_slot, Function.update_self,
        Option.some.injEq, Prod.mk.injEq] at hother
      obtain ⟨rfl, -⟩ := hother
      exact hgeneration
    · exact hslots.current other generation' iteration' (by simpa [heq] using hother)
  case entering =>
    intro other waker' generation' iteration' current hpoint
    by_cases heq : other = task
    · simp [heq] at hpoint
    · exact hslots.entering other waker' generation' iteration' current
        (by simpa [heq] using hpoint)

/-- The future registers the waker of another poll. -/
theorem Slots.registersAgain (hslots : queue.Slots) {waker : ω} {generation iteration : ℕ}
    (hslot : queue.slot task = some (generation, iteration)) :
    (((queue.setBucket generation (queue.index generation iteration)
      (.waiting waker)).register task waker).setPoint task .rest).Slots := by
  constructor
  case held =>
    intro other generation' iteration' hother
    have hother' : queue.slot other = some (generation', iteration') := hother
    change ((queue.setBucket generation (queue.index generation iteration)
      (.waiting waker)).bucket generation' iteration').Held _
    rw [bucket_setBucket]
    split
    case isTrue hat =>
      obtain ⟨rfl, hindex⟩ := hat
      have heq := hslots.apart other task generation' iteration' iteration hother' hslot hindex
      simp [heq, Bucket.Held]
    case isFalse hat =>
      have hne : other ≠ task := by
        rintro rfl
        rw [hslot, Option.some.injEq, Prod.mk.injEq] at hother'
        obtain ⟨rfl, rfl⟩ := hother'
        exact hat ⟨rfl, rfl⟩
      simpa [hne] using hslots.held other generation' iteration' hother'
  case apart =>
    intro first second generation' first' second' hfirst hsecond hindex
    refine hslots.apart first second generation' first' second' hfirst hsecond ?_
    rw [← index_setBucket generation (queue.index generation iteration) generation' first'
      (.waiting waker), ← index_setBucket generation (queue.index generation iteration)
      generation' second' (.waiting waker)]
    exact hindex
  case fits =>
    intro other
    by_cases hother : other = task
    · simp [hother, Point.Fits]
    · simpa [hother] using hslots.fits other
  case current => exact hslots.current
  case entering =>
    intro other waker' generation' iteration' current hpoint
    by_cases heq : other = task
    · simp [heq] at hpoint
    · exact hslots.entering other waker' generation' iteration' current
        (by simpa [heq] using hpoint)

theorem Slots.grows (hslots : queue.Slots) (hexp : queue.Expansion) {generation index : ℕ}
    {new : Generation ω} (hbefore : queue.point task = .expandSwap generation index) :
    (((queue.setGeneration (queue.last + 1) new).setAtom ⟨queue.last + 1, 0, 0⟩).setPoint
      task (.expandPush generation)).Slots := by
  have hlast := (hexp.swept task generation index (by rw [hbefore]; rfl)).1
  have hold {generation' : ℕ} (hle : generation' ≤ queue.atom.generation) :
      Function.update queue.generations (queue.last + 1) new generation' =
        queue.generations generation' :=
    Function.update_of_ne (by omega) _ _
  constructor
  case held =>
    intro other generation' iteration' hother
    have hheld := hslots.held other generation' iteration' hother
    change ((Function.update queue.generations (queue.last + 1) new generation').get
      iteration').Held (queue.registered other)
    rwa [hold (hslots.current other generation' iteration' hother)]
  case apart =>
    intro first second generation' first' second' hfirst hsecond hindex
    refine hslots.apart first second generation' first' second' hfirst hsecond ?_
    change (Function.update queue.generations (queue.last + 1) new generation').index first' =
      (Function.update queue.generations (queue.last + 1) new generation').index
        second' at hindex
    rwa [hold (hslots.current first generation' first' hfirst)] at hindex
  case fits =>
    intro other
    by_cases hother : other = task
    · simp [hother, Point.Fits]
    · simpa [hother] using hslots.fits other
  case current =>
    intro other generation' iteration' hother
    have hle := hslots.current other generation' iteration' hother
    change generation' ≤ queue.last + 1
    omega
  case entering =>
    intro other waker' generation' iteration' current hpoint
    by_cases heq : other = task
    · simp [heq] at hpoint
    · have hle := hslots.entering other waker' generation' iteration' current
        (by simpa [heq] using hpoint)
      change generation' ≤ queue.last + 1
      omega

omit [DecidableEq τ] in
theorem Slots.setAtom (hslots : queue.Slots) (atom : Atom)
    (hgeneration : queue.atom.generation ≤ atom.generation) :
    (queue.setAtom atom).Slots :=
  { hslots with
    held := hslots.held
    apart := hslots.apart
    current := fun other generation iteration hother =>
      Nat.le_trans (hslots.current other generation iteration hother) hgeneration
    entering := fun other waker generation iteration current hother =>
      Nat.le_trans (hslots.entering other waker generation iteration current hother) hgeneration }

/-- The future takes its mark out of the bucket. -/
theorem Slots.leaves (hslots : queue.Slots) {generation iteration next : ℕ}
    (hslot : queue.slot task = some (generation, iteration)) :
    (((queue.setBucket generation (queue.index generation iteration)
      (.empty next)).setSlot task none).setPoint task .rest).Slots := by
  have hrelease : ((queue.setSlot task none).setPoint task .rest).Slots :=
    hslots.release trivial (by simp)
  refine hrelease.setBucket generation iteration (.empty next) ?_
  intro other iteration' hother hindex
  by_cases heq : other = task
  · simp [heq] at hother
  · have hold : queue.slot other = some (generation, iteration') := by
      simpa [heq] using hother
    exact absurd (hslots.apart other task generation iteration' iteration hold hslot hindex) heq

omit [DecidableEq τ] in
/-- The steps that touch no bucket and no future keep what each point needs. -/
theorem Quiet.slots {before after : Point ω} (hquiet : Quiet checked queue task before after)
    (hslots : queue.Slots) (hbefore : queue.point task = before) :
    after.Fits (queue.slot task) ∧ ∀ waker generation iteration current,
      after = .enterBucket waker generation iteration current →
        generation ≤ queue.atom.generation := by
  have hfits := hslots.fits task
  rw [hbefore] at hfits
  have hloads {generation iteration : ℕ}
      (hslot : queue.slot task = some (generation, iteration)) :
      (queue.bucket generation iteration).Occupied :=
    (hslots.held task generation iteration hslot).occupied
  cases hquiet with
  | enter waker hslot => exact ⟨hslot, by simp⟩
  | poll waker hslot => exact ⟨hslot, by simp⟩
  | enterLoad waker => exact ⟨hfits, by simp⟩
  | enterAgain waker atom => exact ⟨hfits, by simp⟩
  | bucketAgain waker generation iteration current =>
      refine ⟨hfits, fun waker' generation' iteration' current' heq => ?_⟩
      simp only [Point.enterBucket.injEq] at heq
      obtain ⟨-, rfl, -⟩ := heq
      exact hslots.entering task waker generation iteration current hbefore
  | waitLoad waker generation iteration => exact ⟨⟨hfits, hloads hfits⟩, by simp⟩
  | waitAgain waker generation iteration current =>
      exact ⟨⟨hfits.1, hloads hfits.1⟩, by simp⟩
  | waitUnreachable waker generation iteration hcurrent =>
      rcases hcurrent with ⟨other, rfl⟩ | ⟨other, rfl⟩
      · exact hfits.2.elim
      · exact hfits.2.elim
  | _ => exact ⟨trivial, by simp⟩

omit [DecidableEq τ] in
theorem index_of_lt {generation index : ℕ} (hindex : index < queue.capacity generation) :
    queue.index generation index = index :=
  Nat.mod_eq_of_lt hindex

theorem Slots.step [DecidableEq ω] (hslots : queue.Slots) (hexp : queue.Expansion)
    (hstep : Step checked queue task (queue.point task) queue') : queue'.Slots := by
  generalize hbefore : queue.point task = before at hstep
  have hfits := hslots.fits task
  rw [hbefore] at hfits
  cases hstep with
  | quiet hquiet =>
      obtain ⟨hafter, hentering⟩ := hquiet.slots hslots hbefore
      exact hslots.setPoint hafter hentering
  | @waits waker waits hadd =>
      have hset := hslots.setAtom { queue.atom with waits := waits } (Nat.le_refl _)
      refine hset.setPoint ?_ fun waker' generation iteration current heq => ?_
      · exact hfits
      · simp only [Point.enterBucket.injEq] at heq
        obtain ⟨-, rfl, -⟩ := heq
        exact Nat.le_refl _
  | @registers waker generation iteration hbucket =>
      exact hslots.registers (hslots.entering task waker generation iteration _ hbefore)
        hbucket
  | @consumes waker generation iteration next hbucket =>
      have hset := hslots.setBucket generation iteration (.empty next)
        fun other iteration' hother hindex =>
          (hslots.vacant (by simp [hbucket, Bucket.Occupied]) hother hindex).elim
      exact hset.setPoint trivial (by simp)
  | abandons generation iteration => exact hslots.release trivial (by simp)
  | @registersAgain waker generation iteration old hbucket =>
      exact hslots.registersAgain hfits.1
  | leaves waker hbucket => exact hslots.leaves hfits.1
  | leavesPanicking waker generation iteration => exact hslots.release trivial (by simp)
  | leavesExpanding waker generation iteration => exact hslots.release trivial (by simp)
  | @notifies called amount sum hadd =>
      have hset := hslots.setAtom
        { queue.atom with notifies := min sum queue.atom.waits } (Nat.le_refl _)
      refine hset.setPoint ?_ ?_
      · unfold visit
        split <;> trivial
      · unfold visit
        split <;> simp
  | @takes generation iteration last waker hbucket =>
      have hset := hslots.setBucket generation iteration .waking fun _ _ _ _ => trivial
      exact hset.setPoint trivial (by simp)
  | @marks generation iteration last hbucket =>
      have hset := hslots.setBucket generation iteration (.woken iteration)
        fun other iteration' hother hindex =>
          (hslots.vacant (by simp [hbucket, Bucket.Occupied]) hother hindex).elim
      refine hset.setPoint ?_ ?_
      · unfold visit
        split <;> trivial
      · unfold visit
        split <;> simp
  | notifyWakes generation iteration last waker =>
      have hwake : (queue.wake waker).Slots := { hslots with held := hslots.held }
      refine hwake.setPoint ?_ ?_
      · unfold visit
        split <;> trivial
      · unfold visit
        split <;> simp
  | locks hlock hpoisoned =>
      have hset : (queue.setLock (some task)).Slots := { hslots with held := hslots.held }
      exact hset.setPoint trivial (by simp)
  | @buriesWaiting generation index waker hindex hwaiting =>
      have hset := hslots.setBucket generation index .tombstone fun _ _ _ _ => trivial
      rw [index_of_lt hindex] at hset
      exact hset.setPoint trivial (by simp)
  | @buries generation index hindex hwaiting =>
      have hset := hslots.setBucket generation index .tombstone fun _ _ _ _ => trivial
      rw [index_of_lt hindex] at hset
      exact hset.setPoint trivial (by simp)
  | expandWakes generation index waker =>
      have hwake : (queue.wake waker).Slots := { hslots with held := hslots.held }
      exact hwake.setPoint trivial (by simp)
  | fails hindex =>
      have hset : ((queue.setLock none).poison).Slots := { hslots with held := hslots.held }
      exact hset.setPoint trivial (by simp)
  | grows hindex hnew => exact hslots.grows hexp hbefore
  | pushes generation =>
      have hset : ((queue.setLast (queue.last + 1)).setLock none).Slots :=
        { hslots with held := hslots.held }
      exact hset.setPoint trivial (by simp)

end Queue

end Futex2

end AsyncMutex
