import AsyncMutex.Futex2Slots

/-!
# Who owns a bucket

A waiting future finds its last waker in its bucket until a notifier or an
expansion takes it out, and whoever took it wakes it next.
-/

namespace AsyncMutex

namespace Futex2

/-- The task took this waker out of this bucket and is about to wake it. -/
def Point.Takes {τ ω : Type} (queue : Queue τ ω) (generation index : ℕ) (waker : ω) :
    Point ω → Prop
  | .notifyWake other iteration _ taken =>
      other = generation ∧ queue.index generation iteration = index ∧ taken = waker
  | .expandWake other buried taken => other = generation ∧ buried = index ∧ taken = waker
  | _ => False

namespace Queue

variable {τ ω : Type} {checked : Bool}
  {queue queue' : Queue τ ω} {task : τ}

/-- The last waker of the future was woken, or is about to be. -/
def Alerted (queue : Queue τ ω) (task : τ) (generation iteration : ℕ) : Prop :=
  queue.woken task = true ∨ ∃ other waker, queue.registered task = some waker ∧
    (queue.point other).Takes queue generation (queue.index generation iteration) waker

def Taken (bucket : Bucket ω) : Prop := bucket = .waking ∨ bucket = .tombstone

/-- A future whose waker is no longer in its bucket is alerted. -/
def Alert (queue : Queue τ ω) : Prop :=
  ∀ task generation iteration, queue.slot task = some (generation, iteration) →
    Taken (queue.bucket generation iteration) → queue.Alerted task generation iteration

/-- Whoever takes wakers goes on doing so. -/
theorem Alerted.mono {other : τ} {generation iteration : ℕ}
    (halerted : queue.Alerted other generation iteration)
    (hindex : ∀ iteration, queue'.index generation iteration = queue.index generation iteration)
    (hregistered : queue'.registered other = queue.registered other)
    (hwoken : queue.woken other = true → queue'.woken other = true)
    (htakes : ∀ taker waker index, queue.registered other = some waker →
      (queue.point taker).Takes queue generation index waker →
        queue'.woken other = true ∨ queue'.point taker = queue.point taker) :
    queue'.Alerted other generation iteration := by
  rcases halerted with hdone | ⟨taker, waker, hwaker, htaker⟩
  · exact Or.inl (hwoken hdone)
  · rcases htakes taker waker _ hwaker htaker with hdone | hsame
    · exact Or.inl hdone
    · refine Or.inr ⟨taker, waker, hregistered.trans hwaker, ?_⟩
      rw [hsame, hindex]
      cases hpoint : queue.point taker <;> rw [hpoint] at htaker <;>
        simp only [Point.Takes, hindex] at htaker ⊢ <;> exact htaker

/-- A step that takes no waker and wakes none. -/
theorem Alert.quiet (halert : queue.Alert) (hslots : queue.Slots)
    (hslot : ∀ other generation iteration,
      queue'.slot other = some (generation, iteration) →
        Taken (queue'.bucket generation iteration) →
          queue.slot other = some (generation, iteration) ∧
            Taken (queue.bucket generation iteration) ∧
            queue'.registered other = queue.registered other ∧
            queue'.woken other = queue.woken other)
    (hindex : ∀ generation ≤ queue.atom.generation, ∀ iteration,
      queue'.index generation iteration = queue.index generation iteration)
    (hpoint : ∀ other, other ≠ task → queue'.point other = queue.point other)
    (htask : ∀ generation index waker,
      ¬ (queue.point task).Takes queue generation index waker) : queue'.Alert := by
  intro other generation iteration hother htaken
  obtain ⟨hold, htaken', hregistered, hwoken⟩ :=
    hslot other generation iteration hother htaken
  refine (halert other generation iteration hold htaken').mono
    (hindex generation (hslots.current other generation iteration hold)) hregistered
    (fun hdone => hwoken.trans hdone) fun taker waker index _ htaker =>
      Or.inr (hpoint taker ?_)
  rintro rfl
  exact htask generation index waker htaker

theorem Quiet.takes {before after : Point ω} (hquiet : Quiet checked queue task before after)
    (generation index : ℕ) (waker : ω) : ¬ before.Takes queue generation index waker := by
  cases hquiet <;> exact id

theorem not_taken_of_setBucket (queue : Queue τ ω) (generation iteration : ℕ)
    {other other' : ℕ} {bucket : Bucket ω} (hbucket : ¬ Taken bucket)
    (htaken : Taken ((queue.setBucket generation (queue.index generation iteration)
      bucket).bucket other other')) :
    ¬ (other = generation ∧ queue.index other other' = queue.index generation iteration) ∧
      Taken (queue.bucket other other') := by
  rw [bucket_setBucket] at htaken
  split at htaken
  case isTrue => exact absurd htaken hbucket
  case isFalse hat => exact ⟨hat, htaken⟩

variable [DecidableEq τ]

/-- A waker is taken out of a bucket. -/
theorem Alert.takes (halert : queue.Alert) (hslots : queue.Slots)
    {generation iteration : ℕ} {waker : ω} (bucket : Bucket ω) {after : Point ω}
    (hbucket : queue.bucket generation iteration = .waiting waker)
    (htask : ∀ generation index waker,
      ¬ (queue.point task).Takes queue generation index waker)
    (hafter : after.Takes queue generation (queue.index generation iteration) waker) :
    ((queue.setBucket generation (queue.index generation iteration) bucket).setPoint task
      after).Alert := by
  intro other generation' iteration' hother htaken
  have hold : queue.slot other = some (generation', iteration') := hother
  have hindex (any any' : ℕ) : ((queue.setBucket generation
      (queue.index generation iteration) bucket).setPoint task after).index any any' =
        queue.index any any' := by
    simp [index_setBucket]
  by_cases hat : generation' = generation ∧
      queue.index generation' iteration' = queue.index generation iteration
  · obtain ⟨rfl, hsame⟩ := hat
    have hheld := hslots.held other generation' iteration' hold
    have hwas : queue.bucket generation' iteration' = .waiting waker :=
      (congrArg (queue.generations generation').waiters hsame).trans hbucket
    rw [hwas] at hheld
    refine Or.inr ⟨task, waker, hheld, ?_⟩
    rw [hindex, hsame]
    rw [setPoint_point, Function.update_self]
    cases after <;> simp only [Point.Takes, hindex] at hafter ⊢ <;> exact hafter
  · have htaken' : Taken (queue.bucket generation' iteration') := by
      simpa [bucket_setBucket, hat] using htaken
    refine (halert other generation' iteration' hold htaken').mono (hindex generation') rfl id ?_
    intro taker waker' index _ htaker
    have hne : taker ≠ task := by
      rintro rfl
      exact htask generation' index waker' htaker
    exact Or.inr (by simp [hne])

variable [DecidableEq ω]

/-- The task wakes the waker that it took. -/
theorem Alert.wakes (halert : queue.Alert) {waker : ω} {after : Point ω}
    (htask : ∀ generation index taken,
      (queue.point task).Takes queue generation index taken → taken = waker) :
    ((queue.wake waker).setPoint task after).Alert := by
  intro other generation iteration hother htaken
  refine (halert other generation iteration hother htaken).mono (fun _ => rfl) rfl ?_ ?_
  · intro hwoken
    simp [hwoken]
  · intro taker waker' index hregistered htaker
    by_cases heq : taker = task
    · subst heq
      rw [htask generation index waker' htaker] at hregistered
      exact Or.inl (by simp [hregistered])
    · exact Or.inr (by simp [heq])

omit [DecidableEq ω] in
/-- A future is released. -/
theorem Alert.release (halert : queue.Alert) (hslots : queue.Slots) (after : Point ω)
    (htask : ∀ generation index waker,
      ¬ (queue.point task).Takes queue generation index waker) :
    ((queue.setSlot task none).setPoint task after).Alert := by
  refine halert.quiet hslots ?_ (fun _ _ _ => rfl) (fun other hother => by simp [hother]) htask
  intro other generation iteration hother htaken
  have hne : other ≠ task := by
    rintro rfl
    simp at hother
  exact ⟨by simpa [hne] using hother, htaken, rfl, rfl⟩

omit [DecidableEq ω] in
/-- A bucket that no waker was taken from is exchanged for one. -/
theorem Alert.setBucket (halert : queue.Alert) (hslots : queue.Slots)
    {generation iteration : ℕ} {bucket : Bucket ω} (hbucket : ¬ Taken bucket)
    (after : Point ω)
    (htask : ∀ generation index waker,
      ¬ (queue.point task).Takes queue generation index waker) :
    ((queue.setBucket generation (queue.index generation iteration) bucket).setPoint task
      after).Alert := by
  refine halert.quiet hslots ?_ (fun _ _ _ => by simp [index_setBucket])
    (fun other hother => by simp [hother]) htask
  intro other generation' iteration' hother htaken
  exact ⟨hother, (not_taken_of_setBucket queue generation iteration hbucket htaken).2, rfl, rfl⟩

omit [DecidableEq ω] in
/-- The task registers a waker in its bucket. -/
theorem Alert.register (halert : queue.Alert) (hslots : queue.Slots) {waker : ω}
    (generation iteration : ℕ) (slot : τ → Option (ℕ × ℕ)) {after : Point ω}
    {registered : Queue τ ω}
    (hregistered : registered = (((({ queue with slot := slot }).setBucket generation
      (queue.index generation iteration) (.waiting waker)).register task waker).setPoint task
        after))
    (hself : slot task = some (generation, iteration))
    (hothers : ∀ other, other ≠ task → slot other = queue.slot other)
    (htask : ∀ generation index waker,
      ¬ (queue.point task).Takes queue generation index waker) : registered.Alert := by
  subst hregistered
  refine halert.quiet hslots ?_ (fun _ _ _ => by simp [index_setBucket]; rfl)
    (fun other hother => by simp [hother]) htask
  intro other generation' iteration' hother htaken
  have hother' : slot other = some (generation', iteration') := hother
  have hleft := not_taken_of_setBucket { queue with slot := slot } generation iteration
    (by simp [Taken]) htaken
  have hne : other ≠ task := by
    rintro rfl
    rw [hself, Option.some.injEq, Prod.mk.injEq] at hother'
    obtain ⟨rfl, rfl⟩ := hother'
    exact hleft.1 ⟨rfl, rfl⟩
  rw [hothers other hne] at hother'
  exact ⟨hother', hleft.2, by simp [hne], by simp [hne]⟩

theorem Alert.step (halert : queue.Alert) (hslots : queue.Slots) (hexp : queue.Expansion)
    (hstep : Step checked queue task (queue.point task) queue') : queue'.Alert := by
  generalize hbefore : queue.point task = before at hstep
  have hnot (hbefore' : ∀ generation index waker,
      ¬ before.Takes queue generation index waker) (generation index : ℕ) (waker : ω) :
      ¬ (queue.point task).Takes queue generation index waker := by
    rw [hbefore]
    exact hbefore' generation index waker
  cases hstep with
  | quiet hquiet =>
      exact halert.quiet hslots (fun _ _ _ hslot htaken => ⟨hslot, htaken, rfl, rfl⟩)
        (fun _ _ _ => rfl) (fun other hother => by simp [hother]) (hnot hquiet.takes)
  | waits waker hadd =>
      exact halert.quiet hslots (fun _ _ _ hslot htaken => ⟨hslot, htaken, rfl, rfl⟩)
        (fun _ _ _ => rfl) (fun other hother => by simp [hother]) (hnot fun _ _ _ => id)
  | @registers waker generation iteration hbucket =>
      exact halert.register hslots generation iteration
        (Function.update queue.slot task (some (generation, iteration))) rfl
        (by simp) (fun other hother => by simp [hother]) (hnot fun _ _ _ => id)
  | @consumes waker generation iteration next hbucket =>
      exact halert.setBucket hslots (by simp [Taken]) .rest (hnot fun _ _ _ => id)
  | abandons generation iteration =>
      exact halert.release hslots _ (hnot fun _ _ _ => id)
  | @registersAgain waker generation iteration old hbucket =>
      have hslot := hslots.fits task
      rw [hbefore] at hslot
      exact halert.register hslots generation iteration queue.slot rfl hslot.1 (fun _ _ => rfl)
        (hnot fun _ _ _ => id)
  | @leaves waker generation iteration next hbucket =>
      refine halert.quiet hslots ?_ (fun _ _ _ => by simp [index_setBucket])
        (fun other hother => by simp [hother]) (hnot fun _ _ _ => id)
      intro other generation' iteration' hother htaken
      have hne : other ≠ task := by
        rintro rfl
        simp at hother
      exact ⟨by simpa [hne] using hother,
        (not_taken_of_setBucket queue generation iteration (by simp [Taken]) htaken).2, rfl, rfl⟩
  | leavesPanicking waker generation iteration =>
      exact halert.release hslots _ (hnot fun _ _ _ => id)
  | leavesExpanding waker generation iteration =>
      exact halert.release hslots _ (hnot fun _ _ _ => id)
  | notifies called amount hadd =>
      exact halert.quiet hslots (fun _ _ _ hslot htaken => ⟨hslot, htaken, rfl, rfl⟩)
        (fun _ _ _ => rfl) (fun other hother => by simp [hother]) (hnot fun _ _ _ => id)
  | @takes generation iteration last waker hbucket =>
      exact halert.takes hslots .waking hbucket (hnot fun _ _ _ => id) ⟨rfl, rfl, rfl⟩
  | @marks generation iteration last hbucket =>
      exact halert.setBucket hslots (by simp [Taken]) _ (hnot fun _ _ _ => id)
  | notifyWakes generation iteration last waker =>
      refine halert.wakes fun generation index taken htakes => ?_
      rw [hbefore] at htakes
      exact htakes.2.2.symm
  | locks hlock hpoisoned =>
      exact halert.quiet hslots (fun _ _ _ hslot htaken => ⟨hslot, htaken, rfl, rfl⟩)
        (fun _ _ _ => rfl) (fun other hother => by simp [hother]) (hnot fun _ _ _ => id)
  | @buriesWaiting generation index waker hindex hwaiting =>
      have hsame : queue.index generation index = index := index_of_lt hindex
      have hbucket : queue.bucket generation index = .waiting waker := by
        rw [← hwaiting]
        exact congrArg _ hsame
      have htaken : (Point.expandWake generation index waker).Takes queue generation
          (queue.index generation index) waker := ⟨rfl, hsame.symm, rfl⟩
      have htakes := halert.takes hslots .tombstone hbucket (hnot fun _ _ _ => id) htaken
      rwa [hsame] at htakes
  | @buries generation index hindex hwaiting =>
      have hsame : queue.index generation index = index := index_of_lt hindex
      refine halert.quiet hslots ?_ (fun _ _ _ => by simp [index_setBucket])
        (fun other hother => by simp [hother]) (hnot fun _ _ _ => id)
      intro other generation' iteration' hother htaken
      refine ⟨hother, ?_, rfl, rfl⟩
      by_cases hat : generation' = generation ∧ queue.index generation' iteration' = index
      · -- the future in this bucket had lost its waker before
        obtain ⟨rfl, hat⟩ := hat
        have hheld := hslots.held other generation' iteration' hother
        have hwas : queue.bucket generation' iteration' =
            (queue.generations generation').waiters index :=
          congrArg (queue.generations generation').waiters hat
        cases hcase : queue.bucket generation' iteration' with
        | empty other => simp [hcase, Bucket.Held] at hheld
        | woken other => simp [hcase, Bucket.Held] at hheld
        | waiting waker => exact absurd (hwas.symm.trans hcase) (hwaiting waker)
        | waking => exact Or.inl rfl
        | tombstone => exact Or.inr rfl
      · rw [← hsame] at htaken hat
        simpa [bucket_setBucket, hat] using htaken
  | expandWakes generation index waker =>
      refine halert.wakes fun generation index taken htakes => ?_
      rw [hbefore] at htakes
      exact htakes.2.2.symm
  | fails hindex =>
      exact halert.quiet hslots (fun _ _ _ hslot htaken => ⟨hslot, htaken, rfl, rfl⟩)
        (fun _ _ _ => rfl) (fun other hother => by simp [hother]) (hnot fun _ _ _ => id)
  | @grows generation index new hindex hnew =>
      have hlast := (hexp.swept task generation index (by rw [hbefore]; rfl)).1
      have hold {generation' : ℕ} (hle : generation' ≤ queue.atom.generation) :
          Function.update queue.generations (queue.last + 1) new generation' =
            queue.generations generation' :=
        Function.update_of_ne (by omega) _ _
      refine halert.quiet hslots ?_ (fun generation' hle iteration' => ?_)
        (fun other hother => by simp [hother]) (hnot fun _ _ _ => id)
      · intro other generation' iteration' hother htaken
        have hle := hslots.current other generation' iteration' hother
        refine ⟨hother, ?_, rfl, rfl⟩
        rw [Queue.bucket, ← hold hle]
        exact htaken
      · rw [Queue.index, Queue.index, ← hold hle]
        rfl
  | pushes generation =>
      exact halert.quiet hslots (fun _ _ _ hslot htaken => ⟨hslot, htaken, rfl, rfl⟩)
        (fun _ _ _ => rfl) (fun other hother => by simp [hother]) (hnot fun _ _ _ => id)

/-! ## Runs -/

omit [DecidableEq τ] [DecidableEq ω] in
theorem Slots.initial (cap : ℕ) : (withCapacity cap : Queue τ ω).Slots := by
  constructor <;> simp [withCapacity, Point.Fits]

omit [DecidableEq τ] [DecidableEq ω] in
theorem Alert.initial (cap : ℕ) : (withCapacity cap : Queue τ ω).Alert := by
  intro other generation iteration hother
  cases hother

structure Inv (queue : Queue τ ω) : Prop where
  expansion : queue.Expansion
  slots : queue.Slots
  alert : queue.Alert

theorem Inv.step (hinv : queue.Inv)
    (hstep : Step checked queue task (queue.point task) queue') : queue'.Inv where
  expansion := hinv.expansion.step hstep
  slots := hinv.slots.step hinv.expansion hstep
  alert := hinv.alert.step hinv.slots hinv.expansion hstep

theorem step_of_next (cap : ℕ) {label : τ × Act ω} {events : List (τ × Act ω)}
    (hnext : (machine checked cap).next queue label = some (queue', events)) :
    Step checked queue label.1 (queue.point label.1) queue' := by
  simp only [machine, Option.map_eq_some_iff, Prod.mk.injEq] at hnext
  obtain ⟨next, hstep, rfl, -⟩ := hnext
  exact step_cases hstep

theorem Inv.of_reachable {cap : ℕ} (hcap : 0 < cap)
    (hreach : (machine checked cap).Reachable queue) : queue.Inv :=
  hreach.invariant ⟨.initial hcap, .initial cap, .initial cap⟩
    fun _ _ _ _ _ hinv hnext => hinv.step (step_of_next cap hnext)

omit [DecidableEq τ] [DecidableEq ω] in
theorem setBucket_buried {generation iteration other index : ℕ} {old bucket : Bucket ω}
    (hbucket : queue.bucket generation iteration = old) (hold : old ≠ .tombstone)
    (hburied : queue.Buried other index) :
    (queue.setBucket generation (queue.index generation iteration) bucket).Buried other
      index := by
  unfold Buried
  rw [waiters_setBucket]
  split
  case isTrue hat =>
    obtain ⟨rfl, rfl⟩ := hat
    exact absurd (hbucket.symm.trans hburied) hold
  case isFalse => exact hburied

/-- A step leaves the tombstones of the generations so far, and the current
generation is never an earlier one. -/
theorem Step.buried (hexp : queue.Expansion)
    (hstep : Step checked queue task (queue.point task) queue') {generation index : ℕ}
    (hle : generation ≤ queue.atom.generation) (hburied : queue.Buried generation index) :
    generation ≤ queue'.atom.generation ∧ queue'.Buried generation index := by
  generalize hbefore : queue.point task = before at hstep
  cases hstep with
  | registers waker hbucket => exact ⟨hle, setBucket_buried hbucket (by simp) hburied⟩
  | consumes waker hbucket => exact ⟨hle, setBucket_buried hbucket (by simp) hburied⟩
  | registersAgain waker hbucket => exact ⟨hle, setBucket_buried hbucket (by simp) hburied⟩
  | leaves waker hbucket => exact ⟨hle, setBucket_buried hbucket (by simp) hburied⟩
  | takes hbucket => exact ⟨hle, setBucket_buried hbucket (by simp) hburied⟩
  | marks hbucket => exact ⟨hle, setBucket_buried hbucket (by simp) hburied⟩
  | buriesWaiting => exact ⟨hle, buried_setBucket.mpr (Or.inr hburied)⟩
  | buries => exact ⟨hle, buried_setBucket.mpr (Or.inr hburied)⟩
  | @grows swept index' new hindex hnew =>
      -- the new generation is a later one
      have hlast := (hexp.swept task swept index' (by rw [hbefore]; rfl)).1
      have hne : generation ≠ queue.last + 1 := by omega
      refine ⟨?_, by simpa [Buried, hne] using hburied⟩
      change generation ≤ queue.last + 1
      omega
  | _ => exact ⟨hle, hburied⟩

theorem buried_of_trace {cap : ℕ} {events : List (τ × Act ω)} (hinv : queue.Inv)
    (htrace : ((machine checked cap).start queue).Trace events queue') {generation index : ℕ}
    (hle : generation ≤ queue.atom.generation) (hburied : queue.Buried generation index) :
    queue'.Buried generation index := by
  have hrun := htrace.invariant
    (motive := fun _ state => state.Inv ∧ generation ≤ state.atom.generation ∧
      state.Buried generation index) ⟨hinv, hle, hburied⟩ ?_
  · exact hrun.2.2
  · rintro - state label next events - ⟨hinv, hle, hburied⟩ hnext
    have hstep := step_of_next cap hnext
    exact ⟨hinv.step hstep, hstep.buried hinv.expansion hle hburied⟩

/-- The waker that the future registered last was woken, or a notification has
taken it and wakes it next. -/
def Notified (queue : Queue τ ω) (task : τ) (generation iteration : ℕ) : Prop :=
  queue.woken task = true ∨ ∃ other iteration' last waker,
    queue.point other = .notifyWake generation iteration' last waker ∧
      queue.index generation iteration' = queue.index generation iteration ∧
      queue.registered task = some waker

omit [DecidableEq τ] [DecidableEq ω] in
/-- Outside the current generation nobody expands any more. -/
theorem Inv.notified (hinv : queue.Inv) {generation iteration : ℕ}
    (hlt : generation < queue.atom.generation)
    (hslot : queue.slot task = some (generation, iteration)) :
    queue.Notified task generation iteration := by
  have hindex : queue.index generation iteration < queue.capacity generation :=
    Nat.mod_lt _ (hinv.expansion.positive generation (Nat.le_of_lt hlt))
  have hburied := hinv.expansion.retired generation hlt _ hindex
  rcases hinv.alert task generation iteration hslot (Or.inr hburied) with
    hdone | ⟨other, waker, hregistered, htakes⟩
  · exact Or.inl hdone
  · cases hpoint : queue.point other with
    | notifyWake generation' iteration' last taken =>
        rw [hpoint] at htakes
        obtain ⟨rfl, hsame, rfl⟩ := htakes
        exact Or.inr ⟨other, iteration', last, taken, hpoint, hsame, hregistered⟩
    | expandWake generation' buried taken =>
        rw [hpoint] at htakes
        obtain ⟨rfl, -, -⟩ := htakes
        have hlast := (hinv.expansion.swept other generation' (buried + 1)
          (by rw [hpoint]; rfl)).1
        have hcurrent := hinv.expansion.last other generation' (by rw [hpoint]; rfl)
        omega
    | _ =>
        rw [hpoint] at htakes
        exact htakes.elim

/-- The tasks at work in `expand` for this generation. -/
def Expands (queue : Queue τ ω) (generation : ℕ) : Prop :=
  ∃ task, queue.point task = .expandLock generation ∨
    (queue.point task).sweeps = some generation

/-- Who owns the buckets. -/
structure Owned (checked : Bool) (cap : ℕ) (queue : Queue τ ω) : Prop where
  held : ∀ task generation iteration, queue.slot task = some (generation, iteration) →
    (queue.bucket generation iteration).Held (queue.registered task)
  apart : ∀ task other generation iteration iteration',
    queue.slot task = some (generation, iteration) →
      queue.slot other = some (generation, iteration') →
        queue.index generation iteration = queue.index generation iteration' →
          task = other
  reachable : ∀ task, queue.point task ≠ .unreachable
  buried : ∀ generation ≤ queue.atom.generation, ∀ index, queue.Buried generation index →
    ∀ events later, ((machine checked cap).start queue).Trace events later →
      later.Buried generation index
  retired : ∀ generation < queue.atom.generation,
    ∀ index < queue.capacity generation, queue.Buried generation index
  notified : ∀ generation < queue.atom.generation, ∀ task iteration,
    queue.slot task = some (generation, iteration) →
      queue.Notified task generation iteration

theorem Inv.owned {cap : ℕ} (hinv : queue.Inv) : queue.Owned checked cap := by
  constructor
  case held => exact hinv.slots.held
  case apart => exact hinv.slots.apart
  case reachable =>
    intro task hpoint
    have hfits := hinv.slots.fits task
    rw [hpoint] at hfits
    exact hfits
  case buried =>
    exact fun generation hle index hburied events later htrace =>
      buried_of_trace hinv htrace hle hburied
  case retired => exact hinv.expansion.retired
  case notified =>
    exact fun generation hlt task iteration hslot => hinv.notified hlt hslot

/-- Whatever the tasks poll and notify, a waiting future keeps its own bucket
until that is a tombstone for good, and is woken before it can be forgotten. -/
theorem bucketOwned_of_reachable {cap : ℕ} (hcap : 0 < cap)
    (hreach : (machine checked cap).Reachable queue) : queue.Owned checked cap :=
  (Inv.of_reachable hcap hreach).owned

/-- A notification takes the waker of a future, another task expands the queue,
and a third wait goes to the new generation while the first future is asleep. -/
theorem bucketOwned_of_expand :
    ∃ queue : Queue (Fin 3) (Fin 3), queue.atom.generation = 1 ∧
      queue.slot 0 = some (0, 0) ∧ queue.bucket 0 0 = .tombstone ∧ queue.woken 0 = false ∧
      queue.point 1 = .notifyWake 0 0 1 0 ∧ queue.slot 2 = some (1, 0) ∧
      queue.bucket 1 0 = .waiting 2 ∧ queue.Owned true 1 := by
  let single : Machine (Queue (Fin 3) (Fin 3)) (Fin 3 × Act (Fin 3)) _ := machine true 1
  let labels : List (Fin 3 × Act (Fin 3)) :=
    [(0, .enter 0), (0, .step false true), (0, .step false true), (0, .step false true),
      (0, .step false true), (1, .notify 1), (1, .step false true), (1, .step false true),
      (1, .step false true), (1, .step false true), (2, .enter 2), (2, .step false true),
      (2, .step false true), (2, .step false true), (2, .step false true),
      (2, .step false true), (2, .step false true), (2, .step false true),
      (2, .step false true), (2, .enter 2), (2, .step false true), (2, .step false true),
      (2, .step false true), (2, .step false true)]
  have hrun : (single.run labels).map (fun result =>
      decide (result.1.atom.generation = 1 ∧ result.1.slot 0 = some (0, 0) ∧
        result.1.bucket 0 0 = .tombstone ∧ result.1.woken 0 = false ∧
        result.1.point 1 = .notifyWake 0 0 1 0 ∧ result.1.slot 2 = some (1, 0) ∧
        result.1.bucket 1 0 = .waiting 2)) = some true := by decide +kernel
  obtain ⟨⟨queue, history⟩, hresult, hgood⟩ := Option.map_eq_some_iff.mp hrun
  obtain ⟨hatom, hslot, hbucket, hwoken, hpoint, hslot', hbucket'⟩ := of_decide_eq_true hgood
  exact ⟨queue, hatom, hslot, hbucket, hwoken, hpoint, hslot', hbucket',
    bucketOwned_of_reachable (by decide) (single.reachable_of_run labels hresult)⟩

/-- A notification takes the waker of a future, and before it wakes it another
task meets the bucket and expands the queue. -/
def overtaken : List (Fin 3 × Act (Fin 3)) :=
  [(0, .enter 0), (0, .step false true), (0, .step false true), (0, .step false true),
    (0, .step false true), (1, .notify 1), (1, .step false true), (1, .step false true),
    (1, .step false true), (1, .step false true), (2, .enter 2), (2, .step false true),
    (2, .step false true), (2, .step false true), (2, .step false true),
    (2, .step false true), (2, .step false true), (2, .step false true),
    (2, .step false true)]

/-- The waker that a notification took is not woken yet when nobody expands its
generation any more. -/
theorem asleep_of_overtaken :
    ¬ ∀ queue : Queue (Fin 3) (Fin 3), (machine true 1).Reachable queue →
      ∀ generation < queue.atom.generation, ¬ queue.Expands generation →
        ∀ task iteration, queue.slot task = some (generation, iteration) →
          queue.woken task = true := by
  intro hwoken
  have hrun : (((machine true 1).run overtaken).map fun result =>
      decide (0 < result.1.atom.generation ∧ result.1.slot 0 = some (0, 0) ∧
        result.1.woken 0 = false ∧ ∀ task, ¬ (result.1.point task = .expandLock 0 ∨
          (result.1.point task).sweeps = some 0))) = some true := by
    decide +kernel
  obtain ⟨result, hresult, hasleep⟩ := Option.map_eq_some_iff.mp hrun
  obtain ⟨hlt, hslot, hfalse, hnobody⟩ := of_decide_eq_true hasleep
  have htrue := hwoken result.1 ((machine true 1).reachable_of_run _ hresult) 0 hlt
    (fun ⟨task, hexpands⟩ => hnobody task hexpands) 0 0 hslot
  exact absurd (hfalse.symm.trans htrue) (by decide)

end Queue

end Futex2

end AsyncMutex
