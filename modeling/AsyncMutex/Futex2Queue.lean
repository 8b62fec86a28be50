import AsyncMutex.Transition
import Mathlib.Algebra.Group.Nat.Defs
import Mathlib.Tactic.Simps.Basic

/-!
# The ring of buckets: `futex2/mod.rs`

A `Queue` hands out iterations of its current generation to waits and to
notifies; the two meet in the bucket of the iteration.  Whoever meets something
else there expands the queue: it buries every bucket of the generation and
makes a larger one.

Each task polls one `wait_if` future at a time and may call `notify` between
its polls.  A step is one atomic operation, one wake or one evaluation of a
condition.
-/

namespace AsyncMutex

namespace Futex2

/-- The values of `usize_half`. -/
def half : ℕ := 2 ^ 32

/-- Addition in `usize_half`: `checked` builds panic where others wrap. -/
def add (checked : Bool) (first second : ℕ) : Option ℕ :=
  if first + second < half then some (first + second)
  else if checked then none
  else some ((first + second) % half)

inductive Bucket (ω : Type) where
  | empty (iteration : ℕ)
  | woken (iteration : ℕ)
  | waiting (waker : ω)
  | waking
  | tombstone
deriving DecidableEq

structure Generation (ω : Type) where
  capacity : ℕ
  waiters : ℕ → Bucket ω

namespace Generation

variable {ω : Type}

def new (cap : ℕ) : Option (Generation ω) :=
  if cap ≤ half then some ⟨cap, fun iteration => .empty iteration⟩ else none

/-- `Index<usize_half>`. -/
def index (generation : Generation ω) (iteration : ℕ) : ℕ :=
  iteration % generation.capacity

def get (generation : Generation ω) (iteration : ℕ) : Bucket ω :=
  generation.waiters (generation.index iteration)

/-- `waiters.len() as usize_half`. -/
def cap (generation : Generation ω) : ℕ := generation.capacity % half

@[simps] def set (generation : Generation ω) (index : ℕ) (bucket : Bucket ω) :
    Generation ω :=
  { generation with waiters := Function.update generation.waiters index bucket }

end Generation

/-- A generation is named by its index in `Queue::generations`. -/
structure Atom where
  generation : ℕ
  waits : ℕ
  notifies : ℕ
deriving DecidableEq

/-- Where a task stands. -/
inductive Point (ω : Type) where
  | rest
  /-- `poll_enter`. -/
  | enterLoad (waker : ω)
  | enterCas (waker : ω) (atom : Atom)
  | enterBucket (waker : ω) (generation iteration : ℕ) (current : Bucket ω)
  | condition (generation iteration : ℕ)
  /-- `poll_waiting`. -/
  | waitLoad (waker : ω) (generation iteration : ℕ)
  | waitCas (waker : ω) (generation iteration : ℕ) (current : Bucket ω)
  /-- `notify`, which the task calls itself or for a condition that failed. -/
  | notifyLoad (called : Bool) (amount : ℕ)
  | notifyCas (called : Bool) (amount : ℕ) (atom : Atom)
  /-- The loop of `notify` up to the iteration `last`. -/
  | bucketLoad (generation iteration last : ℕ)
  | bucketCas (generation iteration last : ℕ) (old : Bucket ω)
  | notifyWake (generation iteration last : ℕ) (waker : ω)
  /-- `expand`, with the index of the loop. -/
  | expandLock (generation : ℕ)
  | expandSwap (generation index : ℕ)
  | expandWake (generation index : ℕ) (waker : ω)
  | expandPush (generation : ℕ)
  | panicked
  /-- `unreachable!()`. -/
  | unreachable
deriving DecidableEq

inductive Act (ω : Type) where
  /-- The first poll of a new `wait_if` future. -/
  | enter (waker : ω)
  /-- Another poll of the pending future. -/
  | poll (waker : ω)
  | notify (amount : ℕ)
  | step (spurious condition : Bool)
deriving DecidableEq

structure Queue (τ ω : Type) where
  atom : Atom
  generations : ℕ → Generation ω
  /-- The last generation that `expand` pushed. -/
  last : ℕ
  /-- The holder of the lock of `generations`. -/
  lock : Option τ
  poisoned : Bool
  point : τ → Point ω
  /-- The generation and iteration that the task's future waits for, from the
  exchange of its bucket until it is ready. -/
  slot : τ → Option (ℕ × ℕ)
  /-- The waker that this future registered last. -/
  registered : τ → Option ω
  /-- This waker was woken since. -/
  woken : τ → Bool

namespace Queue

variable {τ ω : Type}

/-- `Queue::with_capacity`, for a capacity that passes the assertion of
`Generation::new`. -/
def withCapacity (cap : ℕ) : Queue τ ω where
  atom := ⟨0, 0, 0⟩
  generations generation := ⟨if generation = 0 then cap else 0, fun index => .empty index⟩
  last := 0
  lock := none
  poisoned := false
  point _ := .rest
  slot _ := none
  registered _ := none
  woken _ := false

variable [DecidableEq τ] [DecidableEq ω]

@[simps -fullyApplied] def setPoint (queue : Queue τ ω) (task : τ) (point : Point ω) : Queue τ ω :=
  { queue with point := Function.update queue.point task point }

@[simps -fullyApplied] def setSlot (queue : Queue τ ω) (task : τ) (slot : Option (ℕ × ℕ)) :
    Queue τ ω :=
  { queue with slot := Function.update queue.slot task slot }

@[simps -fullyApplied] def setBucket (queue : Queue τ ω) (generation index : ℕ)
    (bucket : Bucket ω) :
    Queue τ ω :=
  { queue with
    generations := Function.update queue.generations generation
      ((queue.generations generation).set index bucket) }

@[simps -fullyApplied] def setAtom (queue : Queue τ ω) (atom : Atom) : Queue τ ω :=
  { queue with atom := atom }

@[simps -fullyApplied] def setGeneration (queue : Queue τ ω) (generation : ℕ) (new : Generation ω) :
    Queue τ ω :=
  { queue with generations := Function.update queue.generations generation new }

@[simps -fullyApplied] def setLast (queue : Queue τ ω) (last : ℕ) : Queue τ ω :=
  { queue with last := last }

@[simps -fullyApplied] def setLock (queue : Queue τ ω) (lock : Option τ) : Queue τ ω :=
  { queue with lock := lock }

@[simps -fullyApplied] def poison (queue : Queue τ ω) : Queue τ ω :=
  { queue with poisoned := true }

@[simps -fullyApplied] def register (queue : Queue τ ω) (task : τ) (waker : ω) : Queue τ ω :=
  { queue with
    registered := Function.update queue.registered task (some waker)
    woken := Function.update queue.woken task false }

/-- `Waker::wake`: every future that registered this waker is woken. -/
@[simps -fullyApplied] def wake (queue : Queue τ ω) (waker : ω) : Queue τ ω :=
  { queue with woken := fun task =>
      queue.woken task || queue.registered task = some waker }

def bucket (queue : Queue τ ω) (generation iteration : ℕ) : Bucket ω :=
  (queue.generations generation).get iteration

def index (queue : Queue τ ω) (generation iteration : ℕ) : ℕ :=
  (queue.generations generation).index iteration

omit [DecidableEq ω] in
@[simp] theorem bucket_setPoint (queue : Queue τ ω) (task : τ) (point : Point ω)
    (generation iteration : ℕ) :
    (queue.setPoint task point).bucket generation iteration =
      queue.bucket generation iteration := rfl

omit [DecidableEq ω] in
@[simp] theorem index_setPoint (queue : Queue τ ω) (task : τ) (point : Point ω)
    (generation iteration : ℕ) :
    (queue.setPoint task point).index generation iteration = queue.index generation iteration := rfl

omit [DecidableEq ω] in
@[simp] theorem bucket_setSlot (queue : Queue τ ω) (task : τ) (slot : Option (ℕ × ℕ))
    (generation iteration : ℕ) :
    (queue.setSlot task slot).bucket generation iteration = queue.bucket generation iteration := rfl

omit [DecidableEq ω] in
@[simp] theorem index_setSlot (queue : Queue τ ω) (task : τ) (slot : Option (ℕ × ℕ))
    (generation iteration : ℕ) :
    (queue.setSlot task slot).index generation iteration = queue.index generation iteration := rfl

omit [DecidableEq τ] [DecidableEq ω] in
@[simp] theorem bucket_setAtom (queue : Queue τ ω) (atom : Atom) (generation iteration : ℕ) :
    (queue.setAtom atom).bucket generation iteration = queue.bucket generation iteration := rfl

omit [DecidableEq τ] [DecidableEq ω] in
@[simp] theorem index_setAtom (queue : Queue τ ω) (atom : Atom) (generation iteration : ℕ) :
    (queue.setAtom atom).index generation iteration = queue.index generation iteration := rfl

omit [DecidableEq ω] in
@[simp] theorem bucket_register (queue : Queue τ ω) (task : τ) (waker : ω)
    (generation iteration : ℕ) :
    (queue.register task waker).bucket generation iteration =
      queue.bucket generation iteration := rfl

omit [DecidableEq ω] in
@[simp] theorem index_register (queue : Queue τ ω) (task : τ) (waker : ω)
    (generation iteration : ℕ) :
    (queue.register task waker).index generation iteration = queue.index generation iteration := rfl

omit [DecidableEq τ] in
@[simp] theorem bucket_wake (queue : Queue τ ω) (waker : ω) (generation iteration : ℕ) :
    (queue.wake waker).bucket generation iteration = queue.bucket generation iteration := rfl

omit [DecidableEq τ] in
@[simp] theorem index_wake (queue : Queue τ ω) (waker : ω) (generation iteration : ℕ) :
    (queue.wake waker).index generation iteration = queue.index generation iteration := rfl

/-! ## Steps -/

/-- The exchange of the bucket in `poll_enter`. -/
def enterBucket (checked : Bool) (queue : Queue τ ω) (task : τ) (waker : ω)
    (generation iteration : ℕ) (current : Bucket ω) (spurious : Bool) : Queue τ ω :=
  let again :=
    queue.setPoint task (.enterBucket waker generation iteration
      (queue.bucket generation iteration))
  let expand := queue.setPoint task (.expandLock generation)
  let matched := queue.bucket generation iteration = current ∧ spurious = false
  match current with
  | .empty other =>
      if other = iteration then
        if matched then
          (((queue.setBucket generation (queue.index generation iteration)
            (.waiting waker)).setSlot task (some (generation, iteration))).register task
              waker).setPoint task (.condition generation iteration)
        else again
      else expand
  | .woken other =>
      if other = iteration then
        match add checked iteration (queue.generations generation).cap with
        | none => queue.setPoint task .panicked
        | some next =>
            if matched then
              (queue.setBucket generation (queue.index generation iteration)
                (.empty next)).setPoint task .rest
            else again
      else expand
  | _ => expand

/-- The exchange of the bucket in `poll_waiting`. -/
def waitCas (checked : Bool) (queue : Queue τ ω) (task : τ) (waker : ω)
    (generation iteration : ℕ) (current : Bucket ω) (spurious : Bool) : Queue τ ω :=
  let again :=
    queue.setPoint task (.waitCas waker generation iteration
      (queue.bucket generation iteration))
  let matched := queue.bucket generation iteration = current ∧ spurious = false
  match current with
  | .waiting _ =>
      if matched then
        ((queue.setBucket generation (queue.index generation iteration)
          (.waiting waker)).register task waker).setPoint task .rest
      else again
  | .waking =>
      match add checked iteration (queue.generations generation).cap with
      | none => (queue.setSlot task none).setPoint task .panicked
      | some next =>
          if matched then
            ((queue.setBucket generation (queue.index generation iteration)
              (.empty next)).setSlot task none).setPoint task .rest
          else again
  | .tombstone => (queue.setSlot task none).setPoint task (.expandLock generation)
  | _ => queue.setPoint task .unreachable

/-- The loop of `notify` at an iteration. -/
def visit (generation iteration last : ℕ) : Point ω :=
  if iteration < last then .bucketLoad generation iteration last else .rest

/-- The exchange of the atom in `notify`. -/
def notifyCas (checked : Bool) (queue : Queue τ ω) (task : τ) (called : Bool)
    (amount : ℕ) (atom : Atom) (spurious : Bool) : Queue τ ω :=
  match add checked atom.notifies amount with
  | none => queue.setPoint task .panicked
  | some sum =>
      if queue.atom = atom ∧ spurious = false then
        (queue.setAtom { atom with notifies := min sum atom.waits }).setPoint task
          (visit atom.generation atom.notifies (min sum atom.waits))
      else queue.setPoint task (.notifyCas called amount queue.atom)

/-- The exchange of a bucket in `notify`. -/
def bucketCas (queue : Queue τ ω) (task : τ) (generation iteration last : ℕ)
    (old : Bucket ω) (spurious : Bool) : Queue τ ω :=
  let again :=
    queue.setPoint task (.bucketCas generation iteration last
      (queue.bucket generation iteration))
  let expand := queue.setPoint task (.expandLock generation)
  let matched := queue.bucket generation iteration = old ∧ spurious = false
  match old with
  | .waiting waker =>
      if matched then
        (queue.setBucket generation (queue.index generation iteration) .waking).setPoint
          task (.notifyWake generation iteration last waker)
      else again
  | .empty other =>
      if other = iteration then
        if matched then
          (queue.setBucket generation (queue.index generation iteration)
            (.woken iteration)).setPoint task (visit generation (iteration + 1) last)
        else again
      else expand
  | _ => expand

/-- The lock of `expand`, which is released at once when the generation is not
the last one. -/
def expandLock (queue : Queue τ ω) (task : τ) (generation : ℕ) : Option (Queue τ ω) :=
  if queue.lock ≠ none then none
  else if queue.poisoned then some (queue.setPoint task .panicked)
  else if queue.last = generation then
    some ((queue.setLock (some task)).setPoint task (.expandSwap generation 0))
  else some (queue.setPoint task .rest)

/-- One turn of the loop of `expand`, or the exchange of the atom after it. -/
def expandSwap (queue : Queue τ ω) (task : τ) (generation index : ℕ) : Queue τ ω :=
  if index < (queue.generations generation).capacity then
    let buried := queue.setBucket generation index .tombstone
    match (queue.generations generation).waiters index with
    | .waiting waker => buried.setPoint task (.expandWake generation index waker)
    | _ => buried.setPoint task (.expandSwap generation (index + 1))
  else
    match Generation.new ((queue.generations generation).capacity * 2) with
    -- the assertion in `Generation::new`
    | none => ((queue.setLock none).poison).setPoint task .panicked
    | some new =>
        ((queue.setGeneration (queue.last + 1) new).setAtom ⟨queue.last + 1, 0, 0⟩).setPoint
          task (.expandPush generation)

def step (checked : Bool) (queue : Queue τ ω) (task : τ) (act : Act ω) :
    Option (Queue τ ω) :=
  match act, queue.point task, queue.slot task with
  | .enter waker, .rest, none => some (queue.setPoint task (.enterLoad waker))
  | .poll waker, .rest, some (generation, iteration) =>
      some (queue.setPoint task (.waitLoad waker generation iteration))
  | .notify amount, .rest, _ =>
      some (queue.setPoint task (.notifyLoad true (amount % half)))
  | .step _ _, .enterLoad waker, _ =>
      some (queue.setPoint task (.enterCas waker queue.atom))
  | .step spurious _, .enterCas waker atom, _ =>
      match add checked atom.waits 1 with
      | none => some (queue.setPoint task .panicked)
      | some waits =>
          if queue.atom = atom ∧ spurious = false then
            some ((queue.setAtom { atom with waits := waits }).setPoint task
              (.enterBucket waker atom.generation atom.waits (.empty atom.waits)))
          else some (queue.setPoint task (.enterCas waker queue.atom))
  | .step spurious _, .enterBucket waker generation iteration current, _ =>
      some (queue.enterBucket checked task waker generation iteration current spurious)
  | .step _ condition, .condition _ _, _ =>
      if condition then some (queue.setPoint task .rest)
      else some ((queue.setSlot task none).setPoint task (.notifyLoad false 1))
  | .step _ _, .waitLoad waker generation iteration, _ =>
      some (queue.setPoint task (.waitCas waker generation iteration
        (queue.bucket generation iteration)))
  | .step spurious _, .waitCas waker generation iteration current, _ =>
      some (queue.waitCas checked task waker generation iteration current spurious)
  | .step _ _, .notifyLoad called amount, _ =>
      some (queue.setPoint task (.notifyCas called amount queue.atom))
  | .step spurious _, .notifyCas called amount atom, _ =>
      some (queue.notifyCas checked task called amount atom spurious)
  | .step _ _, .bucketLoad generation iteration last, _ =>
      some (queue.setPoint task (.bucketCas generation iteration last
        (queue.bucket generation iteration)))
  | .step spurious _, .bucketCas generation iteration last old, _ =>
      some (queue.bucketCas task generation iteration last old spurious)
  | .step _ _, .notifyWake generation iteration last waker, _ =>
      some ((queue.wake waker).setPoint task (visit generation (iteration + 1) last))
  | .step _ _, .expandLock generation, _ => queue.expandLock task generation
  | .step _ _, .expandSwap generation index, _ =>
      some (queue.expandSwap task generation index)
  | .step _ _, .expandWake generation index waker, _ =>
      some ((queue.wake waker).setPoint task (.expandSwap generation (index + 1)))
  | .step _ _, .expandPush _, _ =>
      some (((queue.setLast (queue.last + 1)).setLock none).setPoint task .rest)
  | _, _, _ => none

/-! ## What a step can do -/

/-- A task moves from one point to another and touches nothing else. -/
inductive Quiet (checked : Bool) (queue : Queue τ ω) (task : τ) : Point ω → Point ω → Prop
  | enter (waker : ω) (hslot : queue.slot task = none) :
      Quiet checked queue task .rest (.enterLoad waker)
  | poll (waker : ω) {generation iteration : ℕ}
      (hslot : queue.slot task = some (generation, iteration)) :
      Quiet checked queue task .rest (.waitLoad waker generation iteration)
  | notify (amount : ℕ) :
      Quiet checked queue task .rest (.notifyLoad true (amount % half))
  | enterLoad (waker : ω) :
      Quiet checked queue task (.enterLoad waker) (.enterCas waker queue.atom)
  | enterAgain (waker : ω) (atom : Atom) :
      Quiet checked queue task (.enterCas waker atom) (.enterCas waker queue.atom)
  | enterPanics {waker : ω} {atom : Atom} (hadd : add checked atom.waits 1 = none) :
      Quiet checked queue task (.enterCas waker atom) .panicked
  | bucketAgain (waker : ω) (generation iteration : ℕ) (current : Bucket ω) :
      Quiet checked queue task (.enterBucket waker generation iteration current)
        (.enterBucket waker generation iteration (queue.bucket generation iteration))
  | bucketPanics (waker : ω) (generation iteration : ℕ) (current : Bucket ω) :
      Quiet checked queue task (.enterBucket waker generation iteration current) .panicked
  | bucketExpands (waker : ω) (generation iteration : ℕ) (current : Bucket ω) :
      Quiet checked queue task (.enterBucket waker generation iteration current)
        (.expandLock generation)
  | pends (generation iteration : ℕ) :
      Quiet checked queue task (.condition generation iteration) .rest
  | waitLoad (waker : ω) (generation iteration : ℕ) :
      Quiet checked queue task (.waitLoad waker generation iteration)
        (.waitCas waker generation iteration (queue.bucket generation iteration))
  | waitAgain (waker : ω) (generation iteration : ℕ) (current : Bucket ω) :
      Quiet checked queue task (.waitCas waker generation iteration current)
        (.waitCas waker generation iteration (queue.bucket generation iteration))
  | waitUnreachable (waker : ω) (generation iteration : ℕ) {current : Bucket ω}
      (hcurrent : (∃ other, current = .empty other) ∨ ∃ other, current = .woken other) :
      Quiet checked queue task (.waitCas waker generation iteration current) .unreachable
  | notifyLoad (called : Bool) (amount : ℕ) :
      Quiet checked queue task (.notifyLoad called amount)
        (.notifyCas called amount queue.atom)
  | notifyAgain (called : Bool) (amount : ℕ) (atom : Atom) :
      Quiet checked queue task (.notifyCas called amount atom)
        (.notifyCas called amount queue.atom)
  | notifyPanics (called : Bool) (amount : ℕ) (atom : Atom) :
      Quiet checked queue task (.notifyCas called amount atom) .panicked
  | visitLoad (generation iteration last : ℕ) :
      Quiet checked queue task (.bucketLoad generation iteration last)
        (.bucketCas generation iteration last (queue.bucket generation iteration))
  | visitAgain (generation iteration last : ℕ) (old : Bucket ω) :
      Quiet checked queue task (.bucketCas generation iteration last old)
        (.bucketCas generation iteration last (queue.bucket generation iteration))
  | visitExpands (generation iteration last : ℕ) (old : Bucket ω) :
      Quiet checked queue task (.bucketCas generation iteration last old)
        (.expandLock generation)
  | expandPanics {generation : ℕ} (hpoisoned : queue.poisoned = true) :
      Quiet checked queue task (.expandLock generation) .panicked
  | expandReturns {generation : ℕ} (hlock : queue.lock = none)
      (hlast : queue.last ≠ generation) :
      Quiet checked queue task (.expandLock generation) .rest

/-- The steps of a task, from its point. -/
inductive Step (checked : Bool) (queue : Queue τ ω) (task : τ) : Point ω → Queue τ ω → Prop
  | quiet {before after : Point ω} (hquiet : Quiet checked queue task before after) :
      Step checked queue task before (queue.setPoint task after)
  | waits (waker : ω) {waits : ℕ} (hadd : add checked queue.atom.waits 1 = some waits) :
      Step checked queue task (.enterCas waker queue.atom)
        ((queue.setAtom { queue.atom with waits := waits }).setPoint task
          (.enterBucket waker queue.atom.generation queue.atom.waits
            (.empty queue.atom.waits)))
  | registers (waker : ω) {generation iteration : ℕ}
      (hbucket : queue.bucket generation iteration = .empty iteration) :
      Step checked queue task (.enterBucket waker generation iteration (.empty iteration))
        ((((queue.setBucket generation (queue.index generation iteration)
          (.waiting waker)).setSlot task (some (generation, iteration))).register task
            waker).setPoint task (.condition generation iteration))
  | consumes (waker : ω) {generation iteration next : ℕ}
      (hbucket : queue.bucket generation iteration = .woken iteration) :
      Step checked queue task (.enterBucket waker generation iteration (.woken iteration))
        ((queue.setBucket generation (queue.index generation iteration)
          (.empty next)).setPoint task .rest)
  | abandons (generation iteration : ℕ) :
      Step checked queue task (.condition generation iteration)
        ((queue.setSlot task none).setPoint task (.notifyLoad false 1))
  | registersAgain (waker : ω) {generation iteration : ℕ} {old : ω}
      (hbucket : queue.bucket generation iteration = .waiting old) :
      Step checked queue task (.waitCas waker generation iteration (.waiting old))
        (((queue.setBucket generation (queue.index generation iteration)
          (.waiting waker)).register task waker).setPoint task .rest)
  | leaves (waker : ω) {generation iteration next : ℕ}
      (hbucket : queue.bucket generation iteration = .waking) :
      Step checked queue task (.waitCas waker generation iteration .waking)
        (((queue.setBucket generation (queue.index generation iteration)
          (.empty next)).setSlot task none).setPoint task .rest)
  | leavesPanicking (waker : ω) (generation iteration : ℕ) :
      Step checked queue task (.waitCas waker generation iteration .waking)
        ((queue.setSlot task none).setPoint task .panicked)
  | leavesExpanding (waker : ω) (generation iteration : ℕ) :
      Step checked queue task (.waitCas waker generation iteration .tombstone)
        ((queue.setSlot task none).setPoint task (.expandLock generation))
  | notifies (called : Bool) (amount : ℕ) {sum : ℕ}
      (hadd : add checked queue.atom.notifies amount = some sum) :
      Step checked queue task (.notifyCas called amount queue.atom)
        ((queue.setAtom { queue.atom with
          notifies := min sum queue.atom.waits }).setPoint task
            (visit queue.atom.generation queue.atom.notifies (min sum queue.atom.waits)))
  | takes {generation iteration last : ℕ} {waker : ω}
      (hbucket : queue.bucket generation iteration = .waiting waker) :
      Step checked queue task (.bucketCas generation iteration last (.waiting waker))
        ((queue.setBucket generation (queue.index generation iteration) .waking).setPoint
          task (.notifyWake generation iteration last waker))
  | marks {generation iteration last : ℕ}
      (hbucket : queue.bucket generation iteration = .empty iteration) :
      Step checked queue task (.bucketCas generation iteration last (.empty iteration))
        ((queue.setBucket generation (queue.index generation iteration)
          (.woken iteration)).setPoint task (visit generation (iteration + 1) last))
  | notifyWakes (generation iteration last : ℕ) (waker : ω) :
      Step checked queue task (.notifyWake generation iteration last waker)
        ((queue.wake waker).setPoint task (visit generation (iteration + 1) last))
  | locks (hlock : queue.lock = none) (hpoisoned : queue.poisoned = false) :
      Step checked queue task (.expandLock queue.last)
        ((queue.setLock (some task)).setPoint task (.expandSwap queue.last 0))
  | buriesWaiting {generation index : ℕ} {waker : ω}
      (hindex : index < (queue.generations generation).capacity)
      (hwaiting : (queue.generations generation).waiters index = .waiting waker) :
      Step checked queue task (.expandSwap generation index)
        ((queue.setBucket generation index .tombstone).setPoint task
          (.expandWake generation index waker))
  | buries {generation index : ℕ}
      (hindex : index < (queue.generations generation).capacity)
      (hwaiting : ∀ waker, (queue.generations generation).waiters index ≠ .waiting waker) :
      Step checked queue task (.expandSwap generation index)
        ((queue.setBucket generation index .tombstone).setPoint task
          (.expandSwap generation (index + 1)))
  | expandWakes (generation index : ℕ) (waker : ω) :
      Step checked queue task (.expandWake generation index waker)
        ((queue.wake waker).setPoint task (.expandSwap generation (index + 1)))
  | fails {generation index : ℕ}
      (hindex : ¬ index < (queue.generations generation).capacity) :
      Step checked queue task (.expandSwap generation index)
        (((queue.setLock none).poison).setPoint task .panicked)
  | grows {generation index : ℕ} {new : Generation ω}
      (hindex : ¬ index < (queue.generations generation).capacity)
      (hnew : Generation.new ((queue.generations generation).capacity * 2) = some new) :
      Step checked queue task (.expandSwap generation index)
        (((queue.setGeneration (queue.last + 1) new).setAtom
          ⟨queue.last + 1, 0, 0⟩).setPoint task (.expandPush generation))
  | pushes (generation : ℕ) :
      Step checked queue task (.expandPush generation)
        (((queue.setLast (queue.last + 1)).setLock none).setPoint task .rest)

section Cases

variable {checked : Bool} {queue queue' : Queue τ ω} {task : τ}

theorem enterBucket_cases (waker : ω) (generation iteration : ℕ) (current : Bucket ω)
    (spurious : Bool) :
    Step checked queue task (.enterBucket waker generation iteration current)
      (queue.enterBucket checked task waker generation iteration current spurious) := by
  unfold enterBucket
  cases current with
  | empty other =>
      dsimp only
      split
      case isTrue hother =>
        subst hother
        split
        case isTrue hmatched => exact .registers waker hmatched.1
        case isFalse => exact .quiet (.bucketAgain ..)
      case isFalse => exact .quiet (.bucketExpands ..)
  | woken other =>
      dsimp only
      split
      case isTrue hother =>
        subst hother
        split
        case h_1 => exact .quiet (.bucketPanics ..)
        case h_2 =>
          split
          case isTrue hmatched => exact .consumes waker hmatched.1
          case isFalse => exact .quiet (.bucketAgain ..)
      case isFalse => exact .quiet (.bucketExpands ..)
  | waiting _ => exact .quiet (.bucketExpands ..)
  | waking => exact .quiet (.bucketExpands ..)
  | tombstone => exact .quiet (.bucketExpands ..)

theorem waitCas_cases (waker : ω) (generation iteration : ℕ) (current : Bucket ω)
    (spurious : Bool) :
    Step checked queue task (.waitCas waker generation iteration current)
      (queue.waitCas checked task waker generation iteration current spurious) := by
  unfold waitCas
  cases current with
  | waiting old =>
      dsimp only
      split
      case isTrue hmatched => exact .registersAgain waker hmatched.1
      case isFalse => exact .quiet (.waitAgain ..)
  | waking =>
      dsimp only
      split
      case h_1 => exact .leavesPanicking ..
      case h_2 =>
        split
        case isTrue hmatched => exact .leaves waker hmatched.1
        case isFalse => exact .quiet (.waitAgain ..)
  | tombstone => exact .leavesExpanding ..
  | empty other => exact .quiet (.waitUnreachable waker _ _ (Or.inl ⟨other, rfl⟩))
  | woken other => exact .quiet (.waitUnreachable waker _ _ (Or.inr ⟨other, rfl⟩))

theorem notifyCas_cases (called : Bool) (amount : ℕ) (atom : Atom) (spurious : Bool) :
    Step checked queue task (.notifyCas called amount atom)
      (queue.notifyCas checked task called amount atom spurious) := by
  unfold notifyCas
  split
  case h_1 => exact .quiet (.notifyPanics ..)
  case h_2 sum hadd =>
    split
    case isTrue hmatched =>
      obtain ⟨rfl, -⟩ := hmatched
      exact .notifies called amount hadd
    case isFalse => exact .quiet (.notifyAgain ..)

theorem bucketCas_cases (generation iteration last : ℕ) (old : Bucket ω)
    (spurious : Bool) :
    Step checked queue task (.bucketCas generation iteration last old)
      (queue.bucketCas task generation iteration last old spurious) := by
  unfold bucketCas
  cases old with
  | waiting waker =>
      dsimp only
      split
      case isTrue hmatched => exact .takes hmatched.1
      case isFalse => exact .quiet (.visitAgain ..)
  | empty other =>
      dsimp only
      split
      case isTrue hother =>
        subst hother
        split
        case isTrue hmatched => exact .marks hmatched.1
        case isFalse => exact .quiet (.visitAgain ..)
      case isFalse => exact .quiet (.visitExpands ..)
  | woken _ => exact .quiet (.visitExpands ..)
  | waking => exact .quiet (.visitExpands ..)
  | tombstone => exact .quiet (.visitExpands ..)

theorem expandLock_cases {generation : ℕ}
    (hstep : queue.expandLock task generation = some queue') :
    Step checked queue task (.expandLock generation) queue' := by
  unfold expandLock at hstep
  split at hstep
  case isTrue => cases hstep
  case isFalse hlock =>
    rw [not_not] at hlock
    split at hstep
    case isTrue hpoisoned =>
      cases hstep
      exact .quiet (.expandPanics hpoisoned)
    case isFalse hpoisoned =>
      split at hstep
      case isTrue hlast =>
        cases hstep
        subst hlast
        exact .locks hlock (eq_false_of_ne_true hpoisoned)
      case isFalse hlast =>
        cases hstep
        exact .quiet (.expandReturns hlock hlast)

theorem expandSwap_cases (generation index : ℕ) :
    Step checked queue task (.expandSwap generation index)
      (queue.expandSwap task generation index) := by
  unfold expandSwap
  split
  case isTrue hindex =>
    dsimp only
    split
    case h_1 waker hwaiting => exact .buriesWaiting hindex hwaiting
    case h_2 hwaiting => exact .buries hindex hwaiting
  case isFalse hindex =>
    split
    case h_1 => exact .fails hindex
    case h_2 new hnew => exact .grows hindex hnew

theorem step_cases {act : Act ω} (hstep : queue.step checked task act = some queue') :
    Step checked queue task (queue.point task) queue' := by
  unfold step at hstep
  split at hstep
  case h_1 waker hpoint hslot =>
    cases hstep
    rw [hpoint]
    exact .quiet (.enter waker hslot)
  case h_2 waker generation iteration hpoint hslot =>
    cases hstep
    rw [hpoint]
    exact .quiet (.poll waker hslot)
  case h_3 amount hpoint =>
    cases hstep
    rw [hpoint]
    exact .quiet (.notify amount)
  case h_4 waker hpoint =>
    cases hstep
    rw [hpoint]
    exact .quiet (.enterLoad waker)
  case h_5 waker atom hpoint =>
    rw [hpoint]
    split at hstep
    case h_1 hadd =>
      cases hstep
      exact .quiet (.enterPanics hadd)
    case h_2 waits hadd =>
      split at hstep
      case isTrue hmatched =>
        cases hstep
        obtain ⟨rfl, -⟩ := hmatched
        exact .waits waker hadd
      case isFalse =>
        cases hstep
        exact .quiet (.enterAgain ..)
  case h_6 waker generation iteration current hpoint =>
    cases hstep
    rw [hpoint]
    exact enterBucket_cases ..
  case h_7 condition generation iteration hpoint =>
    rw [hpoint]
    split at hstep <;> cases hstep
    · exact .quiet (.pends ..)
    · exact .abandons ..
  case h_8 waker generation iteration hpoint =>
    cases hstep
    rw [hpoint]
    exact .quiet (.waitLoad ..)
  case h_9 waker generation iteration current hpoint =>
    cases hstep
    rw [hpoint]
    exact waitCas_cases ..
  case h_10 called amount hpoint =>
    cases hstep
    rw [hpoint]
    exact .quiet (.notifyLoad ..)
  case h_11 called amount atom hpoint =>
    cases hstep
    rw [hpoint]
    exact notifyCas_cases ..
  case h_12 generation iteration last hpoint =>
    cases hstep
    rw [hpoint]
    exact .quiet (.visitLoad ..)
  case h_13 generation iteration last old hpoint =>
    cases hstep
    rw [hpoint]
    exact bucketCas_cases ..
  case h_14 generation iteration last waker hpoint =>
    cases hstep
    rw [hpoint]
    exact .notifyWakes ..
  case h_15 generation hpoint =>
    rw [hpoint]
    exact expandLock_cases hstep
  case h_16 generation index hpoint =>
    cases hstep
    rw [hpoint]
    exact expandSwap_cases ..
  case h_17 generation index waker hpoint =>
    cases hstep
    rw [hpoint]
    exact .expandWakes ..
  case h_18 generation hpoint =>
    cases hstep
    rw [hpoint]
    exact .pushes generation
  case h_19 => cases hstep

theorem Step.others {before : Point ω} (hstep : Step checked queue task before queue')
    {other : τ} (hother : other ≠ task) : queue'.point other = queue.point other := by
  cases hstep <;> simp [hother]

theorem step_rest {spurious condition : Bool}
    (hstep : queue.step checked task (.step spurious condition) = some queue') :
    queue.point task ≠ .rest := by
  intro hrest
  simp [step, hrest] at hstep

theorem step_enter {waker : ω} (hstep : queue.step checked task (.enter waker) = some queue') :
    queue.point task = .rest ∧ queue' = queue.setPoint task (.enterLoad waker) := by
  unfold step at hstep
  split at hstep <;> try contradiction
  case h_1 heq hrest _ =>
    cases heq
    exact ⟨hrest, (Option.some.inj hstep).symm⟩

theorem step_poll {waker : ω} (hstep : queue.step checked task (.poll waker) = some queue') :
    queue.point task = .rest ∧ ∃ generation iteration,
      queue' = queue.setPoint task (.waitLoad waker generation iteration) := by
  unfold step at hstep
  split at hstep <;> try contradiction
  case h_2 heq hrest _ =>
    cases heq
    exact ⟨hrest, _, _, (Option.some.inj hstep).symm⟩

theorem step_notify {amount : ℕ} (hstep : queue.step checked task (.notify amount) = some queue') :
    queue.point task = .rest ∧
      queue' = queue.setPoint task (.notifyLoad true (amount % half)) := by
  unfold step at hstep
  split at hstep <;> try contradiction
  case h_3 heq hrest =>
    cases heq
    exact ⟨hrest, (Option.some.inj hstep).symm⟩

/-- A point other than `rest` goes on by a step of its own. -/
theorem step_of_point {act : Act ω} (hrest : queue.point task ≠ .rest)
    (hstep : queue.step checked task act = some queue') :
    ∃ spurious condition, act = .step spurious condition := by
  cases act with
  | enter waker => exact absurd (step_enter hstep).1 hrest
  | poll waker => exact absurd (step_poll hstep).1 hrest
  | notify amount => exact absurd (step_notify hstep).1 hrest
  | step spurious condition => exact ⟨spurious, condition, rfl⟩

theorem add_of_lt {first second : ℕ} (hlt : first + second < half) :
    add checked first second = some (first + second) := by
  unfold add
  rw [if_pos hlt]

theorem checked_of_add {first second : ℕ} (hadd : add checked first second = none) :
    checked = true ∧ ¬ first + second < half := by
  unfold add at hadd
  split at hadd
  case isTrue => cases hadd
  case isFalse hlt =>
    split at hadd
    case isTrue hchecked => exact ⟨hchecked, hlt⟩
    case isFalse => cases hadd

omit [DecidableEq ω] in
theorem visit_ne_panicked (generation iteration last : ℕ) :
    (visit generation iteration last : Point ω) ≠ .panicked := by
  unfold visit
  split <;> simp

theorem enterBucket_panics {waker : ω} {generation iteration : ℕ} {current : Bucket ω}
    {spurious : Bool}
    (hpanicked : (queue.enterBucket checked task waker generation iteration current
      spurious).point task = .panicked) :
    current = .woken iteration ∧
      add checked iteration (queue.generations generation).cap = none := by
  unfold enterBucket at hpanicked
  cases current with
  | empty other =>
      dsimp only at hpanicked
      split at hpanicked
      · split at hpanicked <;> simp at hpanicked
      · simp at hpanicked
  | woken other =>
      dsimp only at hpanicked
      split at hpanicked
      case isTrue hother =>
        subst hother
        split at hpanicked
        case h_1 hadd => exact ⟨rfl, hadd⟩
        case h_2 => split at hpanicked <;> simp at hpanicked
      case isFalse => simp at hpanicked
  | waiting _ => simp at hpanicked
  | waking => simp at hpanicked
  | tombstone => simp at hpanicked

omit [DecidableEq ω] in
theorem notifyCas_panics {called : Bool} {amount : ℕ} {atom : Atom} {spurious : Bool}
    (hpanicked : (queue.notifyCas checked task called amount atom spurious).point task =
      .panicked) : add checked atom.notifies amount = none := by
  unfold notifyCas at hpanicked
  split at hpanicked
  case h_1 hadd => exact hadd
  case h_2 =>
    split at hpanicked
    · rw [setPoint_point, Function.update_self] at hpanicked
      exact absurd hpanicked (visit_ne_panicked _ _ _)
    · simp at hpanicked

end Cases

/-- All runs of a queue whose tasks poll and notify as they like. -/
def machine (checked : Bool) (cap : ℕ) :
    Machine (Queue τ ω) (τ × Act ω) (τ × Act ω) where
  init := withCapacity cap
  next queue label :=
    (queue.step checked label.1 label.2).map fun queue => (queue, [label])

end Queue

end Futex2

end AsyncMutex
