import AsyncMutex.Futex2Ownership

/-!
# What `notify` and `wait_if` count

The meter notes the positions that the waits of each generation got and, for
every call of `notify`, its argument, the counters at its exchange of the atom
and the positions that it visited.  It counts in natural numbers, while the
counters of the atom are half words.
-/

namespace AsyncMutex

namespace Futex2

/-- A call of `notify`. -/
structure Call where
  /-- Its argument, a whole word. -/
  add : ℕ
  /-- `notifies` and `waits` before its exchange, and `notifies` after it. -/
  old : ℕ := 0
  waits : ℕ := 0
  new : ℕ := 0
  /-- The iterations whose bucket it loaded. -/
  visited : List ℕ := []
  /-- It ended in `expand`. -/
  expanded : Bool := false
deriving DecidableEq

namespace Call

structure Exact (call : Call) : Prop where
  counts : call.new = min (call.old + call.add) call.waits
  rises : call.old ≤ call.new
  visits : call.expanded = false →
    call.visited = List.range' call.old (call.new - call.old)
  stops : ∃ count ≤ call.new - call.old, call.visited = List.range' call.old count

/-- The call is about to visit `iteration`. -/
structure Reaches (call : Call) (iteration last : ℕ) : Prop where
  counts : call.new = min (call.old + call.add) call.waits
  ends : last = call.new
  rises : call.old ≤ iteration
  before : iteration ≤ last
  visited : call.visited = List.range' call.old (iteration - call.old)

variable {call : Call} {iteration last : ℕ}

def visit (call : Call) (iteration : ℕ) : Call :=
  { call with visited := call.visited ++ [iteration] }

theorem Reaches.visit (hreaches : call.Reaches iteration last) (hlast : iteration < last) :
    (call.visit iteration).Reaches (iteration + 1) last where
  counts := hreaches.counts
  ends := hreaches.ends
  rises := Nat.le_succ_of_le hreaches.rises
  before := hlast
  visited := by
    have hrises := hreaches.rises
    have hcount : iteration + 1 - call.old = (iteration - call.old) + 1 := by omega
    have hend : call.old + (iteration - call.old) = iteration := by omega
    change call.visited ++ [iteration] = List.range' call.old (iteration + 1 - call.old)
    rw [hreaches.visited, hcount, List.range'_1_concat, hend]

/-- A call that is through with all its iterations. -/
theorem Reaches.finish (hreaches : call.Reaches last last) :
    ({ call with expanded := false } : Call).Exact where
  counts := hreaches.counts
  rises := hreaches.ends ▸ hreaches.rises
  visits _ := hreaches.ends ▸ hreaches.visited
  stops := ⟨call.new - call.old, Nat.le_refl _, hreaches.ends ▸ hreaches.visited⟩

/-- A call that stops at an expansion. -/
theorem Reaches.expand (hreaches : call.Reaches iteration last) :
    ({ call with expanded := true } : Call).Exact where
  counts := hreaches.counts
  rises := by
    have hrises := hreaches.rises
    have hbefore := hreaches.before
    have hends := hreaches.ends
    change call.old ≤ call.new
    omega
  visits hexpanded := by cases hexpanded
  stops := by
    have hbefore := hreaches.before
    have hends := hreaches.ends
    refine ⟨iteration - call.old, ?_, hreaches.visited⟩
    change iteration - call.old ≤ call.new - call.old
    omega

end Call

structure Meter (τ : Type) where
  /-- The positions that the waits of a generation got, in their order. -/
  positions : ℕ → List ℕ
  /-- The call that the task makes. -/
  call : τ → Call
  /-- The calls that are over. -/
  calls : List Call

namespace Meter

variable {τ ω : Type} [DecidableEq τ] [DecidableEq ω]

def empty : Meter τ :=
  ⟨fun _ => [], fun _ => { add := 0 }, []⟩

@[simps] def enter (meter : Meter τ) (generation iteration : ℕ) : Meter τ :=
  { meter with
    positions := Function.update meter.positions generation
      (meter.positions generation ++ [iteration]) }

@[simps] def setCall (meter : Meter τ) (task : τ) (call : Call) : Meter τ :=
  { meter with call := Function.update meter.call task call }

@[simps] def finish (meter : Meter τ) (task : τ) (expanded : Bool) : Meter τ :=
  { meter with calls := meter.calls ++ [{ meter.call task with expanded := expanded }] }

/-- The exchange of the atom in `notify`. -/
def exchange (meter : Meter τ) (task : τ) (before after : Atom) : Meter τ :=
  meter.setCall task {
    add := (meter.call task).add
    old := before.notifies
    waits := before.waits
    new := after.notifies }

/-- Note where a step has taken a task. -/
def move (task : τ) (before after : Queue τ ω) (meter : Meter τ) : Meter τ :=
  match before.point task, after.point task with
  | .enterCas _ _, .enterBucket _ generation iteration _ => meter.enter generation iteration
  | .condition _ _, .notifyLoad _ _ => meter.setCall task { add := 1 }
  | .notifyCas _ _ _, .bucketLoad _ _ _ => meter.exchange task before.atom after.atom
  | .notifyCas _ _ _, .rest =>
      (meter.exchange task before.atom after.atom).finish task false
  | .bucketLoad _ iteration _, _ => meter.setCall task ((meter.call task).visit iteration)
  | .bucketCas _ _ _ _, .rest => meter.finish task false
  | .notifyWake _ _ _ _, .rest => meter.finish task false
  | .bucketCas _ _ _ _, .expandLock _ => meter.finish task true
  | _, _ => meter

/-- Note a step. -/
def note (before : Queue τ ω) (label : τ × Act ω) (_ : List (τ × Act ω))
    (after : Queue τ ω) (meter : Meter τ) : Meter τ :=
  match label.2 with
  | .notify amount => meter.setCall label.1 { add := amount }
  | .step _ _ => meter.move label.1 before after
  | _ => meter

end Meter

/-- What the call of a task has done at its point. -/
def Point.Meets {ω : Type} (call : Call) : Point ω → Prop
  | .notifyLoad _ amount => amount = call.add % half
  | .notifyCas _ amount _ => amount = call.add % half
  | .bucketLoad _ iteration last => call.Reaches iteration last ∧ iteration < last
  | .bucketCas _ iteration last _ => call.Reaches (iteration + 1) last
  | .notifyWake _ iteration last _ => call.Reaches (iteration + 1) last
  | _ => True

namespace Queue

variable {τ ω : Type} [DecidableEq τ] [DecidableEq ω] {checked : Bool}
  {queue queue' : Queue τ ω} {meter : Meter τ} {task : τ}

/-- The counters and the calls agree with the meter. -/
structure Metered (queue : Queue τ ω) (meter : Meter τ) : Prop where
  below : queue.atom.notifies ≤ queue.atom.waits
  waits : queue.atom.waits = (meter.positions queue.atom.generation).length
  positions : ∀ generation,
    meter.positions generation = List.range (meter.positions generation).length
  later : ∀ generation, queue.atom.generation < generation →
    meter.positions generation = []
  sound : queue.poisoned = false
  points : ∀ task, (queue.point task).Meets (meter.call task)
  calls : ∀ call ∈ meter.calls, call.Exact

namespace Metered

omit [DecidableEq τ] [DecidableEq ω] in
theorem initial (cap : ℕ) : (withCapacity cap : Queue τ ω).Metered Meter.empty := by
  constructor <;> simp [withCapacity, Meter.empty, Point.Meets]

omit [DecidableEq ω] in
/-- A task moves on with its call as it is. -/
theorem frame (hmet : queue.Metered meter) (hatom : queue'.atom = queue.atom)
    (hpoisoned : queue'.poisoned = queue.poisoned)
    (hothers : ∀ other, other ≠ task → queue'.point other = queue.point other)
    (hpoint : (queue'.point task).Meets (meter.call task)) : queue'.Metered meter where
  below := hatom ▸ hmet.below
  waits := hatom ▸ hmet.waits
  positions := hmet.positions
  later := hatom ▸ hmet.later
  sound := hpoisoned.trans hmet.sound
  points other := by
    by_cases hother : other = task
    · exact hother ▸ hpoint
    · rw [hothers other hother]
      exact hmet.points other
  calls := hmet.calls

omit [DecidableEq ω] in
/-- The call of a task changes with its point. -/
theorem setCall (hmet : queue.Metered meter) {call : Call}
    (hatom : queue'.atom = queue.atom) (hpoisoned : queue'.poisoned = queue.poisoned)
    (hothers : ∀ other, other ≠ task → queue'.point other = queue.point other)
    (hpoint : (queue'.point task).Meets call) :
    queue'.Metered (meter.setCall task call) where
  below := hatom ▸ hmet.below
  waits := hatom ▸ hmet.waits
  positions := hmet.positions
  later := hatom ▸ hmet.later
  sound := hpoisoned.trans hmet.sound
  points other := by
    by_cases hother : other = task
    · subst hother
      simpa using hpoint
    · rw [hothers other hother, Meter.setCall_call, Function.update_of_ne hother]
      exact hmet.points other
  calls := hmet.calls

omit [DecidableEq τ] [DecidableEq ω] in
theorem finish (hmet : queue.Metered meter) {expanded : Bool}
    (hexact : ({ meter.call task with expanded := expanded } : Call).Exact) :
    queue.Metered (meter.finish task expanded) :=
  { hmet with
    calls := fun call hcall => by
      rcases List.mem_append.mp hcall with hold | hnew
      · exact hmet.calls call hold
      · rw [List.mem_singleton.mp hnew]
        exact hexact }

omit [DecidableEq ω] in
/-- The loop of a call that has come to `iteration`. -/
theorem visits (hmet : queue.Metered meter) {generation iteration last : ℕ}
    (hatom : queue'.atom = queue.atom) (hpoisoned : queue'.poisoned = queue.poisoned)
    (hothers : ∀ other, other ≠ task → queue'.point other = queue.point other)
    (hpoint : queue'.point task = visit generation iteration last)
    (hreaches : (meter.call task).Reaches iteration last) :
    queue'.Metered
      (if iteration < last then meter else meter.finish task false) := by
  unfold visit at hpoint
  by_cases hlast : iteration < last
  · rw [if_pos hlast] at hpoint ⊢
    refine hmet.frame hatom hpoisoned hothers ?_
    rw [hpoint]
    exact ⟨hreaches, hlast⟩
  · rw [if_neg hlast] at hpoint ⊢
    have hends : iteration = last := Nat.le_antisymm hreaches.before (Nat.le_of_not_lt hlast)
    rw [hends] at hreaches
    refine (hmet.frame hatom hpoisoned hothers ?_).finish hreaches.finish
    rw [hpoint]
    trivial

omit [DecidableEq ω] in
/-- A call is through with an iteration. -/
theorem through (hmet : queue.Metered meter) {generation iteration last : ℕ}
    (hatom : queue'.atom = queue.atom) (hpoisoned : queue'.poisoned = queue.poisoned)
    (hothers : ∀ other, other ≠ task → queue'.point other = queue.point other)
    (hpoint : queue'.point task = visit generation iteration last)
    (hreaches : (meter.call task).Reaches iteration last)
    (hrest : queue'.point task = .rest →
      meter.move task queue queue' = meter.finish task false)
    (hload : queue'.point task = .bucketLoad generation iteration last →
      meter.move task queue queue' = meter) :
    queue'.Metered (meter.move task queue queue') := by
  have hvisits := hmet.visits hatom hpoisoned hothers hpoint hreaches
  unfold visit at hpoint
  by_cases hlast : iteration < last
  · rw [if_pos hlast] at hvisits hpoint
    rw [hload hpoint]
    exact hvisits
  · rw [if_neg hlast] at hvisits hpoint
    rw [hrest hpoint]
    exact hvisits

omit [DecidableEq ω] in
/-- A step that the meter need not note. -/
theorem stays (hmet : queue.Metered meter) (hatom : queue'.atom = queue.atom)
    (hpoisoned : queue'.poisoned = queue.poisoned)
    (hothers : ∀ other, other ≠ task → queue'.point other = queue.point other)
    (hpoint : (queue'.point task).Meets (meter.call task))
    (hmove : meter.move task queue queue' = meter) :
    queue'.Metered (meter.move task queue queue') := by
  rw [hmove]
  exact hmet.frame hatom hpoisoned hothers hpoint

omit [DecidableEq ω] in
theorem quiet (hmet : queue.Metered meter) {before after : Point ω}
    (hbefore : queue.point task = before) (hrest : before ≠ .rest)
    (hquiet : Quiet checked queue task before after) :
    (queue.setPoint task after).Metered (meter.move task queue (queue.setPoint task after)) := by
  have hmeets := hmet.points task
  rw [hbefore] at hmeets
  have hothers (other : τ) (hother : other ≠ task) :
      (queue.setPoint task after).point other = queue.point other := by
    simp [hother]
  have hself : (queue.setPoint task after).point task = after := by simp
  have hframe (hafter : after.Meets (meter.call task)) :
      (queue.setPoint task after).Metered meter :=
    hmet.frame rfl rfl hothers (by rwa [hself])
  unfold Meter.move
  rw [hbefore, hself]
  cases hquiet with
  | enter => exact absurd rfl hrest
  | poll => exact absurd rfl hrest
  | notify => exact absurd rfl hrest
  | notifyLoad called amount => exact hframe hmeets
  | notifyAgain called amount atom => exact hframe hmeets
  | visitLoad generation iteration last =>
      obtain ⟨hreaches, hlast⟩ := hmeets
      refine hmet.setCall rfl rfl hothers ?_
      rw [hself]
      exact hreaches.visit hlast
  | visitAgain generation iteration last old => exact hframe hmeets
  | visitExpands generation iteration last old => exact (hframe trivial).finish hmeets.expand
  | _ => exact hframe trivial

omit [DecidableEq ω] in
/-- A wait gets the next position. -/
theorem enters (hmet : queue.Metered meter) {waker : ω} {waits : ℕ}
    (hwaits : waits = queue.atom.waits + 1) :
    ((queue.setAtom { queue.atom with waits := waits }).setPoint task
      (.enterBucket waker queue.atom.generation queue.atom.waits
        (.empty queue.atom.waits))).Metered
      (meter.enter queue.atom.generation queue.atom.waits) := by
  have hlength : (meter.positions queue.atom.generation).length = queue.atom.waits :=
    hmet.waits.symm
  constructor
  case below =>
    have hbelow := hmet.below
    change queue.atom.notifies ≤ waits
    omega
  case waits =>
    change waits = _
    simp [hwaits, hlength]
  case positions =>
    intro generation
    by_cases hgeneration : generation = queue.atom.generation
    · have hpositions := hmet.positions queue.atom.generation
      rw [hlength] at hpositions
      simp [hgeneration, hpositions, List.range_succ]
    · rw [Meter.enter_positions, Function.update_of_ne hgeneration]
      exact hmet.positions generation
  case later =>
    intro generation hlater
    have hne : generation ≠ queue.atom.generation := Nat.ne_of_gt hlater
    rw [Meter.enter_positions, Function.update_of_ne hne]
    exact hmet.later generation hlater
  case sound => exact hmet.sound
  case points =>
    intro other
    by_cases hother : other = task
    · simp [hother, Point.Meets]
    · simpa [hother] using hmet.points other
  case calls => exact hmet.calls

omit [DecidableEq ω] in
/-- The exchange of the atom in `notify`. -/
theorem exchanges (hmet : queue.Metered meter) {called : Bool} {amount sum : ℕ}
    (hbefore : queue.point task = .notifyCas called amount queue.atom)
    (hsum : sum = queue.atom.notifies + amount)
    (hadd : (meter.call task).add = amount ∨
      queue.atom.waits ≤ queue.atom.notifies + amount)
    {after : Atom} (hafter : after = { queue.atom with notifies := min sum queue.atom.waits }) :
    (queue.setAtom after).Metered (meter.exchange task queue.atom after) ∧
      ((meter.exchange task queue.atom after).call task).Reaches queue.atom.notifies
        after.notifies := by
  have hmeets := hmet.points task
  rw [hbefore] at hmeets
  have hamount : amount = (meter.call task).add % half := hmeets
  have hbelow := hmet.below
  have hset : (queue.setAtom after).Metered meter := by
    subst hafter
    exact { hmet with below := Nat.min_le_right _ _ }
  constructor
  case left =>
    refine hset.setCall rfl rfl (fun _ _ => rfl) ?_
    change ((queue.point task).Meets _)
    rw [hbefore]
    exact hamount
  case right =>
    have hmod : (meter.call task).add % half ≤ (meter.call task).add := Nat.mod_le _ _
    subst hafter
    constructor
    case counts =>
      simp only [Meter.exchange, Meter.setCall_call, Function.update_self]
      omega
    case ends => simp [Meter.exchange]
    case rises => simp [Meter.exchange]
    case before =>
      change queue.atom.notifies ≤ min sum queue.atom.waits
      omega
    case visited => simp [Meter.exchange]

omit [DecidableEq ω] in
theorem grows (hmet : queue.Metered meter) (hexp : queue.Expansion) {generation index : ℕ}
    (hbefore : queue.point task = .expandSwap generation index) (new : Generation ω) :
    (((queue.setGeneration (queue.last + 1) new).setAtom ⟨queue.last + 1, 0, 0⟩).setPoint
      task (.expandPush generation)).Metered meter := by
  have hlast := (hexp.swept task generation index (by rw [hbefore]; rfl)).1
  constructor
  case below => exact Nat.le_refl 0
  case waits =>
    have hlater := hmet.later (queue.last + 1) (by omega)
    change 0 = (meter.positions (queue.last + 1)).length
    rw [hlater]
    rfl
  case positions => exact hmet.positions
  case later =>
    intro other hlater
    refine hmet.later other ?_
    have hlt : queue.last + 1 < other := hlater
    omega
  case sound => exact hmet.sound
  case points =>
    intro other
    by_cases hother : other = task
    · simp [hother, Point.Meets]
    · simpa [hother] using hmet.points other
  case calls => exact hmet.calls

/-- The steps that exchange no atom and do not fail. -/
theorem steps (hmet : queue.Metered meter) (hexp : queue.Expansion) {before : Point ω}
    (hbefore : queue.point task = before) (hstep : Step checked queue task before queue')
    (hsound : queue'.poisoned = false) (hrest : before ≠ .rest)
    (henters : ∀ waker atom, before ≠ .enterCas waker atom)
    (hnotifies : ∀ called amount atom, before ≠ .notifyCas called amount atom) :
    queue'.Metered (meter.move task queue queue') := by
  have hmeets := hmet.points task
  rw [hbefore] at hmeets
  have hothers (other : τ) (hother : other ≠ task) : queue'.point other = queue.point other :=
    hstep.others hother
  cases hstep with
  | quiet hquiet => exact hmet.quiet hbefore hrest hquiet
  | waits => exact absurd rfl (henters _ _)
  | notifies => exact absurd rfl (hnotifies _ _ _)
  | fails => simp at hsound
  | abandons generation iteration =>
      have hmove : meter.move task queue ((queue.setSlot task none).setPoint task
          (.notifyLoad false 1)) = meter.setCall task { add := 1 } := by
        simp [Meter.move, hbefore]
      rw [hmove]
      refine hmet.setCall rfl rfl hothers ?_
      simp [Point.Meets, half]
  | @marks generation iteration last hbucket =>
      refine hmet.through rfl rfl hothers (Function.update_self _ _ _) hmeets
        (fun hafter => ?_) fun hafter => ?_
      · simp only [Meter.move, hbefore, hafter]
      · simp only [Meter.move, hbefore, hafter]
  | notifyWakes generation iteration last waker =>
      refine hmet.through rfl rfl hothers (Function.update_self _ _ _) hmeets
        (fun hafter => ?_) fun hafter => ?_
      · simp only [Meter.move, hbefore, hafter]
      · simp only [Meter.move, hbefore, hafter]
  | @grows generation index new hindex hnew =>
      have hgrown := hmet.grows hexp hbefore new
      unfold Meter.move
      rw [hbefore]
      exact hgrown
  | takes hbucket =>
      refine hmet.stays rfl rfl hothers ?_ ?_
      · simpa [Point.Meets] using hmeets
      · simp [Meter.move, hbefore]
  | _ =>
      refine hmet.stays rfl rfl hothers ?_ ?_
      · simp [Point.Meets]
      · simp [Meter.move, hbefore]

end Metered

/-! ## Within the half words -/

/-- The step neither overflows a half word nor cuts an argument that matters.
An attempt that fails overflows only in a `checked` build. -/
def Fits (checked : Bool) (queue : Queue τ ω) (meter : Meter τ) (task : τ) (act : Act ω) :
    Prop :=
  match act, queue.point task with
  | .step spurious _, .enterCas _ atom =>
      checked = true ∨ queue.atom = atom ∧ spurious = false → atom.waits + 1 < half
  | .step _ _, .enterBucket _ generation iteration (.woken other) =>
      checked = true → other = iteration →
        iteration + (queue.generations generation).cap < half
  | .step spurious _, .notifyCas _ amount atom =>
      (checked = true ∨ queue.atom = atom ∧ spurious = false →
        atom.notifies + amount < half) ∧
      (queue.atom = atom ∧ spurious = false →
        (meter.call task).add < half ∨ atom.waits ≤ atom.notifies + amount)
  | .step _ _, .expandSwap generation index =>
      (queue.generations generation).capacity ≤ index →
        (queue.generations generation).capacity * 2 ≤ half
  | _, _ => True

instance (checked : Bool) (queue : Queue τ ω) (meter : Meter τ) (task : τ) (act : Act ω) :
    Decidable (queue.Fits checked meter task act) := by
  unfold Fits
  split <;> infer_instance

omit [DecidableEq ω] in
theorem new_of_le {cap : ℕ} (hcap : cap ≤ half) :
    ∃ new, (Generation.new cap : Option (Generation ω)) = some new := by
  unfold Generation.new
  rw [if_pos hcap]
  exact ⟨_, rfl⟩

/-- An expansion within the half words does not fail. -/
theorem Fits.sound {act : Act ω} (hfits : queue.Fits checked meter task act)
    (hsound : queue.poisoned = false) (hstep : queue.step checked task act = some queue') :
    queue'.poisoned = false := by
  have hcases := step_cases hstep
  generalize hbefore : queue.point task = before at hcases
  cases hcases with
  | fails hindex =>
      obtain ⟨spurious, condition, rfl⟩ := step_of_point (by simp [hbefore]) hstep
      unfold Fits at hfits
      rw [hbefore] at hfits
      obtain ⟨new, hnew⟩ := new_of_le (ω := ω) (hfits (Nat.le_of_not_lt hindex))
      simp only [step, hbefore, expandSwap, hindex, if_false, hnew] at hstep
      have hpoisoned := congrArg (Option.map Queue.poisoned) hstep
      simp [hsound] at hpoisoned
  | _ => exact hsound

/-- Within the half words only `poll_waiting` panics. -/
theorem Fits.panics {act : Act ω} (hfits : queue.Fits checked meter task act)
    (hsound : queue.poisoned = false) (hstep : queue.step checked task act = some queue')
    (hpanicked : queue'.point task = .panicked) :
    ∃ waker generation iteration,
      queue.point task = .waitCas waker generation iteration .waking := by
  have hsound' := hfits.sound hsound hstep
  have hcases := step_cases hstep
  generalize hbefore : queue.point task = before at hcases
  cases hcases with
  | leavesPanicking waker generation iteration => exact ⟨waker, generation, iteration, rfl⟩
  | fails => simp at hsound'
  | quiet hquiet =>
      cases hquiet with
      | enterPanics hadd =>
          obtain ⟨spurious, condition, rfl⟩ := step_of_point (by simp [hbefore]) hstep
          unfold Fits at hfits
          rw [hbefore] at hfits
          obtain ⟨hchecked, hover⟩ := checked_of_add hadd
          exact absurd (hfits (Or.inl hchecked)) hover
      | bucketPanics waker generation iteration current =>
          obtain ⟨spurious, condition, rfl⟩ := step_of_point (by simp [hbefore]) hstep
          simp only [step, hbefore, Option.some.injEq] at hstep
          rw [← hstep] at hpanicked
          obtain ⟨rfl, hadd⟩ := enterBucket_panics hpanicked
          unfold Fits at hfits
          rw [hbefore] at hfits
          obtain ⟨hchecked, hover⟩ := checked_of_add hadd
          exact absurd (hfits hchecked rfl) hover
      | notifyPanics called amount atom =>
          obtain ⟨spurious, condition, rfl⟩ := step_of_point (by simp [hbefore]) hstep
          simp only [step, hbefore, Option.some.injEq] at hstep
          rw [← hstep] at hpanicked
          have hadd := notifyCas_panics hpanicked
          unfold Fits at hfits
          rw [hbefore] at hfits
          obtain ⟨hchecked, hover⟩ := checked_of_add hadd
          exact absurd (hfits.1 (Or.inl hchecked)) hover
      | expandPanics hpoisoned => simp [hsound] at hpoisoned
      | _ => simp at hpanicked
  | marks =>
      rw [setPoint_point, Function.update_self] at hpanicked
      exact absurd hpanicked (visit_ne_panicked _ _ _)
  | notifies =>
      rw [setPoint_point, Function.update_self] at hpanicked
      exact absurd hpanicked (visit_ne_panicked _ _ _)
  | notifyWakes =>
      rw [setPoint_point, Function.update_self] at hpanicked
      exact absurd hpanicked (visit_ne_panicked _ _ _)
  | _ => simp at hpanicked

/-- A wait enters. -/
theorem Metered.enterCas (hmet : queue.Metered meter) {waker : ω} {atom : Atom}
    {spurious condition : Bool} (hbefore : queue.point task = .enterCas waker atom)
    (hfits : queue.Fits checked meter task (.step spurious condition))
    (hstep : queue.step checked task (.step spurious condition) = some queue') :
    queue'.Metered (meter.move task queue queue') := by
  simp only [Fits, hbefore] at hfits
  simp only [step, hbefore] at hstep
  split at hstep
  case h_1 =>
    cases hstep
    refine hmet.stays rfl rfl (fun other hother => by simp [hother]) ?_ ?_
    · simp [Point.Meets]
    · simp [Meter.move, hbefore]
  case h_2 waits hadd =>
    split at hstep
    case isTrue hmatched =>
      rw [add_of_lt (hfits (Or.inr hmatched))] at hadd
      obtain ⟨rfl, -⟩ := hmatched
      cases hadd
      cases hstep
      have hmove : meter.move task queue ((queue.setAtom { queue.atom with
          waits := queue.atom.waits + 1 }).setPoint task (.enterBucket waker
            queue.atom.generation queue.atom.waits (.empty queue.atom.waits))) =
          meter.enter queue.atom.generation queue.atom.waits := by
        simp [Meter.move, hbefore]
      rw [hmove]
      exact hmet.enters rfl
    case isFalse =>
      cases hstep
      refine hmet.stays rfl rfl (fun other hother => by simp [hother]) ?_ ?_
      · simp [Point.Meets]
      · simp [Meter.move, hbefore]

/-- A call of `notify` exchanges the atom. -/
theorem Metered.notifyCas (hmet : queue.Metered meter) {called : Bool} {amount : ℕ}
    {atom : Atom} {spurious condition : Bool}
    (hbefore : queue.point task = .notifyCas called amount atom)
    (hfits : queue.Fits checked meter task (.step spurious condition))
    (hstep : queue.step checked task (.step spurious condition) = some queue') :
    queue'.Metered (meter.move task queue queue') := by
  have hmeets := hmet.points task
  rw [hbefore] at hmeets
  simp only [Fits, hbefore] at hfits
  simp only [step, hbefore, Queue.notifyCas, Option.some.injEq] at hstep
  split at hstep
  case h_1 =>
    subst hstep
    refine hmet.stays rfl rfl (fun other hother => by simp [hother]) ?_ ?_
    · simp [Point.Meets]
    · simp [Meter.move, hbefore]
  case h_2 sum hadd =>
    split at hstep
    case isTrue hmatched =>
      obtain ⟨hbound, hcut⟩ := hfits
      rw [add_of_lt (hbound (Or.inr hmatched))] at hadd
      have hargument := hcut hmatched
      obtain ⟨rfl, -⟩ := hmatched
      cases hadd
      have hcut' : (meter.call task).add = amount ∨
          queue.atom.waits ≤ queue.atom.notifies + amount :=
        hargument.imp_left fun hlt => (hmeets.trans (Nat.mod_eq_of_lt hlt)).symm
      obtain ⟨hset, hreaches⟩ := hmet.exchanges hbefore rfl hcut' rfl
      have hvisits : ((queue.setAtom { queue.atom with
          notifies := min (queue.atom.notifies + amount) queue.atom.waits }).setPoint task
            (visit queue.atom.generation queue.atom.notifies
              (min (queue.atom.notifies + amount) queue.atom.waits))).Metered _ :=
        hset.visits rfl rfl (fun other hother => Function.update_of_ne hother _ _)
          (Function.update_self _ _ _) hreaches
      rw [← hstep]
      unfold Meter.move
      rw [hbefore]
      unfold visit at hvisits ⊢
      by_cases hlast : queue.atom.notifies <
          min (queue.atom.notifies + amount) queue.atom.waits
      · rw [if_pos hlast]
        rw [if_pos hlast, if_pos hlast] at hvisits
        simpa using hvisits
      · rw [if_neg hlast]
        rw [if_neg hlast, if_neg hlast] at hvisits
        simpa using hvisits
    case isFalse =>
      subst hstep
      refine hmet.stays rfl rfl (fun other hother => by simp [hother]) ?_ ?_
      · simpa [Point.Meets] using hmeets
      · simp [Meter.move, hbefore]

theorem Metered.step {act : Act ω} (hmet : queue.Metered meter) (hexp : queue.Expansion)
    (hfits : queue.Fits checked meter task act)
    (hstep : queue.step checked task act = some queue') (events : List (τ × Act ω)) :
    queue'.Metered (meter.note queue (task, act) events queue') := by
  cases act with
  | enter waker =>
      obtain ⟨-, rfl⟩ := step_enter hstep
      have hothers (other : τ) (hother : other ≠ task) :
          (queue.setPoint task (.enterLoad waker)).point other = queue.point other := by
        simp [hother]
      refine hmet.frame rfl rfl hothers ?_
      simp [Point.Meets]
  | poll waker =>
      obtain ⟨-, generation, iteration, rfl⟩ := step_poll hstep
      have hothers (other : τ) (hother : other ≠ task) :
          (queue.setPoint task (.waitLoad waker generation iteration)).point other =
            queue.point other := by
        simp [hother]
      refine hmet.frame rfl rfl hothers ?_
      simp [Point.Meets]
  | notify amount =>
      obtain ⟨-, rfl⟩ := step_notify hstep
      refine hmet.setCall rfl rfl (fun other hother => by simp [hother]) ?_
      simp [Point.Meets]
  | step spurious condition =>
      have hsound := hfits.sound hmet.sound hstep
      have hcases := step_cases hstep
      change queue'.Metered (meter.move task queue queue')
      generalize hbefore : queue.point task = before at hcases
      by_cases henters : ∃ waker atom, before = .enterCas waker atom
      · obtain ⟨waker, atom, rfl⟩ := henters
        exact hmet.enterCas hbefore hfits hstep
      · by_cases hnotifies : ∃ called amount atom, before = .notifyCas called amount atom
        · obtain ⟨called, amount, atom, rfl⟩ := hnotifies
          exact hmet.notifyCas hbefore hfits hstep
        · refine hmet.steps hexp hbefore hcases hsound ?_ ?_ ?_
          · exact hbefore ▸ step_rest hstep
          · exact fun waker atom heq => henters ⟨waker, atom, heq⟩
          · exact fun called amount atom heq => hnotifies ⟨called, amount, atom, heq⟩

/-! ## Runs -/

/-- All runs of a queue with their meter. -/
def metering (checked : Bool) (cap : ℕ) :
    Machine (Queue τ ω × Meter τ) (τ × Act ω) (τ × Act ω) :=
  (machine checked cap).record Meter.note Meter.empty

/-- The runs whose steps all keep within the half words. -/
def fitting (checked : Bool) (cap : ℕ) :
    Machine (Queue τ ω × Meter τ) (τ × Act ω) (τ × Act ω) :=
  (metering checked cap).restrict fun current label =>
    current.1.Fits checked current.2 label.1 label.2

/-- `notify` and `wait_if` count exactly. -/
structure Counts (checked : Bool) (queue : Queue τ ω) (meter : Meter τ) : Prop where
  below : queue.atom.notifies ≤ queue.atom.waits
  waits : queue.atom.waits = (meter.positions queue.atom.generation).length
  positions : ∀ generation,
    meter.positions generation = List.range (meter.positions generation).length
  calls : ∀ call ∈ meter.calls, call.Exact
  /-- A call that is not over visits its positions in order. -/
  visits : ∀ task generation iteration last,
    queue.point task = .bucketLoad generation iteration last →
      (meter.call task).Reaches iteration last ∧ iteration < last
  panics : ∀ task act next, queue.Fits checked meter task act →
    queue.step checked task act = some next → next.point task = .panicked →
      ∃ waker generation iteration,
        queue.point task = .waitCas waker generation iteration .waking

theorem counts_of_trace {cap : ℕ} (hcap : 0 < cap) {history : List (τ × Act ω)}
    (htrace : (fitting checked cap).Trace history (queue, meter)) :
    queue.Counts checked meter := by
  have hrun := htrace.invariant
    (motive := fun _ current => current.1.Inv ∧ current.1.Metered current.2)
    ⟨⟨.initial hcap, .initial cap, .initial cap⟩, .initial cap⟩ ?_
  · obtain ⟨-, hmet⟩ := hrun
    refine ⟨hmet.below, hmet.waits, hmet.positions, hmet.calls, ?_, ?_⟩
    · intro task generation iteration last hpoint
      have hmeets := hmet.points task
      rwa [hpoint] at hmeets
    · intro task act next hfits hstep
      exact hfits.panics hmet.sound hstep
  · rintro past ⟨before, meter⟩ ⟨task, act⟩ ⟨after, meter'⟩ events - ⟨hinv, hmet⟩ hnext
    obtain ⟨hfits, hnext⟩ := Machine.restrict_next.mp hnext
    obtain ⟨hnext, hmeter⟩ := Machine.record_next hnext
    refine ⟨hinv.step (step_of_next cap hnext), ?_⟩
    simp only [machine, Option.map_eq_some_iff, Prod.mk.injEq] at hnext
    obtain ⟨next, hstep, rfl, -⟩ := hnext
    rw [hmeter]
    exact hmet.step hinv.expansion hfits hstep events

/-- Two waits, a notification for one and a larger one for all. -/
theorem counts_of_notify :
    ∃ (queue : Queue (Fin 2) Bool) (meter : Meter (Fin 2)),
      meter.positions 0 = [0, 1] ∧
      meter.calls = [
        { add := 1, old := 0, waits := 2, new := 1, visited := [0] },
        { add := 2 ^ 32 + 5, old := 1, waits := 2, new := 2, visited := [1] }] ∧
      queue.Counts true meter := by
  let wait (task : Fin 2) : List (Fin 2 × Act Bool) :=
    (task, .enter true) :: List.replicate 4 (task, .step false true)
  let notify (amount : ℕ) : List (Fin 2 × Act Bool) :=
    (0, .notify amount) :: List.replicate 5 (0, .step false true)
  have hrun : ((fitting true 2).run (wait 0 ++ wait 1 ++ notify 1 ++ notify (2 ^ 32 + 5))).map
      (fun result => decide (result.1.2.positions 0 = [0, 1] ∧ result.1.2.calls = [
        { add := 1, old := 0, waits := 2, new := 1, visited := [0] },
        { add := 2 ^ 32 + 5, old := 1, waits := 2, new := 2, visited := [1] }])) =
      some true := by decide +kernel
  obtain ⟨⟨⟨queue, meter⟩, history⟩, hresult, hgood⟩ := Option.map_eq_some_iff.mp hrun
  obtain ⟨hpositions, hcalls⟩ := of_decide_eq_true hgood
  exact ⟨queue, meter, hpositions, hcalls, counts_of_trace (by decide) ⟨_, hresult⟩⟩

/-- An argument of `2 ^ 32` notifies nobody, one of `2 ^ 32 - 1` lowers
`notifies` from one to zero, or panics in a `checked` build. -/
theorem miscounts_of_large :
    (∃ (queue : Queue (Fin 2) Bool) (meter : Meter (Fin 2)),
      (metering false 2).Reachable (queue, meter) ∧
      { add := 2 ^ 32, old := 0, waits := 2, new := 0 } ∈ meter.calls) ∧
    (∃ (queue : Queue (Fin 2) Bool) (meter : Meter (Fin 2)),
      (metering false 2).Reachable (queue, meter) ∧
      { add := 2 ^ 32 - 1, old := 1, waits := 2, new := 0 } ∈ meter.calls) ∧
    ∃ (queue : Queue (Fin 2) Bool) (meter : Meter (Fin 2)),
      (metering true 2).Reachable (queue, meter) ∧ queue.point 0 = .panicked ∧
      queue.atom = ⟨0, 2, 1⟩ ∧ (meter.call 0).add = 2 ^ 32 - 1 := by
  let wait (task : Fin 2) : List (Fin 2 × Act Bool) :=
    (task, .enter true) :: List.replicate 4 (task, .step false true)
  let notify (steps amount : ℕ) : List (Fin 2 × Act Bool) :=
    (0, .notify amount) :: List.replicate steps (0, .step false true)
  refine ⟨?_, ?_, ?_⟩
  · have hrun : ((metering false 2).run (wait 0 ++ wait 1 ++ notify 2 (2 ^ 32))).map
        (fun result => decide
          ({ add := 2 ^ 32, old := 0, waits := 2, new := 0 } ∈ result.1.2.calls)) =
        some true := by decide +kernel
    obtain ⟨⟨⟨queue, meter⟩, history⟩, hresult, hgood⟩ := Option.map_eq_some_iff.mp hrun
    exact ⟨queue, meter, ⟨history, _, hresult⟩, of_decide_eq_true hgood⟩
  · have hrun : ((metering false 2).run (wait 0 ++ wait 1 ++ notify 5 1 ++
        notify 2 (2 ^ 32 - 1))).map (fun result => decide
          ({ add := 2 ^ 32 - 1, old := 1, waits := 2, new := 0 } ∈ result.1.2.calls)) =
        some true := by decide +kernel
    obtain ⟨⟨⟨queue, meter⟩, history⟩, hresult, hgood⟩ := Option.map_eq_some_iff.mp hrun
    exact ⟨queue, meter, ⟨history, _, hresult⟩, of_decide_eq_true hgood⟩
  · have hrun : ((metering true 2).run (wait 0 ++ wait 1 ++ notify 5 1 ++
        notify 2 (2 ^ 32 - 1))).map (fun result => decide (result.1.1.point 0 = .panicked ∧
          result.1.1.atom = ⟨0, 2, 1⟩ ∧ (result.1.2.call 0).add = 2 ^ 32 - 1)) =
        some true := by decide +kernel
    obtain ⟨⟨⟨queue, meter⟩, history⟩, hresult, hgood⟩ := Option.map_eq_some_iff.mp hrun
    exact ⟨queue, meter, ⟨history, _, hresult⟩, of_decide_eq_true hgood⟩

end Queue

end Futex2

end AsyncMutex
