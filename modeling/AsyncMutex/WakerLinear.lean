import AsyncMutex.WaiterSafety
import AsyncMutex.WakerBooks

/-!
# Wakers are used linearly

As long as a waiter takes part in one successful wait, no future is leaked and
nothing panics while a sleeping future is dropped, every waker that a poll
clones is consumed once, by the notifier that wakes it or by whoever drops it.
-/

namespace AsyncMutex

def Deed.asks {τ φ κ α ω : Type} : Deed τ φ κ α ω → Option ω
  | .use (.act step) => step.asks
  | _ => none

/-- A waiter is waited on again, or a future is leaked. -/
def Deed.reuses {τ φ κ α ω : Type} : Deed τ φ κ α ω → Bool
  | .use (.again _) => true
  | .use .forget => true
  | _ => false

/-- Another attempt in the same poll brings the same waker. -/
def SamePoll {ω : Type} (waker : ω) : WaiterWaker ω → Prop
  | .waiting old => waker = old
  | _ => True

instance {ω : Type} [DecidableEq ω] (waker : ω) (word : WaiterWaker ω) :
    Decidable (SamePoll waker word) :=
  match word with
  | .none => inferInstanceAs (Decidable True)
  | .waiting old => inferInstanceAs (Decidable (waker = old))
  | .done => inferInstanceAs (Decidable True)

namespace Perils

variable {τ φ κ α ω : Type}

/-- No waiter is waited on again after a compare-exchange succeeded, no future
is leaked, and a failed attempt is retried within the poll that made it. -/
def SingleUse (perils : Perils τ φ κ α ω) (label : τ × Deed τ φ κ α ω) : Prop :=
  label.2.reuses = false ∧ ∀ waker ∈ label.2.asks,
    perils.lives.world.phase label.1 = .enter →
      SamePoll waker (perils.lives.world.waker label.1)

instance [DecidableEq τ] [DecidableEq φ] [DecidableEq α] [DecidableEq ω]
    (perils : Perils τ φ κ α ω) (label : τ × Deed τ φ κ α ω) :
    Decidable (perils.SingleUse label) :=
  inferInstanceAs (Decidable (_ ∧ ∀ _ ∈ _, _))

variable [DecidableEq τ] [DecidableEq φ] [DecidableEq κ] [DecidableEq α] [DecidableEq ω]
  [Fintype τ]

/-- Write up a step. -/
def note (perils : Perils τ φ κ α ω) (label : τ × Deed τ φ κ α ω)
    (reports : List (Report τ φ κ α ω)) (_ : Perils τ φ κ α ω) (books : Books τ ω) :
    Books τ ω :=
  reports.foldl (fun books report =>
    books.keep perils.lives.world label.1 label.2.asks report.events) books

/-- No callback of a future that was dropped asleep unwinds, and a waiter that is
put on a futex asks for one of its queues. -/
def Unbroken (inBounds : φ → κ → Bool) (perils : Perils τ φ κ α ω)
    (label : τ × Deed τ φ κ α ω) : Prop :=
  match label.2 with
  | .use use => perils.Fits inBounds (label.1, use)
  | .unwind => perils.lives.world.waker label.1 = .done

instance (inBounds : φ → κ → Bool) (perils : Perils τ φ κ α ω)
    (label : τ × Deed τ φ κ α ω) : Decidable (perils.Unbroken inBounds label) :=
  match label with
  | (task, .use use) => inferInstanceAs (Decidable (perils.Fits inBounds (task, use)))
  | (task, .unwind) => inferInstanceAs (Decidable (perils.lives.world.waker task = .done))

/-- The wakers of all waiters are used linearly. -/
structure Linear (inBounds : φ → κ → Bool) (perils : Perils τ φ κ α ω) (books : Books τ ω) :
    Prop where
  past : ∀ task life, life < (books.account task).life →
    ((books.account task).purse life).Consumed
  dropped : ∀ task, perils.lives.alive task = false → (books.account task).current.Consumed
  /-- What is not consumed is in the waiter or in the hand of a poll. -/
  present : ∀ task, (books.account task).current.cloned =
    (books.account task).current.taken + (books.account task).current.dropped +
      ((perils.lives.world.waker task).held + (perils.lives.world.phase task).held)
  once : ∀ task life, ((books.account task).purse life).taken.card ≤ 1
  woken : ∀ task life,
    ((books.account task).purse life).woken = ((books.account task).purse life).taken ∨
      ∃ notifier waker, perils.lives.world.busy notifier = .waking task waker ∧
        ((books.account task).purse life).taken = {waker} ∧
        ((books.account task).purse life).woken = 0
  queued : ∀ waiter, perils.lives.Reaches waiter → ∃ waker,
    perils.lives.world.waker waiter = .waiting waker ∧
      (books.account waiter).pending = some waker
  wake : ∀ notifier waiter spurious waker next resp events,
    perils.lives.world.handle notifier = some waiter →
      perils.step inBounds notifier (.use (.act (.call .wake spurious waker))) =
        some (next, resp, events) →
          ∃ last, (books.account waiter).pending = some last ∧
            next.lives.world.busy notifier = .waking waiter last ∧ resp = none
  /-- A poll of a woken waiter goes on until it returns `Ready(true)`. -/
  poll : ∀ task newWaker seen spurious next resp events,
    perils.lives.world.phase task = .polling newWaker seen →
      perils.lives.world.busy task = .none → perils.lives.world.waker task = .done →
        perils.step inBounds task (.use (.act (.step spurious))) =
          some (next, resp, events) →
            resp = some .ready ∨ resp = none ∧
              next.lives.world.phase task = .polling newWaker .done ∧
              next.lives.world.waker task = .done
  panics : ∀ task act next events,
    perils.step inBounds task (.use (.act act)) = some (next, some .panic, events) →
      (∀ spurious waker, act ≠ .call .wake spurious waker) ∧ ∀ spurious, act ≠ .step spurious

end Perils

namespace Lives

variable {τ φ κ α ω : Type} [DecidableEq τ] [DecidableEq φ]
  [DecidableEq α] [DecidableEq ω]

/-- Without leaks a step of the world is a step of its tasks. -/
theorem wait_unleaked {S : Type} [FutexStore S τ φ κ] {lives lives' : Lives S τ φ α ω}
    {task : τ} {act : Act τ φ κ α ω} {resp : Option (Resp τ α)} {events : List (Event τ φ ω)}
    (hleaked : lives.leaked task = false)
    (hstep : lives.wait task act = some (lives', resp, events)) :
    ∃ outcome, lives.world.step task act = some outcome ∧
      lives' = { lives with world := outcome.world } ∧ resp = outcome.resp ∧
      events = outcome.events := by
  simp only [wait, stepWorld, hleaked, Bool.false_eq_true, if_false,
    Option.map_eq_some_iff] at hstep
  obtain ⟨outcome, hworld, heq⟩ := hstep
  cases heq
  exact ⟨outcome, hworld, rfl, rfl, rfl⟩

variable [DecidableEq κ] [Fintype τ]

section Step

variable {lives lives' : Lives (HeapStore τ φ κ) τ φ α ω} {task : τ} {use : Use τ φ κ α ω}
  {resp : Option (Resp τ α)} {events : List (Event τ φ ω)}

theorem leaked_step (hagain : ∀ current, use ≠ .again current) (hforget : use ≠ .forget)
    (hleaked : ∀ task, lives.leaked task = false)
    (hstep : lives.step reuse task use = some (lives', resp, events)) (other : τ) :
    lives'.leaked other = false := by
  unfold Lives.step at hstep
  split at hstep
  case h_1 =>
    unfold Lives.create at hstep
    split at hstep
    · cases hstep
    · rw [Option.map_eq_some_iff] at hstep
      obtain ⟨outcome, -, heq⟩ := hstep
      cases heq
      exact hleaked other
  case h_2 act _ =>
    obtain ⟨outcome, -, rfl, -⟩ := wait_unleaked (hleaked task) hstep
    exact hleaked other
  case h_3 current => exact absurd rfl (hagain current)
  case h_4 => exact absurd rfl hforget
  case h_5 =>
    unfold Lives.dropWaiter at hstep
    split at hstep <;> cases hstep
    by_cases hother : other = task
    · simp [hother]
    · simpa [hother] using hleaked other

theorem balanced_step {books : Books τ ω} (hbal : lives.world.Balanced books)
    (hagain : ∀ current, use ≠ .again current) (hforget : use ≠ .forget)
    (hretry : ∀ futex current new spurious waker,
      use = .act (.call (.cmpxchgWaitWeak futex current new) spurious waker) →
        lives.world.phase task = .enter → SamePoll waker (lives.world.waker task))
    (hleaked : lives.leaked task = false)
    (hasleep : ∀ waiter, lives.world.handle task = some waiter →
      (lives.world.phase waiter).Live)
    (hstep : lives.step reuse task use = some (lives', resp, events)) :
    lives'.world.Balanced
      (books.keep lives.world task (Deed.use use : Deed τ φ κ α ω).asks events) := by
  unfold Lives.step at hstep
  split at hstep
  case h_1 futex queue spurious waker =>
    unfold Lives.create at hstep
    split at hstep
    · cases hstep
    · rw [Option.map_eq_some_iff] at hstep
      obtain ⟨outcome, hworld, heq⟩ := hstep
      cases heq
      exact hbal.step (by simp) hasleep hworld
  case h_2 act _ =>
    obtain ⟨outcome, hworld, rfl, -, rfl⟩ := wait_unleaked hleaked hstep
    refine hbal.step ?_ hasleep hworld
    rintro futex current new spurious waker rfl old henter hwaiting
    have hsame := hretry futex current new spurious waker rfl henter
    rwa [hwaiting] at hsame
  case h_3 current => exact absurd rfl (hagain current)
  case h_4 => exact absurd rfl hforget
  case h_5 =>
    unfold Lives.dropWaiter at hstep
    split at hstep
    case isFalse => cases hstep
    case isTrue hguard =>
      have hevents : events = (lives.world.waker task).released := by
        cases hstep
        rfl
      have hphase := hguard.2.2.resolve_left (by simp [hleaked])
      rw [hevents]
      cases hstep
      exact hbal.dropWaiter hphase

end Step

/-- Only a poll that saw the waiter's word leaves its loop. -/
theorem poll_woken {lives next : Lives (HeapStore τ φ κ) τ φ α ω} {task : τ} {newWaker : ω}
    {seen : WaiterWaker ω} {spurious : Bool} {resp : Option (Resp τ α)}
    {events : List (Event τ φ ω)} (hleaked : lives.leaked task = false)
    (hphase : lives.world.phase task = .polling newWaker seen)
    (hseen : seen ≠ .none) (hidle : lives.world.busy task = .none)
    (hdone : lives.world.waker task = .done)
    (hstep : lives.step reuse task (.act (.step spurious) : Use τ φ κ α ω) =
      some (next, resp, events)) :
    resp = some .ready ∨ resp = none ∧ next.world.phase task = .polling newWaker .done ∧
      next.world.waker task = .done := by
  obtain ⟨outcome, hworld, rfl, rfl, -⟩ := wait_unleaked hleaked hstep
  simp only [World.step, hidle, ne_eq, not_true_eq_false, if_false, hphase,
    World.pollWaiting] at hworld
  cases seen with
  | none => exact absurd rfl hseen
  | done =>
      cases hworld
      exact Or.inl rfl
  | waiting old =>
      simp only [hdone, reduceCtorEq, false_and, if_false] at hworld
      cases hworld
      exact Or.inr ⟨rfl, by simp, hdone⟩

/-- `wake`, `poll_waiting` and `drop` never panic. -/
theorem no_panic {lives next : Lives (HeapStore τ φ κ) τ φ α ω} {books : Books τ ω} {task : τ}
    {act : Act τ φ κ α ω} {events : List (Event τ φ ω)}
    (hbal : lives.world.Balanced books) (hleaked : lives.leaked task = false)
    (hasleep : ∀ waiter, lives.world.handle task = some waiter →
      ∃ waker, lives.world.waker waiter = .waiting waker)
    (hstep : lives.step reuse task (.act act) = some (next, some .panic, events)) :
    (∀ spurious waker, act ≠ .call .wake spurious waker) ∧ ∀ spurious, act ≠ .step spurious := by
  constructor
  case left =>
    rintro spurious waker rfl
    obtain ⟨outcome, hworld, -, hresp, -⟩ := wait_unleaked hleaked hstep
    simp only [World.step] at hworld
    split at hworld
    case isFalse => cases hworld
    case isTrue =>
      simp only [World.call, World.wake] at hworld
      split at hworld
      case h_1 =>
        cases hworld
        cases hresp
      case h_2 waiter hhandle =>
        obtain ⟨last, hlast⟩ := hasleep waiter hhandle
        simp only [hlast] at hworld
        cases hworld
        cases hresp
  case right =>
    rintro spurious rfl
    obtain ⟨outcome, hworld, -, hresp, -⟩ := wait_unleaked hleaked hstep
    exact hbal.no_panic_step hworld hresp.symm

end Lives

namespace Perils

variable {τ φ κ α ω : Type} [DecidableEq τ] [DecidableEq φ] [DecidableEq κ]
  [DecidableEq α] [DecidableEq ω] [Fintype τ] {inBounds : φ → κ → Bool}
  {queue : κ} {atom : φ → α} {futex : φ} {perils perils' : Perils τ φ κ α ω}
  {lists : Lives (ListStore τ φ κ) τ φ α ω} {task : τ} {resp : Option (Resp τ α)}
  {events : List (Event τ φ ω)}

/-- The runs that the wakers survive. -/
abbrev singleUse (inBounds : φ → κ → Bool) (queue : κ) (atom : φ → α) (futex : φ) :
    Machine (Perils τ φ κ α ω) (τ × Deed τ φ κ α ω) (Report τ φ κ α ω) :=
  (machine inBounds queue atom futex).restrict SingleUse

abbrev unbroken (inBounds : φ → κ → Bool) (queue : κ) (atom : φ → α) (futex : φ) :
    Machine (Perils τ φ κ α ω) (τ × Deed τ φ κ α ω) (Report τ φ κ α ω) :=
  (singleUse inBounds queue atom futex).restrict
    fun perils label => perils.Unbroken inBounds label

/-- Where nothing panics a step is one of the waiters. -/
theorem Held.use_cases (hheld : Held inBounds perils lists) {use : Use τ φ κ α ω}
    (hstep : perils.step inBounds task (.use use) = some (perils', resp, events)) :
    (perils' = perils ∧ events = [] ∧ ∃ op spurious waker,
      use = .act (.call op spurious waker) ∧ op ≠ .wake ∧
        ∀ futex current new, op ≠ .cmpxchgWaitWeak futex current new) ∨
    ∃ lives', perils.lives.step Lives.reuse task use = some (lives', resp, events) ∧
      perils' = { perils with lives := lives' } := by
  simp only [Perils.step] at hstep
  split at hstep
  case h_1 panicked hpanic =>
    cases hstep
    exact Or.inl ⟨(hheld.panic hpanic).1, rfl, (hheld.panic hpanic).2⟩
  case h_2 =>
    rw [Option.map_eq_some_iff] at hstep
    obtain ⟨⟨lives', resp', events'⟩, hlives, heq⟩ := hstep
    cases heq
    exact Or.inr ⟨lives', hlives, rfl⟩

/-- A run without leaks and reuse is careful. -/
theorem careful_of_unbroken {history : List (Report τ φ κ α ω)}
    (htrace : (unbroken inBounds queue atom futex).Trace history perils) :
    ((machine inBounds queue atom futex).restrict
        fun perils label => perils.Careful inBounds label).Trace history perils ∧
      ∀ task, perils.lives.leaked task = false := by
  refine htrace.invariant
    (motive := fun history perils =>
      ((machine inBounds queue atom futex).restrict
        fun perils label => perils.Careful inBounds label).Trace history perils ∧
          ∀ task, perils.lives.leaked task = false) ⟨Machine.trace_init _, fun _ => rfl⟩ ?_
  rintro past before ⟨task, deed⟩ after reports - ⟨hcareful, hleaked⟩ hnext
  rw [Machine.restrict_next, Machine.restrict_next] at hnext
  obtain ⟨hunbroken, hsingle, hnext⟩ := hnext
  have hallowed : before.Careful inBounds (task, deed) := by
    cases deed with
    | unwind => trivial
    | use use =>
        refine ⟨?_, hunbroken⟩
        unfold Lives.Careful
        split
        case h_1 current huse =>
          cases huse
          cases hsingle.1
        case h_2 => simp [hleaked]
        case h_3 => trivial
  refine ⟨hcareful.step (Machine.restrict_next.mpr ⟨hallowed, hnext⟩), fun other => ?_⟩
  obtain ⟨lists, hheld⟩ := held_of_trace hcareful
  simp only [machine, Option.map_eq_some_iff] at hnext
  obtain ⟨⟨after', resp, events⟩, hstep, heq⟩ := hnext
  cases heq
  cases deed with
  | unwind =>
      obtain ⟨-, rfl, -⟩ := unwind_cases hstep
      exact hleaked other
  | use use =>
      rcases hheld.use_cases hstep with ⟨rfl, -⟩ | ⟨lives', hlives, rfl⟩
      · exact hleaked other
      · refine Lives.leaked_step ?_ ?_ hleaked hlives other
        · rintro current rfl
          cases hsingle.1
        · rintro rfl
          cases hsingle.1

omit [DecidableEq τ] [DecidableEq φ] [DecidableEq κ] [DecidableEq α] [DecidableEq ω] [Fintype τ] in
/-- A waiter that can be reached sleeps. -/
theorem Held.live_of_reaches (hheld : Held inBounds perils lists) {waiter : τ}
    (hreaches : perils.lives.Reaches waiter) :
    (perils.lives.world.phase waiter).Live ∧
      ∃ waker, perils.lives.world.waker waiter = .waiting waker := by
  obtain ⟨place, hinv⟩ := hheld.good.placed
  have hplace := hheld.placed hinv hreaches
  have hwaits := (hinv.task waiter).waits hplace
  obtain ⟨waker, hwaker⟩ := (hinv.task waiter).asleep hplace
  obtain ⟨store, -, hlives⟩ := hheld.lives
  rw [hlives]
  refine ⟨?_, waker, hwaker⟩
  change (lists.world.phase waiter).Live
  cases hphase : lists.world.phase waiter <;> rw [hphase] at hwaits <;>
    first | exact hwaits | trivial

omit [DecidableEq κ] [Fintype τ] in
theorem Held.idle_of_dropped (hheld : Held inBounds perils lists)
    (hdropped : perils.lives.alive task = false) : perils.lives.world.phase task = .idle := by
  have halive := hheld.good.alive task
  obtain ⟨store, -, hlives⟩ := hheld.lives
  rw [hlives] at hdropped ⊢
  by_contra hphase
  have hdropped' : lists.alive task = false := hdropped
  rw [halive hphase] at hdropped'
  cases hdropped'

omit [DecidableEq φ] [DecidableEq κ] [DecidableEq α] [DecidableEq ω] [Fintype τ] in
/-- A call that panics at an index is not written up. -/
theorem keep_panicked {world : HeapWorld τ φ κ α ω} {books : Books τ ω} {op : Op τ φ κ α}
    {spurious : Bool} {waker : ω}
    (hop : ∀ futex current new, op ≠ .cmpxchgWaitWeak futex current new) :
    books.keep world task
      (Deed.use (.act (.call op spurious waker)) : Deed τ φ κ α ω).asks [] = books := by
  cases op with
  | cmpxchgWaitWeak futex current new => exact absurd rfl (hop futex current new)
  | _ => rfl

theorem balanced_step {books : Books τ ω} {deed : Deed τ φ κ α ω}
    (hheld : Held inBounds perils lists) (hbal : perils.lives.world.Balanced books)
    (hsingle : perils.SingleUse (task, deed)) (hunbroken : perils.Unbroken inBounds (task, deed))
    (hleaked : perils.lives.leaked task = false)
    (hstep : perils.step inBounds task deed = some (perils', resp, events)) :
    perils'.lives.world.Balanced
      (books.keep perils.lives.world task deed.asks events) := by
  cases deed with
  | unwind =>
      have hdone : perils.lives.world.waker task = .done := hunbroken
      obtain ⟨hphase, rfl, hevents⟩ := unwind_cases hstep
      rw [hevents hdone]
      exact hbal.unwind hphase hdone
  | use use =>
      rcases hheld.use_cases hstep with ⟨rfl, rfl, op, spurious, waker, rfl, -, hop⟩ |
        ⟨lives', hlives, rfl⟩
      · rwa [keep_panicked hop]
      · refine Lives.balanced_step hbal ?_ ?_ ?_ hleaked
          (fun waiter hhandle => (hheld.live_of_reaches (.hand task hhandle)).1) hlives
        · rintro current rfl
          cases hsingle.1
        · rintro rfl
          cases hsingle.1
        · rintro futex current new spurious waker rfl
          exact hsingle.2 waker rfl

/-- The books agree with the world in every run. -/
theorem balanced_of_trace {history : List (Report τ φ κ α ω)}
    {current : Perils τ φ κ α ω × Books τ ω}
    (htrace : ((unbroken inBounds queue atom futex).record note
      Books.empty).Trace history current) : current.1.lives.world.Balanced current.2 := by
  refine htrace.invariant
    (motive := fun _ current => current.1.lives.world.Balanced current.2)
    (World.Balanced.initial _ _ _) ?_
  rintro past ⟨before, books⟩ ⟨task, deed⟩ ⟨after, books'⟩ reports hpast hbal hnext
  obtain ⟨hcareful, hleaked⟩ := careful_of_unbroken hpast.unrecorded
  obtain ⟨lists, hheld⟩ := held_of_trace hcareful
  obtain ⟨hnext, hbooks⟩ := Machine.record_next hnext
  rw [Machine.restrict_next, Machine.restrict_next] at hnext
  obtain ⟨hunbroken, hsingle, hnext⟩ := hnext
  simp only [machine, Option.map_eq_some_iff] at hnext
  obtain ⟨⟨after', resp, events⟩, hstep, heq⟩ := hnext
  cases heq
  cases hbooks
  exact balanced_step hheld hbal hsingle hunbroken (hleaked task) hstep

/-- Every waker that a poll clones is consumed exactly once. -/
theorem linear_of_trace {history : List (Report τ φ κ α ω)}
    (htrace : (unbroken inBounds queue atom futex).Trace history perils) :
    ∃ books, ((unbroken inBounds queue atom futex).record note
      Books.empty).Trace history (perils, books) ∧ perils.Linear inBounds books := by
  obtain ⟨books, hbooks⟩ := htrace.recorded
  refine ⟨books, hbooks, ?_⟩
  have hbal : perils.lives.world.Balanced books := balanced_of_trace hbooks
  obtain ⟨hcareful, hleaked⟩ := careful_of_unbroken htrace
  obtain ⟨lists, hheld⟩ := held_of_trace hcareful
  constructor
  case past => exact fun task => (hbal.kept task).settled.past
  case dropped =>
    intro task hdropped
    have hidle := hheld.idle_of_dropped hdropped
    have hsettled := (hbal.kept task).settled
    rw [(hbal.kept task).rests hidle, hidle, zero_add] at hsettled
    exact hsettled.consumed
  case present => exact fun task => (hbal.kept task).settled.present
  case once => exact fun task => (hbal.kept task).settled.once
  case woken =>
    intro task life
    refine (hbal.woken task life).imp_right fun ⟨notifier, hcalling⟩ => ?_
    obtain ⟨waker, hwaking, hpurse⟩ := hbal.calls notifier task life hcalling
    exact ⟨notifier, waker, hwaking, hpurse⟩
  case queued =>
    intro waiter hreaches
    obtain ⟨hlive, waker, hwaker⟩ := hheld.live_of_reaches hreaches
    exact ⟨waker, hwaker, (hbal.kept waiter).waits waker hlive hwaker⟩
  case wake =>
    intro notifier waiter spurious waker next resp events hhandle hstep
    obtain ⟨hlive, last, hlast⟩ := hheld.live_of_reaches (.hand notifier hhandle)
    refine ⟨last, (hbal.kept waiter).waits last hlive hlast, ?_⟩
    rcases hheld.use_cases hstep with ⟨-, -, op, spurious', waker', heq, hwake, -⟩ |
      ⟨lives', hlives, rfl⟩
    · simp only [Use.act.injEq, Act.call.injEq] at heq
      exact absurd heq.1.symm hwake
    · obtain ⟨outcome, hworld, rfl, rfl, -⟩ := Lives.wait_unleaked (hleaked notifier) hlives
      simp only [World.step] at hworld
      split at hworld
      case isFalse => cases hworld
      case isTrue =>
        simp only [World.call, World.wake, hhandle, hlast] at hworld
        cases hworld
        exact ⟨Function.update_self _ _ _, rfl⟩
  case poll =>
    intro task newWaker seen spurious next resp events hphase hidle hdone hstep
    have hseen := ((hbal.kept task).polls newWaker seen hphase).1
    rcases hheld.use_cases hstep with ⟨-, -, op, spurious', waker, heq, -⟩ |
      ⟨lives', hlives, rfl⟩
    · simp at heq
    · exact Lives.poll_woken (hleaked task) hphase hseen hidle hdone hlives
  case panics =>
    intro task act next events hstep
    rcases hheld.use_cases hstep with ⟨-, -, op, spurious, waker, heq, hwake, -⟩ |
      ⟨lives', hlives, rfl⟩
    · simp only [Use.act.injEq] at heq
      rw [heq]
      refine ⟨fun spurious' waker' hsame => ?_, by simp⟩
      rw [Act.call.injEq] at hsame
      exact hwake hsame.1
    · refine Lives.no_panic hbal (hleaked task) (fun waiter hhandle => ?_) hlives
      exact (hheld.live_of_reaches (.hand task hhandle)).2

/-- A failed attempt, a poll with another waker, and a third poll that meets
the notifier.  Then the callback of a woken future unwinds. -/
theorem linear_of_wake :
    ∃ (history : List (Report (Fin 2) Unit ℕ Unit Bool))
      (perils : Perils (Fin 2) Unit ℕ Unit Bool),
      history.flatMap Report.events = [.created 0, .wakerCloned false, .refused 0,
        .entered 0 (), .wakerCloned true, .wakerDropped false, .wakerCloned false, .woken 0,
        .wakerDropped false, .ready 0, .wakerWoken true, .created 0, .wakerCloned true,
        .entered 0 (), .woken 0, .wakerWoken true, .cancelWoken 0] ∧
      perils.lives.alive 0 = false ∧ ∃ books,
        ((unbroken (fun _ queue => queue = 0) 0 (fun _ => ()) ()).record note
          Books.empty).Trace history (perils, books) ∧
        perils.Linear (fun _ queue => queue = 0) books := by
  let calls : List (Fin 2 × Act (Fin 2) Unit ℕ Unit Bool) :=
    [(0, .call (.waiter () 0) false false),
      (0, .call (.cmpxchgWaitWeak () ⟨(), none⟩ ()) true false),
      (0, .call (.cmpxchgWaitWeak () ⟨(), none⟩ ()) false false),
      (0, .call .pending false false), (0, .poll true), (0, .step false), (0, .poll false),
      (1, .call (.lock ()) false false), (1, .call (.borrow ()) false false),
      (1, .call (.cmpxchgEnqueueWeak () ⟨(), some 0⟩ ()) false false),
      (1, .call (.pop () 0) false false), (1, .call .wake false false), (0, .step false),
      (0, .step false), (1, .step false)]
  let more : List (Fin 2 × Act (Fin 2) Unit ℕ Unit Bool) :=
    [(0, .call (.waiter () 0) false false),
      (0, .call (.cmpxchgWaitWeak () ⟨(), none⟩ ()) false true),
      (0, .call .pending false false),
      (1, .call (.cmpxchgEnqueueWeak () ⟨(), some 0⟩ ()) false false),
      (1, .call (.pop () 0) false false), (1, .call .wake false false), (1, .step false),
      (1, .call (.release ()) false false), (1, .call (.unlock ()) false false),
      (0, .drop), (0, .step false), (0, .step false), (0, .step false), (0, .step false),
      (0, .step false)]
  let labels : List (Fin 2 × Deed (Fin 2) Unit ℕ Unit Bool) :=
    calls.map (fun call => (call.1, .use (.act call.2))) ++ [(0, .use .dropWaiter)] ++
      more.map (fun call => (call.1, .use (.act call.2))) ++
        [(0, .unwind), (0, .use .dropWaiter)]
  have hrun : ((unbroken (fun _ queue => queue = 0) 0 (fun _ => ()) () :
      Machine (Perils (Fin 2) Unit ℕ Unit Bool) _ _).run labels).map (fun result =>
      decide (result.2.flatMap Report.events = [.created 0, .wakerCloned false, .refused 0,
        .entered 0 (), .wakerCloned true, .wakerDropped false, .wakerCloned false, .woken 0,
        .wakerDropped false, .ready 0, .wakerWoken true, .created 0, .wakerCloned true,
        .entered 0 (), .woken 0, .wakerWoken true, .cancelWoken 0] ∧
        result.1.lives.alive 0 = false)) = some true := by
    decide +kernel
  obtain ⟨⟨perils, history⟩, hresult, hgood⟩ := Option.map_eq_some_iff.mp hrun
  obtain ⟨hevents, halive⟩ := of_decide_eq_true hgood
  exact ⟨history, perils, hevents, halive, linear_of_trace ⟨labels, hresult⟩⟩

/-- The callback of a future that was dropped asleep unwinds, and the drop of
its waiter consumes the same waker again.  And a waiter is dropped while a queue
keeps it, since its future panicked at the index of another waiter. -/
theorem unlinear_of_unwind :
    (∃ (history : List (Report (Fin 2) Unit ℕ Unit Bool))
      (perils : Perils (Fin 2) Unit ℕ Unit Bool) (books : Books (Fin 2) Bool),
      ((singleUse (fun _ queue => queue = 0) 0 (fun _ => ()) ()).record note
        Books.empty).Trace history (perils, books) ∧ perils.lives.alive 0 = false ∧
        (books.account 0).current.cloned = {false} ∧
        (books.account 0).current.dropped = {false, false} ∧
        ¬ perils.Linear (fun _ queue => queue = 0) books) ∧
    ∃ (history : List (Report (Fin 2) Unit ℕ Unit Bool))
      (perils : Perils (Fin 2) Unit ℕ Unit Bool) (books : Books (Fin 2) Bool),
      ((singleUse (fun _ queue => queue = 0) 0 (fun _ => ()) ()).record note
        Books.empty).Trace history (perils, books) ∧ perils.lives.Reaches 0 ∧
        perils.lives.alive 0 = false ∧ perils.lives.world.waker 0 = .none ∧
        ¬ perils.Linear (fun _ queue => queue = 0) books := by
  let recorded : Machine (Perils (Fin 2) Unit ℕ Unit Bool × Books (Fin 2) Bool) _ _ :=
    (singleUse (fun _ queue => queue = 0) 0 (fun _ => ()) ()).record note Books.empty
  constructor
  · let labels := firstWait 0 0 none ++ dropSteps 0 6 ++ [(0, .unwind), (0, .use .dropWaiter)]
    have hrun : (recorded.run labels).map (fun result =>
        decide (result.1.1.lives.alive 0 = false ∧
          (result.1.2.account 0).current.cloned = {false} ∧
          (result.1.2.account 0).current.taken = 0 ∧
          (result.1.2.account 0).current.dropped = {false, false})) = some true := by
      decide +kernel
    obtain ⟨⟨⟨perils, books⟩, history⟩, hresult, hgood⟩ := Option.map_eq_some_iff.mp hrun
    obtain ⟨halive, hcloned, htaken, hdropped⟩ := of_decide_eq_true hgood
    refine ⟨history, perils, books, ⟨labels, hresult⟩, halive, hcloned, hdropped,
      fun hlinear => ?_⟩
    have hconsumed := hlinear.dropped 0 halive
    unfold Purse.Consumed at hconsumed
    rw [hcloned, htaken, hdropped] at hconsumed
    exact absurd hconsumed (by decide)
  · let labels := firstWait 0 0 none ++ firstWait 1 1 (some 0) ++ dropSteps 0 4 ++
      [(0, .use .dropWaiter)]
    have hrun : (recorded.run labels).map (fun result =>
        decide ((result.1.1.lives.world.store.queues () 0).head = some 0 ∧
          result.1.1.lives.alive 0 = false ∧ result.1.1.lives.world.waker 0 = .none)) =
            some true := by
      decide +kernel
    obtain ⟨⟨⟨perils, books⟩, history⟩, hresult, hgood⟩ := Option.map_eq_some_iff.mp hrun
    obtain ⟨hhead, halive, hnone⟩ := of_decide_eq_true hgood
    have hreaches : perils.lives.Reaches 0 := by
      refine .queue () 0 ?_
      rw [hhead]
      exact .here 0
    refine ⟨history, perils, books, ⟨labels, hresult⟩, hreaches, halive, hnone,
      fun hlinear => ?_⟩
    obtain ⟨waker, hwaker, -⟩ := hlinear.queued 0 hreaches
    rw [hnone] at hwaker
    cases hwaker

end Perils

end AsyncMutex
