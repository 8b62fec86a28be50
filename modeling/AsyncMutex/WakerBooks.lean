import AsyncMutex.WakerLedger

/-!
# The books of a world

The books hold the account of every task and, for a task that took a waker out
of a waiter, which waiter it was.  They are written up from the history of the
code, one event at a time, and stay balanced.
-/

namespace AsyncMutex

structure Books (τ ω : Type) where
  account : τ → Account ω
  /-- The task is about to wake the waker of this waiter. -/
  calling : τ → Option (τ × ℕ)

namespace Books

variable {S τ φ κ α ω : Type} [DecidableEq τ]

def empty : Books τ ω :=
  ⟨fun _ => .empty, fun _ => none⟩

def change (books : Books τ ω) (task : τ) (account : Account ω) : Books τ ω :=
  { books with account := Function.update books.account task account }

def setCalling (books : Books τ ω) (task : τ) (call : Option (τ × ℕ)) : Books τ ω :=
  { books with calling := Function.update books.calling task call }

@[simp] theorem setCalling_account (books : Books τ ω) (task : τ) (call : Option (τ × ℕ)) :
    (books.setCalling task call).account = books.account := rfl

@[simp] theorem setCalling_self (books : Books τ ω) (task : τ) (call : Option (τ × ℕ)) :
    (books.setCalling task call).calling task = call :=
  Function.update_self _ _ _

theorem setCalling_of_ne (books : Books τ ω) {task other : τ} (hne : other ≠ task)
    (call : Option (τ × ℕ)) :
    (books.setCalling task call).calling other = books.calling other :=
  Function.update_of_ne hne _ _

@[simp] theorem change_calling (books : Books τ ω) (task : τ) (account : Account ω) :
    (books.change task account).calling = books.calling := rfl

@[simp] theorem change_self (books : Books τ ω) (task : τ) (account : Account ω) :
    (books.change task account).account task = account :=
  Function.update_self _ _ _

theorem change_of_ne (books : Books τ ω) {task other : τ} (hne : other ≠ task)
    (account : Account ω) :
    (books.change task account).account other = books.account other :=
  Function.update_of_ne hne _ _

@[simp] theorem change_change (books : Books τ ω) (task : τ) (first second : Account ω) :
    (books.change task first).change task second = books.change task second := by
  simp [change]

@[simp] theorem change_account (books : Books τ ω) (task : τ) :
    books.change task (books.account task) = books := by
  simp [change]

/-- One purse of one task changes. -/
theorem purse_of_ne (books : Books τ ω) {task other : τ} {life life' : ℕ}
    (hne : (other, life') ≠ (task, life)) (purse : Purse ω) :
    ((books.change task ((books.account task).change life purse)).account other).purse life' =
      (books.account other).purse life' := by
  by_cases hother : other = task
  · subst hother
    have hlife : life' ≠ life := fun heq => hne (by rw [heq])
    rw [change_self, Account.change_of_ne _ hlife]
  · rw [change_of_ne _ hother]

/-- Write up an event of a step of `actor` in `world`. -/
def post (world : World S τ φ α ω) (actor : τ) (books : Books τ ω) :
    Event τ φ ω → Books τ ω
  | .created task => books.change task (books.account task).create
  | .entered task _ => books.change task (books.account task).register
  | .woken waiter =>
      match world.waker waiter with
      | .waiting waker =>
          (books.change waiter ((books.account waiter).take waker)).setCalling actor
            (some (waiter, (books.account waiter).life))
      | _ => books
  | .wakerCloned waker => books.change actor ((books.account actor).clone waker)
  | .wakerDropped waker =>
      match world.phase actor with
      -- the compare-exchange of `poll_waiting` succeeded
      | .polling _ (.waiting _) =>
          books.change actor ((books.account actor).drop waker).register
      | _ => books.change actor ((books.account actor).drop waker)
  | .wakerWoken waker =>
      match books.calling actor with
      | some (waiter, life) =>
          (books.change waiter ((books.account waiter).wake life waker)).setCalling actor none
      | none => books
  | _ => books

/-- A poll of `actor` with `waker` begins. -/
def ask (books : Books τ ω) (actor : τ) : Option ω → Books τ ω
  | some waker => books.change actor ((books.account actor).ask waker)
  | none => books

/-- Write up a step of `actor`, which polls with the waker `asks` if any. -/
def keep (world : World S τ φ α ω) (actor : τ) (asks : Option ω)
    (events : List (Event τ φ ω)) (books : Books τ ω) : Books τ ω :=
  events.foldl (post world actor) (books.ask actor asks)

end Books

/-- What `Drop for Waiter` adds to the history. -/
def WaiterWaker.released {τ φ ω : Type} : WaiterWaker ω → List (Event τ φ ω)
  | .waiting waker => [.wakerDropped waker]
  | _ => []

/-- The waker that a step of a poll brings. -/
def Act.asks {τ φ κ α ω : Type} : Act τ φ κ α ω → Option ω
  | .call (.cmpxchgWaitWeak _ _ _) _ waker => some waker
  | .poll waker => some waker
  | _ => none

namespace World

variable {S τ φ κ α ω : Type}

/-- The books agree with the world. -/
structure Balanced (world : World S τ φ α ω) (books : Books τ ω) : Prop where
  kept : ∀ task, Kept (books.account task) (world.phase task) (world.waker task)
  calls : ∀ notifier waiter life, books.calling notifier = some (waiter, life) →
    ∃ waker, world.busy notifier = .waking waiter waker ∧
      ((books.account waiter).purse life).taken = {waker} ∧
      ((books.account waiter).purse life).woken = 0
  called : ∀ notifier waiter waker, world.busy notifier = .waking waiter waker →
    ∃ life, books.calling notifier = some (waiter, life)
  single : ∀ notifier notifier' call, books.calling notifier = some call →
    books.calling notifier' = some call → notifier = notifier'
  woken : ∀ waiter life, ((books.account waiter).purse life).woken =
      ((books.account waiter).purse life).taken ∨
    ∃ notifier, books.calling notifier = some (waiter, life)

namespace Balanced

variable [FutexStore S τ φ κ] {world world' : World S τ φ α ω} {books : Books τ ω}

theorem initial (store : S) (atom : φ → α) (futex : φ) :
    (World.initial store atom futex : World S τ φ α ω).Balanced Books.empty where
  kept _ := .empty
  calls _ _ _ hcalling := by cases hcalling
  called _ _ _ hbusy := by cases hbusy
  single _ _ _ hcalling := by cases hcalling
  woken _ _ := Or.inl rfl

variable [DecidableEq τ]

/-- A step changes the account of one task and takes and wakes no waker. -/
theorem act (hbal : world.Balanced books) {task : τ} {account : Account ω}
    (hquiet : (books.account task).Quiet account)
    (hkept : Kept account (world'.phase task) (world'.waker task))
    (hphase : ∀ other, other ≠ task → world'.phase other = world.phase other)
    (hwaker : ∀ other, other ≠ task → world'.waker other = world.waker other)
    (hbusy : ∀ notifier waiter waker, world'.busy notifier = .waking waiter waker ↔
      world.busy notifier = .waking waiter waker) :
    world'.Balanced (books.change task account) := by
  have htaken' (other : τ) (life : ℕ) :
      (((books.change task account).account other).purse life).taken =
        ((books.account other).purse life).taken := by
    by_cases hother : other = task
    · rw [hother, Books.change_self, hquiet.taken]
    · rw [Books.change_of_ne _ hother]
  have hwoken' (other : τ) (life : ℕ) :
      (((books.change task account).account other).purse life).woken =
        ((books.account other).purse life).woken := by
    by_cases hother : other = task
    · rw [hother, Books.change_self, hquiet.woken]
    · rw [Books.change_of_ne _ hother]
  constructor
  case kept =>
    intro other
    by_cases hother : other = task
    · rw [hother, Books.change_self]
      exact hkept
    · rw [Books.change_of_ne _ hother, hphase other hother, hwaker other hother]
      exact hbal.kept other
  case calls =>
    intro notifier waiter life hcalling
    obtain ⟨waker, hwaking, hpurse⟩ := hbal.calls notifier waiter life hcalling
    refine ⟨waker, (hbusy _ _ _).mpr hwaking, ?_⟩
    rw [htaken', hwoken']
    exact hpurse
  case called =>
    intro notifier waiter waker hwaking
    exact hbal.called notifier waiter waker ((hbusy _ _ _).mp hwaking)
  case single => exact hbal.single
  case woken =>
    intro waiter life
    rw [htaken', hwoken']
    exact hbal.woken waiter life

/-- The future and the account of one task change. -/
theorem actor (hbal : world.Balanced books) {task : τ} {account : Account ω}
    {phase : Phase τ φ α ω} {waker : WaiterWaker ω}
    (hquiet : (books.account task).Quiet account) (hkept : Kept account phase waker)
    (hphase : world'.phase = Function.update world.phase task phase)
    (hwaker : world'.waker = Function.update world.waker task waker)
    (hbusy : world'.busy = world.busy) : world'.Balanced (books.change task account) := by
  apply hbal.act hquiet
  · rw [hphase, hwaker, Function.update_self, Function.update_self]
    exact hkept
  · intro other hother
    rw [hphase, Function.update_of_ne hother]
  · intro other hother
    rw [hwaker, Function.update_of_ne hother]
  · intro notifier waiter old
    rw [hbusy]

omit [DecidableEq τ] in
/-- No future changes, and whoever is busy wakes nobody. -/
theorem same (hbal : world.Balanced books) (hphase : world'.phase = world.phase)
    (hwaker : world'.waker = world.waker)
    (hbusy : ∀ notifier waiter waker, world'.busy notifier = .waking waiter waker ↔
      world.busy notifier = .waking waiter waker) : world'.Balanced books := by
  refine ⟨fun task => ?_, fun notifier waiter life hcalling => ?_,
    fun notifier waiter waker hwaking => ?_, hbal.single, hbal.woken⟩
  · rw [hphase, hwaker]
    exact hbal.kept task
  · obtain ⟨waker, hwaking, hpurse⟩ := hbal.calls notifier waiter life hcalling
    exact ⟨waker, (hbusy _ _ _).mpr hwaking, hpurse⟩
  · exact hbal.called notifier waiter waker ((hbusy _ _ _).mp hwaking)

theorem untouched (hbal : world.Balanced books) {outcome : Outcome S τ φ α ω}
    (hsame : world.Untouched outcome) (task : τ) :
    outcome.world.Balanced (books.keep world task none outcome.events) := by
  rw [hsame.events]
  apply hbal.same hsame.phase hsame.waker
  rw [hsame.busy]
  exact fun _ _ _ => Iff.rfl

/-- `Drop for Waiter` consumes the waker that is left. -/
theorem released (hbal : world.Balanced books) {task : τ}
    (hphase : world.phase task = .idle ∨ world.phase task = .enter) :
    ∃ account, (world.waker task).released.foldl (Books.post world task) books =
        books.change task account ∧
      (books.account task).Quiet account ∧ account.Settled 0 := by
  have hheld : (world.phase task).held = 0 := by
    rcases hphase with hphase | hphase <;> rw [hphase] <;> rfl
  have hsettled := (hbal.kept task).settled
  rw [hheld, add_zero] at hsettled
  cases hwaker : world.waker task with
  | none =>
      rw [hwaker] at hsettled
      exact ⟨books.account task, by simp [WaiterWaker.released], .refl _, hsettled⟩
  | done =>
      rw [hwaker] at hsettled
      exact ⟨books.account task, by simp [WaiterWaker.released], .refl _, hsettled⟩
  | waiting waker =>
      rw [hwaker] at hsettled
      refine ⟨(books.account task).drop waker, ?_, (Account.Quiet.refl _).drop waker,
        Account.Settled.drop hsettled⟩
      rcases hphase with hphase | hphase <;>
        simp [WaiterWaker.released, Books.post, hphase]

theorem dropWaiter (hbal : world.Balanced books) {task : τ}
    (hphase : world.phase task = .idle ∨ world.phase task = .enter) :
    ((world.setWaker task .none).setPhase task .idle).Balanced
      (books.keep world task none (world.waker task).released) := by
  obtain ⟨account, hbooks, hquiet, hsettled⟩ := hbal.released hphase
  unfold Books.keep Books.ask
  rw [hbooks]
  exact hbal.actor hquiet (.idle hsettled rfl) rfl rfl rfl

variable [DecidableEq φ] [DecidableEq α] [DecidableEq ω]

theorem newWaiter (hbal : world.Balanced books) {task : τ} {futex : φ} {queue : κ}
    {outcome : Outcome S τ φ α ω}
    (hstep : world.newWaiter task futex queue = some outcome) :
    outcome.world.Balanced (books.keep world task none outcome.events) := by
  unfold World.newWaiter at hstep
  split at hstep
  case isFalse =>
    cases hstep
    exact hbal
  case isTrue hphase =>
    obtain ⟨account, hbooks, hquiet, hsettled⟩ := hbal.released hphase
    have hevents : outcome.events = (world.waker task).released ++ [.created task] := by
      cases hstep
      rfl
    rw [hevents]
    simp only [Books.keep, Books.ask, List.foldl_append, hbooks, List.foldl_cons,
      List.foldl_nil, Books.post, Books.change_self, Books.change_change]
    cases hstep
    exact hbal.actor hquiet.create (.create hsettled) rfl rfl rfl

omit [DecidableEq φ] [DecidableEq α] [DecidableEq ω] in
/-- A poll asks with its waker. -/
theorem ask (hbal : world.Balanced books) {task : τ} {waker : ω}
    (hphase : ∀ other seen, world.phase task ≠ .polling other seen)
    (hretry : ∀ old, world.phase task = .enter → world.waker task = .waiting old →
      waker = old) : world.Balanced (books.ask task (some waker)) :=
  hbal.act ((Account.Quiet.refl _).ask waker) ((hbal.kept task).ask hphase hretry)
    (fun _ _ => rfl) (fun _ _ => rfl) fun _ _ _ => Iff.rfl

theorem pollEnter (hbal : world.Balanced books) {task : τ} {futex : φ}
    {current : FutexAtom τ α} {new : α} {spurious : Bool} {waker : ω}
    {outcome : Outcome S τ φ α ω}
    (hrunning : world.phase task = .idle ∨ world.phase task = .enter ∨
      world.phase task = .entered)
    (hretry : ∀ old, world.phase task = .enter → world.waker task = .waiting old →
      waker = old)
    (hstep : world.pollEnter task futex current new spurious waker = some outcome) :
    outcome.world.Balanced (books.keep world task (some waker) outcome.events) := by
  have hasked : world.Balanced (books.ask task (some waker)) := by
    refine hbal.ask (fun other seen hpolling => ?_) hretry
    simp [hpolling] at hrunning
  unfold World.pollEnter at hstep
  split at hstep
  case isTrue =>
    cases hstep
    exact hasked
  case isFalse hphase =>
    rw [Ne, not_not] at hphase
    split at hstep
    case isTrue =>
      cases hstep
      exact hasked
    case isFalse =>
      split at hstep
      case h_1 hdone => exact absurd hdone ((hbal.kept task).fresh hphase)
      case h_2 =>
        have hkept := hasked.kept task
        have hasks : ((books.ask task (some waker)).account task).asked = some waker := by
          simp [Books.ask, Account.ask]
        have hsame : world.phase = Function.update world.phase task .enter := by
          rw [← hphase, Function.update_eq_self]
        unfold Books.keep
        generalize books.ask task (some waker) = books' at hasked hkept hasks ⊢
        cases hwaker : world.waker task with
        | done => exact absurd hwaker ((hbal.kept task).fresh hphase)
        | none =>
            rw [hwaker, hphase] at hkept
            have hstored := hkept.store rfl hasks
            simp only [hwaker] at hstep
            split at hstep <;> cases hstep <;>
              simp only [List.cons_append, List.nil_append, List.foldl_cons,
                List.foldl_nil, Books.post, Books.change_self, Books.change_change]
            case isTrue.refl =>
              exact hasked.actor ((Account.Quiet.refl _).clone waker).register
                (hstored.enter rfl) rfl rfl rfl
            case isFalse.refl =>
              exact hasked.actor ((Account.Quiet.refl _).clone waker) hstored hsame rfl rfl
        | waiting old =>
            have hstored : world.waker = Function.update world.waker task (.waiting old) := by
              rw [← hwaker, Function.update_eq_self]
            rw [hwaker, hphase] at hkept
            simp only [hwaker] at hstep
            split at hstep <;> cases hstep <;>
              simp only [List.nil_append, List.foldl_cons, List.foldl_nil, Books.post]
            case isTrue.refl =>
              exact hasked.actor (Account.Quiet.refl _).register (hkept.enter rfl) rfl
                hstored rfl
            case isFalse.refl => exact hasked.same rfl rfl fun _ _ _ => Iff.rfl

theorem poll (hbal : world.Balanced books) {task : τ} {waker : ω}
    {outcome : Outcome S τ φ α ω} (hstep : world.poll task waker = some outcome) :
    outcome.world.Balanced (books.keep world task (some waker) outcome.events) := by
  unfold World.poll at hstep
  split at hstep <;> cases hstep
  case isTrue.refl hguard =>
    obtain ⟨hphase, -⟩ := hguard
    have hstored : world.waker = Function.update world.waker task (world.waker task) := by
      rw [Function.update_eq_self]
    simp only [Books.keep, Books.ask, List.foldl_cons, List.foldl_nil, Books.post,
      Books.change_self, Books.change_change]
    exact hbal.actor (((Account.Quiet.refl _).ask waker).clone waker)
      ((hbal.kept task).poll hphase waker) rfl hstored rfl

omit [DecidableEq φ] [DecidableEq α] in
theorem pollWaiting (hbal : world.Balanced books) {task : τ} {newWaker : ω}
    {seen : WaiterWaker ω} {spurious : Bool} {outcome : Outcome S τ φ α ω}
    (hphase : world.phase task = .polling newWaker seen)
    (hstep : world.pollWaiting task newWaker seen spurious = some outcome) :
    outcome.world.Balanced (books.keep world task none outcome.events) := by
  have hkept := hbal.kept task
  have hstored : world.waker = Function.update world.waker task (world.waker task) := by
    rw [Function.update_eq_self]
  unfold World.pollWaiting at hstep
  cases seen with
  | none => exact absurd rfl (hkept.polls newWaker .none hphase).1
  | done =>
      cases hstep
      simp only [Books.keep, Books.ask, List.foldl_cons, List.foldl_nil, Books.post, hphase]
      exact hbal.actor ((Account.Quiet.refl _).drop newWaker) (hkept.ready hphase) rfl
        hstored rfl
  | waiting old =>
      simp only at hstep
      split at hstep <;> cases hstep
      case isTrue.refl hguard =>
        obtain ⟨hwaker, -⟩ := hguard
        rw [hwaker] at hkept
        simp only [Books.keep, Books.ask, List.foldl_cons, List.foldl_nil, Books.post, hphase]
        exact hbal.actor ((Account.Quiet.refl _).drop old).register (hkept.exchange hphase)
          rfl rfl rfl
      case isFalse.refl =>
        have hsame : (world.setPhase task (.polling newWaker (world.waker task))).Balanced
            (books.change task (books.account task)) :=
          hbal.actor (Account.Quiet.refl _) (hkept.reload hphase) rfl hstored rfl
        rwa [Books.change_account] at hsame

omit [DecidableEq φ] [DecidableEq α] [DecidableEq ω] in
/-- The future of a task goes on. -/
theorem goOn (hbal : world.Balanced books) {task : τ} {phase phase' : Phase τ φ α ω}
    (hphase : world.phase task = phase)
    (hphase' : world'.phase = Function.update world.phase task phase')
    (hwaker : world'.waker = world.waker) (hbusy : world'.busy = world.busy)
    (hlive : phase.Live) (hlive' : phase'.Live) (hheld : phase.held = 0)
    (hheld' : phase'.held = 0) : world'.Balanced books := by
  subst hphase
  have hsame : world'.Balanced (books.change task (books.account task)) :=
    hbal.actor (Account.Quiet.refl _) ((hbal.kept task).goOn hlive hlive' hheld hheld')
      hphase' (by rw [hwaker, Function.update_eq_self]) hbusy
  rwa [Books.change_account] at hsame

theorem drop (hbal : world.Balanced books) {task : τ} {outcome : Outcome S τ φ α ω}
    (hstep : world.drop task = some outcome) :
    outcome.world.Balanced (books.keep world task none outcome.events) := by
  unfold World.drop at hstep
  split at hstep <;> cases hstep
  case isTrue.refl hguard =>
    exact hbal.goOn hguard.1 rfl rfl rfl trivial trivial rfl rfl

omit [DecidableEq φ] [DecidableEq α] [DecidableEq ω] in
theorem flipAt (hbal : world.Balanced books) {task : τ} {phase : Phase τ φ α ω}
    (hphase : world.phase task = phase) (hlive : phase.Live) (hheld : phase.held = 0)
    (owner : φ) (current : FutexAtom τ α) :
    (world.flipAt task owner current).Balanced books := by
  unfold World.flipAt
  split
  · exact hbal.goOn hphase rfl rfl rfl hlive trivial hheld rfl
  · exact hbal.goOn hphase rfl rfl rfl hlive trivial hheld rfl

omit [DecidableEq φ] [DecidableEq α] [DecidableEq ω] in
/-- The drop is over and the waker word is empty. -/
theorem finish (hbal : world.Balanced books) {task : τ} {account : Account ω}
    (hquiet : (books.account task).Quiet account) (hsettled : account.Settled 0) :
    ((world.setWaker task .none).setPhase task .idle).Balanced
      (books.change task account) :=
  hbal.actor hquiet (.idle hsettled rfl) rfl rfl rfl

omit [DecidableEq ω] in
theorem dropStep (hbal : world.Balanced books) {task : τ} {spurious : Bool}
    {outcome : Outcome S τ φ α ω} (hstep : world.dropStep task spurious = some outcome) :
    outcome.world.Balanced (books.keep world task none outcome.events) := by
  unfold World.dropStep at hstep
  split at hstep
  case h_1 owner hphase =>
    split at hstep <;> cases hstep
    exact hbal.goOn hphase rfl rfl rfl trivial trivial rfl rfl
  case h_2 owner hphase =>
    cases hstep
    by_cases howner : owner = world.owner task
    · simp only [howner, if_true]
      exact hbal.goOn hphase rfl rfl rfl trivial trivial rfl rfl
    · simp only [howner, if_false]
      exact hbal.goOn hphase rfl rfl rfl trivial trivial rfl rfl
  case h_3 owner owner2 hphase =>
    cases hstep
    exact hbal.goOn hphase rfl rfl rfl trivial trivial rfl rfl
  case h_4 owner hphase =>
    cases hstep
    exact hbal.flipAt hphase trivial rfl owner _
  case h_5 owner current hphase =>
    split at hstep
    · rw [Option.map_eq_some_iff] at hstep
      obtain ⟨store, -, heq⟩ := hstep
      cases heq
      exact hbal.goOn hphase rfl rfl rfl trivial trivial rfl rfl
    · cases hstep
      exact hbal.flipAt hphase trivial rfl owner _
  case h_6 owner hphase =>
    cases hstep
    exact hbal.goOn hphase rfl rfl rfl trivial trivial rfl rfl
  case h_7 owner hphase =>
    cases hstep
    exact hbal.goOn hphase rfl rfl rfl trivial trivial rfl rfl
  case h_8 hphase =>
    have hkept := hbal.kept task
    rw [hphase] at hkept
    split at hstep
    case h_1 hwaker => exact absurd hwaker (hkept.registered trivial)
    case h_2 waker hwaker =>
      cases hstep
      rw [hwaker] at hkept
      simp only [Books.keep, Books.ask, List.foldl_cons, List.foldl_nil, Books.post, hphase]
      exact hbal.finish ((Account.Quiet.refl _).drop waker) hkept.settled.drop
    case h_3 hwaker =>
      cases hstep
      rw [hwaker] at hkept
      have hsame := hbal.finish (Account.Quiet.refl _) hkept.settled
      rwa [Books.change_account] at hsame
  case h_9 => cases hstep

omit [DecidableEq φ] [DecidableEq α] [DecidableEq ω] in
/-- The callback of a woken future unwinds. -/
theorem unwind (hbal : world.Balanced books) {task : τ}
    (hphase : world.phase task = .dropFinish) (hdone : world.waker task = .done) :
    (world.setPhase task .idle).Balanced books := by
  have hsettled := (hbal.kept task).settled
  rw [hphase, hdone] at hsettled
  have hkept : Kept (books.account task) (.idle : Phase τ φ α ω) (world.waker task) :=
    .idle hsettled (by rw [hdone]; rfl)
  have hsame : (world.setPhase task .idle).Balanced
      (books.change task (books.account task)) :=
    hbal.actor (Account.Quiet.refl _) hkept rfl (by rw [Function.update_eq_self]; rfl) rfl
  rwa [Books.change_account] at hsame

omit [DecidableEq φ] [DecidableEq α] [DecidableEq ω] in
theorem pending (hbal : world.Balanced books) {task : τ} (hphase : world.phase task = .entered) :
    (world.setPhase task .pending).Balanced books :=
  hbal.goOn hphase rfl rfl rfl trivial trivial rfl rfl

omit [DecidableEq τ] [DecidableEq φ] [DecidableEq α] [DecidableEq ω] in
/-- Nobody has taken a waker of the present waiter of a task. -/
theorem uncalled (hbal : world.Balanced books) {waiter : τ}
    (huntaken : (books.account waiter).current.taken = 0) :
    (∀ notifier, books.calling notifier ≠ some (waiter, (books.account waiter).life)) ∧
      (books.account waiter).current.woken = 0 := by
  have hcalling (notifier : τ) :
      books.calling notifier ≠ some (waiter, (books.account waiter).life) := by
    intro hcall
    obtain ⟨waker, -, htaken, -⟩ := hbal.calls notifier _ _ hcall
    have hnone : (0 : Multiset ω) = {waker} := huntaken.symm.trans htaken
    simp at hnone
  refine ⟨hcalling, ?_⟩
  rcases hbal.woken waiter (books.account waiter).life with heq | ⟨notifier, hcall⟩
  · exact heq.trans huntaken
  · exact absurd hcall (hcalling notifier)

omit [DecidableEq φ] [DecidableEq α] [DecidableEq ω] in
/-- The swap of `Waiter::wake` on a waiter that sleeps. -/
theorem take (hbal : world.Balanced books) {task waiter : τ} {waker : ω}
    (hidle : world.busy task = .none) (hlive : (world.phase waiter).Live)
    (hwaker : world.waker waiter = .waiting waker)
    (hphase : world'.phase = world.phase)
    (hwaker' : world'.waker = Function.update world.waker waiter .done)
    (hbusy : world'.busy = Function.update world.busy task (.waking waiter waker)) :
    world'.Balanced ((books.change waiter ((books.account waiter).take waker)).setCalling task
      (some (waiter, (books.account waiter).life))) := by
  have hkept := hbal.kept waiter
  rw [hwaker] at hkept
  have huntaken : (books.account waiter).current.taken = 0 :=
    hkept.untaken (fun heq => by simp [heq, Phase.Live] at hlive) (by simp)
  obtain ⟨huncalled, hunwoken⟩ := hbal.uncalled huntaken
  have hfree : books.calling task = none := by
    cases hcall : books.calling task with
    | none => rfl
    | some call =>
        obtain ⟨old, hwaking, -⟩ := hbal.calls task _ _ hcall
        rw [hidle] at hwaking
        cases hwaking
  constructor
  case kept =>
    intro other
    rw [hphase, hwaker']
    by_cases hother : other = waiter
    · subst hother
      rw [Books.setCalling_account, Books.change_self, Function.update_self]
      exact hkept.take hlive
    · rw [Books.setCalling_account, Books.change_of_ne _ hother,
        Function.update_of_ne hother]
      exact hbal.kept other
  case calls =>
    intro notifier other life hcalling
    by_cases hnotifier : notifier = task
    · subst hnotifier
      rw [Books.setCalling_self] at hcalling
      cases hcalling
      refine ⟨waker, by rw [hbusy, Function.update_self], ?_⟩
      rw [Books.setCalling_account, Books.change_self, Account.take, Account.change_self]
      exact ⟨by rw [huntaken, add_zero], hunwoken⟩
    · rw [Books.setCalling_of_ne _ hnotifier, Books.change_calling] at hcalling
      obtain ⟨old, hwaking, hpurse⟩ := hbal.calls notifier other life hcalling
      refine ⟨old, by rw [hbusy, Function.update_of_ne hnotifier, hwaking], ?_⟩
      have hne : (other, life) ≠ (waiter, (books.account waiter).life) := by
        intro heq
        rw [heq] at hcalling
        exact huncalled notifier hcalling
      rw [Books.setCalling_account, Account.take, Books.purse_of_ne books hne]
      exact hpurse
  case called =>
    intro notifier other old hwaking
    rw [hbusy] at hwaking
    by_cases hnotifier : notifier = task
    · subst hnotifier
      rw [Function.update_self] at hwaking
      cases hwaking
      exact ⟨_, Books.setCalling_self _ _ _⟩
    · rw [Function.update_of_ne hnotifier] at hwaking
      obtain ⟨life, hcalling⟩ := hbal.called notifier other old hwaking
      exact ⟨life, (Books.setCalling_of_ne _ hnotifier _).trans hcalling⟩
  case single =>
    intro notifier notifier' call hcall hcall'
    by_cases hnotifier : notifier = task <;> by_cases hnotifier' : notifier' = task
    · rw [hnotifier, hnotifier']
    · subst hnotifier
      rw [Books.setCalling_self] at hcall
      rw [Books.setCalling_of_ne _ hnotifier', ← hcall] at hcall'
      exact absurd hcall' (huncalled notifier')
    · subst hnotifier'
      rw [Books.setCalling_self] at hcall'
      rw [Books.setCalling_of_ne _ hnotifier, ← hcall'] at hcall
      exact absurd hcall (huncalled notifier)
    · rw [Books.setCalling_of_ne _ hnotifier] at hcall
      rw [Books.setCalling_of_ne _ hnotifier'] at hcall'
      exact hbal.single notifier notifier' call hcall hcall'
  case woken =>
    intro other life
    by_cases hsame : (other, life) = (waiter, (books.account waiter).life)
    · refine Or.inr ⟨task, ?_⟩
      rw [hsame]
      exact Books.setCalling_self _ _ _
    · rw [Books.setCalling_account, Account.take, Books.purse_of_ne books hsame]
      refine (hbal.woken other life).imp_right (Exists.imp fun notifier hcalling => ?_)
      have hnotifier : notifier ≠ task := by
        rintro rfl
        rw [hfree] at hcalling
        cases hcalling
      exact (Books.setCalling_of_ne _ hnotifier _).trans hcalling

omit [DecidableEq φ] [DecidableEq α] [DecidableEq ω] in
/-- `Waker::wake` on the waker that was taken. -/
theorem called_wake (hbal : world.Balanced books) {task waiter : τ} {waker : ω} {life : ℕ}
    (hwaking : world.busy task = .waking waiter waker)
    (hcalling : books.calling task = some (waiter, life))
    (hphase : world'.phase = world.phase) (hwaker : world'.waker = world.waker)
    (hbusy : world'.busy = Function.update world.busy task .none) :
    world'.Balanced
      ((books.change waiter ((books.account waiter).wake life waker)).setCalling task none) := by
  obtain ⟨old, hold, htaken, hunwoken⟩ := hbal.calls task waiter life hcalling
  rw [hwaking] at hold
  cases hold
  have hlife : life ≤ (books.account waiter).life := by
    by_contra hlater
    rw [(hbal.kept waiter).settled.later life (by omega)] at htaken
    exact Multiset.singleton_ne_zero waker htaken.symm
  have hothers (notifier : τ) (call : τ × ℕ)
      (hcall : ((books.change waiter ((books.account waiter).wake life waker)).setCalling task
        none).calling notifier = some call) :
      notifier ≠ task ∧ books.calling notifier = some call := by
    by_cases hnotifier : notifier = task
    · rw [hnotifier, Books.setCalling_self] at hcall
      cases hcall
    · rw [Books.setCalling_of_ne _ hnotifier] at hcall
      exact ⟨hnotifier, hcall⟩
  constructor
  case kept =>
    intro other
    rw [hphase, hwaker]
    by_cases hother : other = waiter
    · subst hother
      rw [Books.setCalling_account, Books.change_self]
      exact (hbal.kept other).wake hlife waker
    · rw [Books.setCalling_account, Books.change_of_ne _ hother]
      exact hbal.kept other
  case calls =>
    intro notifier other life' hcall
    obtain ⟨hnotifier, hcall⟩ := hothers notifier _ hcall
    obtain ⟨old, hold, hpurse⟩ := hbal.calls notifier other life' hcall
    refine ⟨old, by rw [hbusy, Function.update_of_ne hnotifier, hold], ?_⟩
    have hne : (other, life') ≠ (waiter, life) := by
      intro heq
      rw [heq] at hcall
      exact hnotifier (hbal.single notifier task _ hcall hcalling)
    rw [Books.setCalling_account, Account.wake, Books.purse_of_ne books hne]
    exact hpurse
  case called =>
    intro notifier other old hold
    have hnotifier : notifier ≠ task := by
      rintro rfl
      rw [hbusy, Function.update_self] at hold
      cases hold
    rw [hbusy, Function.update_of_ne hnotifier] at hold
    obtain ⟨life', hcall⟩ := hbal.called notifier other old hold
    exact ⟨life', (Books.setCalling_of_ne _ hnotifier _).trans hcall⟩
  case single =>
    intro notifier notifier' call hcall hcall'
    exact hbal.single notifier notifier' call (hothers notifier call hcall).2
      (hothers notifier' call hcall').2
  case woken =>
    intro other life'
    by_cases hsame : (other, life') = (waiter, life)
    · left
      cases hsame
      rw [Books.setCalling_account, Books.change_self, Account.wake, Account.change_self,
        hunwoken, add_zero, htaken]
    · rw [Books.setCalling_account, Account.wake, Books.purse_of_ne books hsame]
      refine (hbal.woken other life').imp_right (Exists.imp fun notifier hcall => ?_)
      have hnotifier : notifier ≠ task := by
        rintro rfl
        rw [hcalling] at hcall
        exact hsame (Option.some.inj hcall).symm
      exact (Books.setCalling_of_ne _ hnotifier _).trans hcall

omit [DecidableEq φ] [DecidableEq α] [DecidableEq ω] in
/-- A task is busy with anything but waking. -/
theorem busy (hbal : world.Balanced books) {task : τ} {busy busy' : Busy τ φ α ω}
    (hbusy : world.busy task = busy) (hbusy' : world'.busy = Function.update world.busy task busy')
    (hphase : world'.phase = world.phase) (hwaker : world'.waker = world.waker)
    (hnot : ∀ waiter waker, busy ≠ .waking waiter waker)
    (hnot' : ∀ waiter waker, busy' ≠ .waking waiter waker) : world'.Balanced books := by
  refine hbal.same hphase hwaker fun notifier waiter waker => ?_
  by_cases hnotifier : notifier = task
  · subst hnotifier
    rw [hbusy', Function.update_self, hbusy]
    exact ⟨fun h => absurd h (hnot' _ _), fun h => absurd h (hnot _ _)⟩
  · rw [hbusy', Function.update_of_ne hnotifier]

omit [DecidableEq φ] [DecidableEq α] [DecidableEq ω] in
theorem wake (hbal : world.Balanced books) {task : τ} {outcome : Outcome S τ φ α ω}
    (hidle : world.busy task = .none)
    (hasleep : ∀ waiter, world.handle task = some waiter → (world.phase waiter).Live)
    (hstep : world.wake task = some outcome) :
    outcome.world.Balanced (books.keep world task none outcome.events) := by
  unfold World.wake at hstep
  split at hstep
  case h_1 =>
    cases hstep
    exact hbal
  case h_2 waiter hhandle =>
    split at hstep <;> cases hstep
    case h_2.refl => exact hbal
    case h_1.refl waker hwaker =>
      simp only [Books.keep, Books.ask, List.foldl_cons, List.foldl_nil, Books.post, hwaker]
      exact hbal.take hidle (hasleep waiter hhandle) hwaker rfl rfl rfl

omit [DecidableEq φ] [DecidableEq α] [DecidableEq ω] in
theorem requeue (hbal : world.Balanced books) {task : τ} {futex : φ}
    {outcome : Outcome S τ φ α ω} (hidle : world.busy task = .none)
    (hstep : world.requeue task futex = some outcome) :
    outcome.world.Balanced (books.keep world task none outcome.events) := by
  unfold World.requeue at hstep
  split at hstep
  · cases hstep
    exact hbal
  · split at hstep <;> cases hstep
    · exact hbal
    · exact hbal.busy hidle rfl rfl rfl (by simp) (by simp)

omit [DecidableEq φ] in
theorem busyStep (hbal : world.Balanced books) {task : τ} {spurious : Bool}
    {outcome : Outcome S τ φ α ω} (hstep : world.busyStep task spurious = some outcome) :
    outcome.world.Balanced (books.keep world task none outcome.events) := by
  unfold World.busyStep at hstep
  split at hstep
  case h_1 => cases hstep
  case h_2 waiter waker hbusy =>
    obtain ⟨life, hcalling⟩ := hbal.called task waiter waker hbusy
    cases hstep
    simp only [Books.keep, Books.ask, List.foldl_cons, List.foldl_nil, Books.post, hcalling]
    apply hbal.called_wake hbusy hcalling <;> split <;> rfl
  case h_3 futex waiter hbusy =>
    cases hstep
    exact hbal.busy hbusy rfl rfl rfl (by simp) (by simp)
  case h_4 futex hbusy =>
    cases hstep
    exact hbal.busy hbusy rfl rfl rfl (by simp) (by simp)
  case h_5 futex current hbusy =>
    simp only at hstep
    split at hstep <;> cases hstep
    · exact hbal.busy hbusy rfl rfl rfl (by simp) (by simp)
    · exact hbal.busy hbusy rfl rfl rfl (by simp) (by simp)

theorem call (hbal : world.Balanced books) {task : τ} {op : Op τ φ κ α} {spurious : Bool}
    {waker : ω} {outcome : Outcome S τ φ α ω} (hrunning : world.Running task)
    (hretry : ∀ futex current new, op = .cmpxchgWaitWeak futex current new →
      ∀ old, world.phase task = .enter → world.waker task = .waiting old → waker = old)
    (hasleep : ∀ waiter, world.handle task = some waiter → (world.phase waiter).Live)
    (hstep : world.call task op spurious waker = some outcome) :
    outcome.world.Balanced (books.keep world task
      (Act.call op spurious waker : Act τ φ κ α ω).asks outcome.events) := by
  obtain ⟨hidle, hphase⟩ := hrunning
  cases op with
  | waiter futex queue => exact hbal.newWaiter hstep
  | cmpxchgWaitWeak futex current new =>
      exact hbal.pollEnter hphase (hretry futex current new rfl) hstep
  | pending =>
      simp only [World.call] at hstep
      split at hstep <;> cases hstep
      case isTrue.refl hentered => exact hbal.pending hentered
      case isFalse.refl => exact hbal
  | wake => exact hbal.wake hidle hasleep hstep
  | requeue futex => exact hbal.requeue hidle hstep
  | _ =>
      rcases untouched_call hstep with hsame | ⟨_, _, heq⟩ | ⟨_, _, _, heq⟩ | heq | heq |
        ⟨_, heq⟩
      · exact hbal.untouched hsame task
      all_goals cases heq

theorem step (hbal : world.Balanced books) {task : τ} {act : Act τ φ κ α ω}
    {outcome : Outcome S τ φ α ω}
    (hretry : ∀ futex current new spurious waker,
      act = .call (.cmpxchgWaitWeak futex current new) spurious waker →
        ∀ old, world.phase task = .enter → world.waker task = .waiting old → waker = old)
    (hasleep : ∀ waiter, world.handle task = some waiter → (world.phase waiter).Live)
    (hstep : world.step task act = some outcome) :
    outcome.world.Balanced (books.keep world task act.asks outcome.events) := by
  cases act with
  | call op spurious waker =>
      simp only [World.step] at hstep
      split at hstep
      case isFalse => cases hstep
      case isTrue hrunning =>
        refine hbal.call hrunning (fun futex current new hop => ?_) hasleep hstep
        exact hretry futex current new spurious waker (by rw [hop])
  | poll waker => exact hbal.poll hstep
  | drop => exact hbal.drop hstep
  | step spurious =>
      simp only [World.step] at hstep
      split at hstep
      · exact hbal.busyStep hstep
      · split at hstep
        case h_1 newWaker seen hphase => exact hbal.pollWaiting hphase hstep
        case h_2 => exact hbal.dropStep hstep

omit [DecidableEq φ] in
theorem no_panic_busyStep {task : τ} {spurious : Bool} {outcome : Outcome S τ φ α ω}
    (hstep : world.busyStep task spurious = some outcome) : outcome.resp ≠ some .panic := by
  unfold World.busyStep at hstep
  split at hstep
  case h_1 => cases hstep
  case h_2 => cases hstep; simp
  case h_3 => cases hstep; simp
  case h_4 => cases hstep; simp
  case h_5 =>
    simp only at hstep
    split at hstep <;> cases hstep <;> simp

omit [DecidableEq φ] [DecidableEq α] in
theorem no_panic_pollWaiting (hbal : world.Balanced books) {task : τ} {newWaker : ω}
    {seen : WaiterWaker ω} {spurious : Bool} {outcome : Outcome S τ φ α ω}
    (hphase : world.phase task = .polling newWaker seen)
    (hstep : world.pollWaiting task newWaker seen spurious = some outcome) :
    outcome.resp ≠ some .panic := by
  unfold World.pollWaiting at hstep
  cases seen with
  | none => exact absurd rfl ((hbal.kept task).polls newWaker .none hphase).1
  | done => cases hstep; simp
  | waiting old =>
      simp only at hstep
      split at hstep <;> cases hstep <;> simp

omit [DecidableEq ω] in
theorem no_panic_dropStep (hbal : world.Balanced books) {task : τ} {spurious : Bool}
    {outcome : Outcome S τ φ α ω} (hstep : world.dropStep task spurious = some outcome) :
    outcome.resp ≠ some .panic := by
  unfold World.dropStep at hstep
  split at hstep
  case h_1 => split at hstep <;> cases hstep; simp
  case h_2 => cases hstep; simp
  case h_3 => cases hstep; simp
  case h_4 => cases hstep; simp
  case h_5 =>
    split at hstep
    · rw [Option.map_eq_some_iff] at hstep
      obtain ⟨store, -, heq⟩ := hstep
      cases heq
      simp
    · cases hstep
      simp
  case h_6 => cases hstep; simp
  case h_7 => cases hstep; simp
  case h_8 hphase =>
    have hregistered := (hbal.kept task).registered (by rw [hphase]; trivial)
    split at hstep
    case h_1 hwaker => exact absurd hwaker hregistered
    case h_2 => cases hstep; simp
    case h_3 => cases hstep; simp
  case h_9 => cases hstep

theorem no_panic_step (hbal : world.Balanced books) {task : τ} {spurious : Bool}
    {outcome : Outcome S τ φ α ω}
    (hstep : world.step task (.step spurious : Act τ φ κ α ω) = some outcome) :
    outcome.resp ≠ some .panic := by
  simp only [World.step] at hstep
  split at hstep
  · exact no_panic_busyStep hstep
  · split at hstep
    case h_1 newWaker seen hphase => exact hbal.no_panic_pollWaiting hphase hstep
    case h_2 => exact hbal.no_panic_dropStep hstep

end Balanced

end World

end AsyncMutex
