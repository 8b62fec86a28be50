import AsyncMutex.World
import AsyncMutex.WorldSteps
import Mathlib.Algebra.Order.Group.Multiset

/-!
# The ledger of the wakers

`CopyWaker` is a copy of a waker without a destructor: whoever holds it last
has to turn it back into a `Waker`, once.  The ledger counts for every waiter
the wakers that its polls cloned, and where `into_waker` was called on them.
-/

namespace AsyncMutex

/-- What became of the wakers of one waiter. -/
structure Purse (ω : Type) where
  /-- `CopyWaker::from_waker` in a poll. -/
  cloned : Multiset ω := 0
  /-- `into_waker` in `Waiter::wake`. -/
  taken : Multiset ω := 0
  /-- `Waker::wake` on a waker that was taken. -/
  woken : Multiset ω := 0
  /-- `into_waker` in a poll or in a drop, and the `Waker` is dropped. -/
  dropped : Multiset ω := 0

/-- Every waker was consumed, and only once. -/
def Purse.Consumed {ω : Type} (purse : Purse ω) : Prop :=
  purse.cloned = purse.taken + purse.dropped

/-- The ledger of one task. -/
structure Account (ω : Type) where
  /-- The number of the task's waiter among all its waiters. -/
  life : ℕ
  purse : ℕ → Purse ω
  /-- The waker of the latest poll. -/
  asked : Option ω
  /-- The waker of the latest poll that returned `Pending`, or will do so. -/
  pending : Option ω

namespace Account

variable {ω : Type}

def empty : Account ω :=
  ⟨0, fun _ => {}, none, none⟩

/-- The purse of the waiter that the task has now. -/
def current (account : Account ω) : Purse ω :=
  account.purse account.life

def change (account : Account ω) (life : ℕ) (purse : Purse ω) : Account ω :=
  { account with purse := Function.update account.purse life purse }

def create (account : Account ω) : Account ω :=
  { account with life := account.life + 1 }

def ask (waker : ω) (account : Account ω) : Account ω :=
  { account with asked := some waker }

/-- The poll that asked last returns `Pending`. -/
def register (account : Account ω) : Account ω :=
  { account with pending := account.asked }

def clone (waker : ω) (account : Account ω) : Account ω :=
  account.change account.life
    { account.current with cloned := {waker} + account.current.cloned }

def drop (waker : ω) (account : Account ω) : Account ω :=
  account.change account.life
    { account.current with dropped := {waker} + account.current.dropped }

def take (waker : ω) (account : Account ω) : Account ω :=
  account.change account.life
    { account.current with taken := {waker} + account.current.taken }

def wake (life : ℕ) (waker : ω) (account : Account ω) : Account ω :=
  account.change life
    { account.purse life with woken := {waker} + (account.purse life).woken }

@[simp] theorem change_life (account : Account ω) (life : ℕ) (purse : Purse ω) :
    (account.change life purse).life = account.life := rfl

@[simp] theorem change_asked (account : Account ω) (life : ℕ) (purse : Purse ω) :
    (account.change life purse).asked = account.asked := rfl

@[simp] theorem change_pending (account : Account ω) (life : ℕ) (purse : Purse ω) :
    (account.change life purse).pending = account.pending := rfl

@[simp] theorem change_self (account : Account ω) (life : ℕ) (purse : Purse ω) :
    (account.change life purse).purse life = purse :=
  Function.update_self _ _ _

theorem change_of_ne (account : Account ω) {life other : ℕ} (hne : other ≠ life)
    (purse : Purse ω) : (account.change life purse).purse other = account.purse other :=
  Function.update_of_ne hne _ _

@[simp] theorem change_current (account : Account ω) (purse : Purse ω) :
    (account.change account.life purse).current = purse :=
  change_self _ _ _

@[simp] theorem ask_taken (account : Account ω) (waker : ω) :
    (account.ask waker).current.taken = account.current.taken := rfl

@[simp] theorem register_taken (account : Account ω) :
    account.register.current.taken = account.current.taken := rfl

@[simp] theorem clone_taken (account : Account ω) (waker : ω) :
    (account.clone waker).current.taken = account.current.taken := by
  rw [clone, change_current]

@[simp] theorem drop_taken (account : Account ω) (waker : ω) :
    (account.drop waker).current.taken = account.current.taken := by
  rw [drop, change_current]

/-- From one account to the other no waker was taken or woken. -/
structure Quiet (account account' : Account ω) : Prop where
  taken : ∀ life, (account'.purse life).taken = (account.purse life).taken
  woken : ∀ life, (account'.purse life).woken = (account.purse life).woken

namespace Quiet

variable {account account' : Account ω}

theorem refl (account : Account ω) : account.Quiet account :=
  ⟨fun _ => rfl, fun _ => rfl⟩

theorem create (hquiet : account.Quiet account') : account.Quiet account'.create :=
  ⟨hquiet.taken, hquiet.woken⟩

theorem ask (hquiet : account.Quiet account') (waker : ω) :
    account.Quiet (account'.ask waker) :=
  ⟨hquiet.taken, hquiet.woken⟩

theorem register (hquiet : account.Quiet account') : account.Quiet account'.register :=
  ⟨hquiet.taken, hquiet.woken⟩

theorem change (hquiet : account.Quiet account') {life : ℕ} {purse : Purse ω}
    (htaken : purse.taken = (account'.purse life).taken)
    (hwoken : purse.woken = (account'.purse life).woken) :
    account.Quiet (account'.change life purse) := by
  constructor
  · intro other
    by_cases hother : other = life
    · rw [hother, change_self, htaken, hquiet.taken]
    · rw [change_of_ne _ hother, hquiet.taken]
  · intro other
    by_cases hother : other = life
    · rw [hother, change_self, hwoken, hquiet.woken]
    · rw [change_of_ne _ hother, hquiet.woken]

theorem clone (hquiet : account.Quiet account') (waker : ω) :
    account.Quiet (account'.clone waker) :=
  hquiet.change rfl rfl

theorem drop (hquiet : account.Quiet account') (waker : ω) :
    account.Quiet (account'.drop waker) :=
  hquiet.change rfl rfl

end Quiet

/-- All wakers of the old waiters are consumed, and of those of the present
waiter all but `held`. -/
structure Settled (account : Account ω) (held : Multiset ω) : Prop where
  later : ∀ life, account.life < life → account.purse life = {}
  past : ∀ life, life < account.life → (account.purse life).Consumed
  present : account.current.cloned =
    account.current.taken + account.current.dropped + held
  once : ∀ life, (account.purse life).taken.card ≤ 1

namespace Settled

variable {account : Account ω} {held : Multiset ω}

theorem empty : Account.empty.Settled (0 : Multiset ω) := by
  constructor <;> simp [Account.empty, Account.current]

theorem consumed (hsettled : account.Settled 0) : account.current.Consumed := by
  have hpresent := hsettled.present
  rwa [add_zero] at hpresent

theorem ask (hsettled : account.Settled held) (waker : ω) :
    (account.ask waker).Settled held :=
  ⟨hsettled.later, hsettled.past, hsettled.present, hsettled.once⟩

theorem register (hsettled : account.Settled held) : account.register.Settled held :=
  ⟨hsettled.later, hsettled.past, hsettled.present, hsettled.once⟩

/-- A new waiter, after the old one was dropped. -/
theorem create (hsettled : account.Settled 0) : account.create.Settled 0 where
  later life hlife := hsettled.later life (Nat.lt_of_succ_lt hlife)
  past life hlife := by
    rcases Nat.lt_succ_iff_lt_or_eq.mp hlife with hlt | heq
    · exact hsettled.past life hlt
    · rw [heq]
      exact hsettled.consumed
  present := by
    have hnew := hsettled.later (account.life + 1) (Nat.lt_succ_self _)
    simp [Account.current, Account.create, hnew]
  once := hsettled.once

/-- The purse of the present waiter changes. -/
theorem change (hsettled : account.Settled held) {purse : Purse ω} {held' : Multiset ω}
    (hpresent : purse.cloned = purse.taken + purse.dropped + held')
    (honce : purse.taken.card ≤ 1) : (account.change account.life purse).Settled held' where
  later life hlife := by
    rw [change_life] at hlife
    rw [change_of_ne _ (Nat.ne_of_gt hlife)]
    exact hsettled.later life hlife
  past life hlife := by
    rw [change_life] at hlife
    rw [change_of_ne _ (Nat.ne_of_lt hlife)]
    exact hsettled.past life hlife
  present := by
    rw [change_current]
    exact hpresent
  once life := by
    by_cases hlife : life = account.life
    · rw [hlife, change_self]
      exact honce
    · rw [change_of_ne _ hlife]
      exact hsettled.once life

theorem clone (hsettled : account.Settled held) (waker : ω) :
    (account.clone waker).Settled ({waker} + held) := by
  apply hsettled.change
  · rw [hsettled.present]
    exact add_left_comm _ _ _
  · exact hsettled.once _

theorem drop {waker : ω} (hsettled : account.Settled ({waker} + held)) :
    (account.drop waker).Settled held := by
  apply hsettled.change
  · rw [hsettled.present]
    simp only [add_assoc, add_left_comm]
  · exact hsettled.once _

theorem take {waker : ω} (hsettled : account.Settled ({waker} + held))
    (huntaken : account.current.taken = 0) : (account.take waker).Settled held := by
  apply hsettled.change
  · rw [hsettled.present]
    simp only [add_assoc, add_left_comm]
  · simp [huntaken]

/-- A waker that was taken is woken. -/
theorem wake (hsettled : account.Settled held) {life : ℕ} (hlife : life ≤ account.life)
    (waker : ω) : (account.wake life waker).Settled held := by
  have hsame (other : ℕ) : ∃ woken, (account.wake life waker).purse other =
      { account.purse other with woken := woken } := by
    by_cases hother : other = life
    · subst hother
      exact ⟨_, change_self _ _ _⟩
    · exact ⟨_, change_of_ne _ hother _⟩
  constructor
  case later =>
    intro other hother
    have hlt : account.life < other := hother
    have hne : other ≠ life := by omega
    exact (change_of_ne _ hne _).trans (hsettled.later other hlt)
  case past =>
    intro other hother
    obtain ⟨woken, heq⟩ := hsame other
    rw [heq]
    exact hsettled.past other hother
  case present =>
    obtain ⟨woken, heq⟩ := hsame account.life
    have hcurrent : (account.wake life waker).current =
        { account.current with woken := woken } := heq
    rw [hcurrent]
    exact hsettled.present
  case once =>
    intro other
    obtain ⟨woken, heq⟩ := hsame other
    rw [heq]
    exact hsettled.once other

end Settled

end Account

/-! ## The wakers that a future holds -/

/-- The waker in the waiter. -/
def WaiterWaker.held {ω : Type} : WaiterWaker ω → Multiset ω
  | .waiting waker => {waker}
  | _ => 0

/-- The waker that a running poll has in its hand. -/
def Phase.held {τ φ α ω : Type} : Phase τ φ α ω → Multiset ω
  | .polling newWaker _ => {newWaker}
  | _ => 0

/-- The account of a task whose future stands at `phase`. -/
structure Kept {τ φ α ω : Type} (account : Account ω) (phase : Phase τ φ α ω)
    (waker : WaiterWaker ω) : Prop where
  settled : account.Settled (waker.held + phase.held)
  untaken : phase ≠ .idle → waker ≠ .done → account.current.taken = 0
  rests : phase = .idle → waker.held = 0
  fresh : phase = .enter → waker ≠ .done
  registered : phase.Live → waker ≠ .none
  polls : ∀ newWaker seen, phase = .polling newWaker seen →
    seen ≠ .none ∧ (seen = .done → waker = .done) ∧ account.asked = some newWaker
  enters : ∀ old, phase = .enter → waker = .waiting old → account.asked = some old
  waits : ∀ old, phase.Live → waker = .waiting old → account.pending = some old

namespace Kept

variable {τ φ α ω : Type} {account : Account ω} {phase phase' : Phase τ φ α ω}
  {waker : WaiterWaker ω}

theorem empty : Kept Account.empty (.idle : Phase τ φ α ω) (.none : WaiterWaker ω) where
  settled := .empty
  untaken hidle := absurd rfl hidle
  rests _ := rfl
  fresh _ := by simp
  registered hlive := hlive.elim
  polls _ _ hpolling := by cases hpolling
  enters _ henter := by cases henter
  waits _ hlive := hlive.elim

/-- Nobody waits on the waiter and it holds no waker. -/
theorem idle (hsettled : account.Settled 0) (hheld : waker.held = 0) :
    Kept account (.idle : Phase τ φ α ω) waker where
  settled := by
    rw [hheld]
    exact hsettled
  untaken hidle := absurd rfl hidle
  rests _ := hheld
  fresh henter := by cases henter
  registered hlive := hlive.elim
  polls _ _ hpolling := by cases hpolling
  enters _ henter := by cases henter
  waits _ hlive := hlive.elim

theorem create (hsettled : account.Settled 0) :
    Kept account.create (.enter : Phase τ φ α ω) .none where
  settled := hsettled.create
  untaken _ _ := by
    have hnew := hsettled.later (account.life + 1) (Nat.lt_succ_self _)
    simp [Account.current, Account.create, hnew]
  rests hidle := by cases hidle
  fresh _ := by simp
  registered hlive := hlive.elim
  polls _ _ hpolling := by cases hpolling
  enters _ _ hwaiting := by cases hwaiting
  waits _ hlive := hlive.elim

/-- A first poll stores its waker. -/
theorem store {waker : ω} (hkept : Kept account phase .none) (hphase : phase = .enter)
    (hasked : account.asked = some waker) :
    Kept (account.clone waker) phase (.waiting waker) := by
  subst hphase
  constructor
  case settled => exact hkept.settled.clone waker
  case untaken =>
    intro henter _
    rw [Account.clone_taken]
    exact hkept.untaken henter (by simp)
  case rests => simp
  case fresh => simp
  case registered => simp
  case polls => simp
  case enters =>
    intro old _ hwaiting
    cases hwaiting
    exact hasked
  case waits => exact fun old hlive => hlive.elim

/-- A first poll, or another attempt of the same poll. -/
theorem ask (hkept : Kept account phase waker) {newWaker : ω}
    (hphase : ∀ other seen, phase ≠ .polling other seen)
    (hretry : ∀ old, phase = .enter → waker = .waiting old → newWaker = old) :
    Kept (account.ask newWaker) phase waker where
  settled := hkept.settled.ask newWaker
  untaken := hkept.untaken
  rests := hkept.rests
  fresh := hkept.fresh
  registered := hkept.registered
  polls other seen hpolling := absurd hpolling (hphase other seen)
  enters old henter hwaiting := congrArg some (hretry old henter hwaiting)
  waits := hkept.waits

/-- The compare-exchange of the first poll succeeds. -/
theorem enter {old : ω} (hkept : Kept account phase (.waiting old))
    (hphase : phase = .enter) :
    Kept account.register (.entered : Phase τ φ α ω) (.waiting old) := by
  have hasked := hkept.enters old hphase rfl
  subst hphase
  constructor
  case settled => exact hkept.settled.register
  case untaken => exact fun _ => hkept.untaken (by simp)
  case rests => simp
  case fresh => simp
  case registered => simp
  case polls => simp
  case enters => simp
  case waits =>
    intro old' _ hwaiting
    cases hwaiting
    exact hasked

/-- The future goes on and holds no other waker than before. -/
theorem goOn (hkept : Kept account phase waker) (hlive : phase.Live) (hlive' : phase'.Live)
    (hheld : phase.held = 0) (hheld' : phase'.held = 0) : Kept account phase' waker where
  settled := by
    rw [hheld', ← hheld]
    exact hkept.settled
  untaken _ := hkept.untaken fun hidle => by simp [hidle, Phase.Live] at hlive
  rests hidle := by simp [hidle, Phase.Live] at hlive'
  fresh henter := by simp [henter, Phase.Live] at hlive'
  registered _ := hkept.registered hlive
  polls newWaker seen hpolling := by simp [hpolling, Phase.held] at hheld'
  enters old henter := by simp [henter, Phase.Live] at hlive'
  waits old _ := hkept.waits old hlive

/-- Another poll clones its waker and loads the word. -/
theorem poll (hkept : Kept account phase waker) (hphase : phase = .pending) (newWaker : ω) :
    Kept ((account.ask newWaker).clone newWaker)
      (.polling newWaker waker : Phase τ φ α ω) waker := by
  subst hphase
  constructor
  case settled =>
    have hsettled := (hkept.settled.ask newWaker).clone newWaker
    rwa [add_left_comm] at hsettled
  case untaken =>
    intro _ hdone
    rw [Account.clone_taken, Account.ask_taken]
    exact hkept.untaken (by simp) hdone
  case rests => simp
  case fresh => simp
  case registered => exact fun _ => hkept.registered trivial
  case polls =>
    intro newWaker' seen hpolling
    cases hpolling
    exact ⟨hkept.registered trivial, id, rfl⟩
  case enters => simp
  case waits => exact fun old _ => hkept.waits old trivial

section Polling

variable {newWaker : ω} {seen : WaiterWaker ω}

/-- The poll exchanges the waker and returns `Pending`. -/
theorem exchange {old : ω} (hkept : Kept account phase (.waiting old))
    (hphase : phase = .polling newWaker seen) :
    Kept (account.drop old).register (.pending : Phase τ φ α ω) (.waiting newWaker) := by
  obtain ⟨-, -, hasked⟩ := hkept.polls newWaker seen hphase
  subst hphase
  constructor
  case settled => exact hkept.settled.drop.register
  case untaken =>
    intro _ _
    rw [Account.register_taken, Account.drop_taken]
    exact hkept.untaken (by simp) (by simp)
  case rests => simp
  case fresh => simp
  case registered => simp
  case polls => simp
  case enters => simp
  case waits =>
    intro old' _ hwaiting
    cases hwaiting
    exact hasked

/-- The compare-exchange failed and saw the word. -/
theorem reload (hkept : Kept account phase waker)
    (hphase : phase = .polling newWaker seen) :
    Kept account (.polling newWaker waker : Phase τ φ α ω) waker := by
  obtain ⟨-, -, hasked⟩ := hkept.polls newWaker seen hphase
  subst hphase
  constructor
  case settled => exact hkept.settled
  case untaken => exact fun _ => hkept.untaken (by simp)
  case rests => simp
  case fresh => simp
  case registered => exact fun _ => hkept.registered trivial
  case polls =>
    intro newWaker' seen' hpolling
    cases hpolling
    exact ⟨hkept.registered trivial, id, hasked⟩
  case enters => simp
  case waits => exact fun old _ => hkept.waits old trivial

/-- The poll found that its waiter was woken and returns `Ready(true)`. -/
theorem ready (hkept : Kept account phase waker) (hphase : phase = .polling newWaker .done) :
    Kept (account.drop newWaker) (.idle : Phase τ φ α ω) waker := by
  obtain ⟨-, hdone, -⟩ := hkept.polls newWaker .done hphase
  have hwaker := hdone rfl
  subst hphase hwaker
  constructor
  case settled =>
    have hsettled := hkept.settled
    rw [add_comm] at hsettled
    exact hsettled.drop
  case untaken => exact fun hidle => absurd rfl hidle
  case rests => exact fun _ => rfl
  case fresh => simp
  case registered => exact fun hlive => hlive.elim
  case polls => simp
  case enters => simp
  case waits => exact fun old hlive => hlive.elim

end Polling

/-- `Waiter::wake` swaps the waker out. -/
theorem take {old : ω} (hkept : Kept account phase (.waiting old)) (hlive : phase.Live) :
    Kept (account.take old) phase .done := by
  have hidle : phase ≠ .idle := by
    rintro rfl
    exact hlive
  constructor
  case settled =>
    have hheld : (WaiterWaker.done : WaiterWaker ω).held + phase.held = phase.held :=
      zero_add _
    rw [hheld]
    exact hkept.settled.take (hkept.untaken hidle (by simp))
  case untaken => simp
  case rests => exact fun hphase => absurd hphase hidle
  case fresh =>
    rintro rfl
    exact hlive.elim
  case registered => simp
  case polls =>
    intro newWaker seen hpolling
    obtain ⟨hnone, -, hasked⟩ := hkept.polls newWaker seen hpolling
    exact ⟨hnone, fun _ => rfl, hasked⟩
  case enters => simp
  case waits => simp

theorem wake (hkept : Kept account phase waker) {life : ℕ} (hlife : life ≤ account.life)
    (woken : ω) : Kept (account.wake life woken) phase waker := by
  have htaken : (account.wake life woken).current.taken = account.current.taken := by
    unfold Account.wake Account.current
    by_cases hsame : account.life = life
    · rw [← hsame]
      simp
    · rw [Account.change_life, Account.change_of_ne _ hsame]
  refine { hkept with settled := hkept.settled.wake hlife woken, untaken := ?_ }
  rw [htaken]
  exact hkept.untaken

end Kept

end AsyncMutex
