import AsyncMutex.MpscProgram
import AsyncMutex.Ring

/-!
# The slots of the channel

The slots in use hold a window of tickets: each is a message in its bucket, or
the reservation of a sender that has still to fill it.  While `recv` has taken
a value and not yet given its slot away, one more slot is in use.  Senders wait
only while every slot is.
-/

namespace AsyncMutex

namespace Mpsc

variable {τ V ω : Type}

/-- What a slot in use is for. -/
inductive Ticket (τ V : Type) where
  | writing (task : τ) (value : V)
  | stored (value : V)

def Ticket.value : Ticket τ V → V
  | .writing _ value => value
  | .stored value => value

/-- The tickets, and how many values were received before them. -/
structure Ledger (τ V : Type) where
  base : ℕ
  line : List (Ticket τ V)

/-- The slot that `recv` has in hand. -/
inductive Transit where
  | none
  /-- Its value was taken. -/
  | taken
  /-- It was given to a waiter and is not filled yet. -/
  | filling
deriving DecidableEq

def Transit.extra : Transit → ℕ
  | .none => 0
  | _ => 1

/-- The slot in hand is behind `write_head`. -/
def Transit.gap : Transit → ℕ
  | .filling => 1
  | _ => 0

def Receive.transit (queued : Bool) : Receive τ → Transit
  | .popAgain => if queued then .filling else .none
  | .backfill _ => .filling
  | .wake => .none
  | .release => .none
  | .unlock => .none
  | _ => .taken

namespace Point

def receives : Point τ V ω → Bool
  | .check _ => true
  | .register _ => true
  | .recheck => true
  | .unregister => true
  | .take => true
  | .blocked => true
  | .receive _ _ _ => true
  | _ => false

def transit (queued : Bool) : Point τ V ω → Transit
  | .receive point _ _ => point.transit queued
  | _ => .none

/-- The slot that the sender has reserved, and whether its value is there. -/
def writes : Point τ V ω → Option (ℕ × Bool)
  | .write selected => some (selected, false)
  | .fill selected => some (selected, true)
  | _ => none

/-- The sender waits for a slot. -/
def pends : Point τ V ω → Bool
  | .entered => true
  | .waiting => true
  | _ => false

end Point

/-- A ticket agrees with its slot. -/
def Ticket.Fits (inner : Inner τ V ω) (pc : τ → Point τ V ω) (index : ℕ) :
    Ticket τ V → Prop
  | .writing task value =>
      (inner.buckets index).filled = false ∧
        (((pc task).writes = some (index, false) ∧ inner.message task = some value) ∨
          ((pc task).writes = some (index, true) ∧ (inner.buckets index).data = some value))
  | .stored value =>
      (inner.buckets index).filled = true ∧ (inner.buckets index).data = some value

/-- A ticket does not see other slots and other senders. -/
theorem Ticket.Fits.congr {inner inner' : Inner τ V ω} {pc pc' : τ → Point τ V ω}
    {index : ℕ} {ticket : Ticket τ V} (hfits : ticket.Fits inner pc index)
    (hbucket : inner'.buckets index = inner.buckets index)
    (hwriter : ∀ task written, (pc task).writes = some (index, written) →
      (pc' task).writes = (pc task).writes ∧ inner'.message task = inner.message task) :
    ticket.Fits inner' pc' index := by
  cases ticket with
  | writing task value =>
      obtain ⟨hfilled, hcases⟩ := hfits
      refine ⟨by rw [hbucket, hfilled], ?_⟩
      rcases hcases with ⟨hpoint, hvalue⟩ | ⟨hpoint, hvalue⟩
      · obtain ⟨hwrites, hmessage⟩ := hwriter task false hpoint
        exact Or.inl ⟨by rw [hwrites, hpoint], by rw [hmessage, hvalue]⟩
      · obtain ⟨hwrites, -⟩ := hwriter task true hpoint
        exact Or.inr ⟨by rw [hwrites, hpoint], by rw [hbucket, hvalue]⟩
  | stored value =>
      rw [Ticket.Fits, hbucket]
      exact hfits

structure Layout (cap : ℕ) (atom : SendState) (inner : Inner τ V ω) (pc : τ → Point τ V ω)
    (transit : Transit) (ledger : Ledger τ V) : Prop where
  writeHead : atom.writeHead = Ring.slot cap ledger.base (ledger.line.length + transit.gap)
  size : atom.size = ledger.line.length + transit.extra
  room : ledger.line.length + transit.extra ≤ cap
  filling : transit = .filling → atom.size = cap
  recvHead : inner.recvHead = Ring.slot cap ledger.base 0
  window : Ring.Holds (Ticket.Fits inner pc)
    (fun index => (inner.buckets index).filled = false) cap ledger.base ledger.line
  writers : ∀ task selected written, (pc task).writes = some (selected, written) →
    ∃ offset value, ledger.line[offset]? = some (.writing task value) ∧
      selected = Ring.slot cap ledger.base offset

namespace Layout

variable {cap : ℕ} {atom atom' : SendState} {inner inner' : Inner τ V ω}
  {pc : τ → Point τ V ω} {transit : Transit} {ledger : Ledger τ V} {task : τ}
  {point : Point τ V ω}

theorem size_le (hlayout : Layout cap atom inner pc transit ledger) : atom.size ≤ cap :=
  hlayout.size ▸ hlayout.room

variable [DecidableEq τ]

/-- A task that has no reservation goes on. -/
theorem goOn (hlayout : Layout cap atom inner pc transit ledger)
    (hbuckets : inner'.buckets = inner.buckets) (hhead : inner'.recvHead = inner.recvHead)
    (hmessage : ∀ other selected written, (pc other).writes = some (selected, written) →
      inner'.message other = inner.message other)
    (hbefore : (pc task).writes = none) (hafter : point.writes = none) :
    Layout cap atom inner' (Function.update pc task point) transit ledger := by
  have hwrites (other : τ) :
      (Function.update pc task point other).writes = (pc other).writes := by
    by_cases hother : other = task
    · rw [hother, Function.update_self, hafter, hbefore]
    · rw [Function.update_of_ne hother]
  constructor
  case writeHead => exact hlayout.writeHead
  case size => exact hlayout.size
  case room => exact hlayout.room
  case filling => exact hlayout.filling
  case recvHead => rw [hhead, hlayout.recvHead]
  case window =>
    refine hlayout.window.mono (fun index ticket hfits => ?_) fun index hfree => ?_
    · apply hfits.congr (by rw [hbuckets])
      intro other written hother
      exact ⟨hwrites other, hmessage other index written hother⟩
    · rw [hbuckets]
      exact hfree
  case writers =>
    intro other selected written hother
    rw [hwrites] at hother
    exact hlayout.writers other selected written hother

/-- A sender reserves the next slot. -/
theorem reserve (hlayout : Layout cap atom inner pc transit ledger) {value : V}
    (hroom : atom.size < cap) (hmessage : inner.message task = some value)
    (hbefore : (pc task).writes = none) :
    Layout cap (reserved cap atom) inner (Function.update pc task (.write atom.writeHead))
      transit { ledger with line := ledger.line ++ [.writing task value] } := by
  have hsize := hlayout.size
  have hgap : transit.gap = 0 := by
    cases transit with
    | filling => exact absurd (hlayout.filling rfl) (Nat.ne_of_lt hroom)
    | _ => rfl
  have hslot : atom.writeHead = Ring.slot cap ledger.base ledger.line.length := by
    rw [hlayout.writeHead, hgap, Nat.add_zero]
  have hwrites (other : τ) (hother : (pc other).writes ≠ none) : other ≠ task := by
    rintro rfl
    exact hother hbefore
  constructor
  case writeHead =>
    rw [reserved, hslot, Ring.slot_next, hgap, List.length_append, List.length_singleton,
      Nat.add_zero]
  case size =>
    change atom.size + 1 = _
    rw [List.length_append, List.length_singleton]
    omega
  case room =>
    rw [List.length_append, List.length_singleton]
    omega
  case filling =>
    rintro rfl
    exact absurd (hlayout.filling rfl) (Nat.ne_of_lt hroom)
  case recvHead => exact hlayout.recvHead
  case window =>
    have hfree : (inner.buckets atom.writeHead).filled = false := by
      rw [hslot]
      exact hlayout.window.free _ (Nat.le_refl _) (by omega)
    refine hlayout.window.push (by omega) hslot ⟨hfree, Or.inl ⟨?_, hmessage⟩⟩ ?_
      fun _ _ => id
    · rw [Function.update_self]
      rfl
    · intro index ticket _ hfits
      apply hfits.congr rfl
      intro other written hother
      have hne : other ≠ task := hwrites other (by simp [hother])
      exact ⟨by rw [Function.update_of_ne hne], rfl⟩
  case writers =>
    intro other selected written hother
    by_cases heq : other = task
    · rw [heq, Function.update_self] at hother
      cases hother
      exact ⟨ledger.line.length, value, by rw [heq]; simp, hslot⟩
    · rw [Function.update_of_ne heq] at hother
      obtain ⟨offset, value', hentry, hselected⟩ :=
        hlayout.writers other selected written hother
      refine ⟨offset, value', ?_, hselected⟩
      have hlt := (List.getElem?_eq_some_iff.mp hentry).1
      change (ledger.line ++ [.writing task value])[offset]? = _
      rw [List.getElem?_append_left hlt]
      exact hentry

omit [DecidableEq τ] in
/-- The slot of a sender, and its ticket. -/
theorem ticket (hlayout : Layout cap atom inner pc transit ledger) {selected : ℕ}
    {written : Bool} (hwrites : (pc task).writes = some (selected, written)) :
    ∃ offset value, ledger.line[offset]? = some (.writing task value) ∧
      selected = Ring.slot cap ledger.base offset ∧
      (inner.buckets selected).filled = false ∧
      if written then (inner.buckets selected).data = some value
      else inner.message task = some value := by
  obtain ⟨offset, value, hentry, hselected⟩ := hlayout.writers task selected written hwrites
  obtain ⟨hfilled, hcases⟩ := hlayout.window.entry offset _ hentry
  rw [← hselected] at hfilled hcases
  refine ⟨offset, value, hentry, hselected, hfilled, ?_⟩
  rw [hwrites] at hcases
  cases written with
  | true => simpa using hcases
  | false => simpa using hcases

/-- A sender changes its own slot. -/
theorem fits_of_ne {selected : ℕ} {written : Bool}
    (hwrites : (pc task).writes = some (selected, written))
    (hbuckets : ∀ index, index ≠ selected → inner'.buckets index = inner.buckets index)
    (hmessage : ∀ other, other ≠ task → inner'.message other = inner.message other)
    {index : ℕ} (hindex : index ≠ selected) {ticket : Ticket τ V}
    (hfits : ticket.Fits inner pc index) :
    ticket.Fits inner' (Function.update pc task point) index := by
  apply hfits.congr (hbuckets index hindex)
  intro other written' hother
  have hne : other ≠ task := by
    rintro rfl
    rw [hwrites] at hother
    cases hother
    exact hindex rfl
  exact ⟨by rw [Function.update_of_ne hne], hmessage other hne⟩

/-- A sender writes its message. -/
theorem write (hlayout : Layout cap atom inner pc transit ledger) {selected : ℕ}
    (hpc : pc task = .write selected) :
    ∃ value, inner.message task = some value ∧
      Layout cap atom ((inner.setMessage task none).setData selected (some value))
        (Function.update pc task (.fill selected)) transit ledger := by
  have hwrites : (pc task).writes = some (selected, false) := by
    rw [hpc]
    rfl
  obtain ⟨offset, value, hentry, hselected, hfilled, hmessage⟩ := hlayout.ticket hwrites
  refine ⟨value, hmessage, hlayout.writeHead, hlayout.size, hlayout.room, hlayout.filling,
    hlayout.recvHead, ?_, ?_⟩
  · have hset : ledger.line.set offset (.writing task value) = ledger.line := by
      obtain ⟨hlt, heq⟩ := List.getElem?_eq_some_iff.mp hentry
      rw [← heq, List.set_getElem_self]
    rw [← hset]
    refine hlayout.window.set hentry hselected ⟨?_, Or.inr ⟨?_, ?_⟩⟩
      (fun index ticket hindex hfits => fits_of_ne hwrites ?_ ?_ hindex hfits)
      fun index hindex hfree => ?_
    · simpa [Inner.setData, Inner.setMessage] using hfilled
    · rw [Function.update_self]
      rfl
    · simp [Inner.setData]
    · intro other hother
      simp [Inner.setData, Inner.setMessage, hother]
    · intro other hother
      simp [Inner.setData, Inner.setMessage, hother]
    · simpa [Inner.setData, Inner.setMessage, hindex] using hfree
  · intro other selected' written hother
    by_cases heq : other = task
    · rw [heq, Function.update_self] at hother
      cases hother
      exact ⟨offset, value, by rw [heq, hentry], hselected⟩
    · rw [Function.update_of_ne heq] at hother
      exact hlayout.writers other selected' written hother

/-- A sender marks its slot as filled. -/
theorem fill (hlayout : Layout cap atom inner pc transit ledger) {selected : ℕ}
    (hpc : pc task = .fill selected) :
    ∃ offset value, ledger.line[offset]? = some (.writing task value) ∧
      Layout cap atom (inner.setFilled selected true) (Function.update pc task .swap) transit
        { ledger with line := ledger.line.set offset (.stored value) } := by
  have hwrites : (pc task).writes = some (selected, true) := by
    rw [hpc]
    rfl
  obtain ⟨offset, value, hentry, hselected, -, hdata⟩ := hlayout.ticket hwrites
  have hlength : (ledger.line.set offset (.stored value)).length = ledger.line.length :=
    List.length_set
  refine ⟨offset, value, hentry, ?_, ?_, ?_, hlayout.filling, hlayout.recvHead, ?_, ?_⟩
  · rw [hlength]
    exact hlayout.writeHead
  · rw [hlength]
    exact hlayout.size
  · rw [hlength]
    exact hlayout.room
  · refine hlayout.window.set hentry hselected ⟨?_, ?_⟩
      (fun index ticket hindex hfits => fits_of_ne hwrites ?_ ?_ hindex hfits)
      fun index hindex hfree => ?_
    · simp [Inner.setFilled]
    · simpa [Inner.setFilled] using hdata
    · intro other hother
      simp [Inner.setFilled, hother]
    · exact fun _ _ => rfl
    · simpa [Inner.setFilled, hindex] using hfree
  · intro other selected' written hother
    by_cases heq : other = task
    · rw [heq, Function.update_self] at hother
      cases hother
    · rw [Function.update_of_ne heq] at hother
      obtain ⟨offset', value', hentry', hselected'⟩ :=
        hlayout.writers other selected' written hother
      refine ⟨offset', value', ?_, hselected'⟩
      have hne : offset ≠ offset' := by
        rintro rfl
        rw [hentry] at hentry'
        cases hentry'
        exact heq rfl
      change (ledger.line.set offset (.stored value))[offset']? = _
      rw [List.getElem?_set_ne hne, hentry']

/-! ## The receiver -/

/-- The value of the first slot is taken. -/
theorem take (hlayout : Layout cap atom inner pc .none ledger) (hcap : 0 < cap)
    (hfilled : (inner.buckets inner.recvHead).filled = true)
    (hbefore : (pc task).writes = none) (hafter : point.writes = none) :
    ∃ value rest, ledger.line = .stored value :: rest ∧
      (inner.buckets inner.recvHead).data = some value ∧
      Layout cap atom
        { (inner.setFilled inner.recvHead false).setData inner.recvHead none with
          recvHead := (inner.recvHead + 1) % cap }
        (Function.update pc task point) .taken ⟨ledger.base + 1, rest⟩ := by
  have hhead := hlayout.recvHead
  cases hline : ledger.line with
  | nil =>
      have hfree := hlayout.window.free 0 (by simp [hline]) hcap
      rw [← hhead, hfilled] at hfree
      cases hfree
  | cons first rest =>
      have hfirst := hlayout.window.entry 0 first (by simp [hline])
      rw [← hhead] at hfirst
      cases first with
      | writing other value =>
          have hempty := hfirst.1
          rw [hfilled] at hempty
          cases hempty
      | stored value =>
          have hwindow := hlayout.window
          have hsize := hlayout.size
          have hroom := hlayout.room
          rw [hline] at hwindow hsize hroom
          simp only [List.length_cons, Transit.extra] at hsize hroom
          refine ⟨value, rest, rfl, hfirst.2, ?_, ?_, ?_, fun h => (by cases h), ?_, ?_, ?_⟩
          · rw [hlayout.writeHead, hline, Ring.slot_succ]
            rfl
          · exact hsize
          · exact hroom
          · change (inner.recvHead + 1) % cap = _
            rw [hhead, Ring.slot_next, Ring.slot_succ]
          · refine hwindow.pop hhead ?_ (fun index ticket hindex hfits => ?_)
              fun index hindex hfree => ?_
            · simp [Inner.setFilled, Inner.setData]
            · apply hfits.congr
              · simp [Inner.setFilled, Inner.setData, hindex]
              · intro other written hother
                have hne : other ≠ task := by
                  rintro rfl
                  rw [hbefore] at hother
                  cases hother
                exact ⟨by rw [Function.update_of_ne hne], rfl⟩
            · simpa [Inner.setFilled, Inner.setData, hindex] using hfree
          · intro other selected written hother
            by_cases heq : other = task
            · rw [heq, Function.update_self, hafter] at hother
              cases hother
            · rw [Function.update_of_ne heq] at hother
              obtain ⟨offset, value', hentry, hselected⟩ :=
                hlayout.writers other selected written hother
              rw [hline] at hentry
              cases offset with
              | zero => cases hentry
              | succ offset =>
                  refine ⟨offset, value', hentry, ?_⟩
                  rw [hselected, Ring.slot_succ]

omit [DecidableEq τ] in
/-- The slot in hand goes to a waiter. -/
theorem grant (hlayout : Layout cap atom inner pc .taken ledger) (hsize : atom.size = cap) :
    Layout cap (advanced cap atom) inner pc .filling ledger := by
  refine { hlayout with writeHead := ?_, filling := fun _ => hsize }
  change (atom.writeHead + 1) % cap = _
  rw [hlayout.writeHead, Ring.slot_next]
  rfl

omit [DecidableEq τ] in
/-- The slot in hand becomes free. -/
theorem vacate (hlayout : Layout cap atom inner pc .taken ledger) :
    Layout cap ⟨atom.writeHead, atom.size - 1⟩ inner pc .none ledger := by
  have hsize := hlayout.size
  have hroom := hlayout.room
  simp only [Transit.extra] at hsize hroom
  refine { hlayout with writeHead := ?_, size := ?_, room := ?_, filling := fun h => by cases h }
  · exact hlayout.writeHead
  · simp only [Transit.extra]
    omega
  · exact Nat.le_of_succ_le hroom

/-- The slot in hand is filled with the message of a waiter. -/
theorem backfill (hlayout : Layout cap atom inner pc .filling ledger) {waiter : τ} {value : V}
    {head : ℕ} (hhead : head = Ring.slot cap ledger.base (cap - 1))
    (hwaiter : (pc waiter).writes = none) (hbefore : (pc task).writes = none)
    (hafter : point.writes = none) :
    Layout cap atom
      (((inner.setMessage waiter none).setData head (some value)).setFilled head true)
      (Function.update pc task point) .none
      { ledger with line := ledger.line ++ [.stored value] } := by
  have hsize := hlayout.size
  have hfull := hlayout.filling rfl
  have hlength : ledger.line.length = cap - 1 := by
    simp only [Transit.extra] at hsize
    omega
  have hroom := hlayout.room
  simp only [Transit.extra] at hsize hroom
  refine ⟨?_, ?_, ?_, fun h => (by cases h), hlayout.recvHead, ?_, ?_⟩
  · rw [hlayout.writeHead, List.length_append]
    rfl
  · rw [hsize, List.length_append]
    rfl
  · rw [List.length_append]
    exact hroom
  · have hslot : head = Ring.slot cap ledger.base ledger.line.length := by
      rw [hhead, hlength]
    refine hlayout.window.push hroom hslot ⟨?_, ?_⟩
      (fun index ticket hindex hfits => ?_) fun index hindex hfree => ?_
    · simp [Inner.setFilled]
    · simp [Inner.setFilled, Inner.setData]
    · apply hfits.congr
      · simp [Inner.setFilled, Inner.setData, Inner.setMessage, hindex]
      · intro other written hother
        have hne : other ≠ task := by
          rintro rfl
          rw [hbefore] at hother
          cases hother
        have hother' : other ≠ waiter := by
          rintro rfl
          rw [hwaiter] at hother
          cases hother
        refine ⟨by rw [Function.update_of_ne hne], ?_⟩
        simp [Inner.setFilled, Inner.setData, Inner.setMessage, hother']
    · simpa [Inner.setFilled, Inner.setData, Inner.setMessage, hindex] using hfree
  · intro other selected written hother
    by_cases heq : other = task
    · rw [heq, Function.update_self, hafter] at hother
      cases hother
    · rw [Function.update_of_ne heq] at hother
      obtain ⟨offset, value', hentry, hselected⟩ :=
        hlayout.writers other selected written hother
      refine ⟨offset, value', ?_, hselected⟩
      have hlt := (List.getElem?_eq_some_iff.mp hentry).1
      change (ledger.line ++ [.stored value])[offset]? = _
      rw [List.getElem?_append_left hlt, hentry]

end Layout

end Mpsc

end AsyncMutex
