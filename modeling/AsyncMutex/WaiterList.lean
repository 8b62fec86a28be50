import AsyncMutex.DoublyLinked
import Mathlib.Algebra.Group.Nat.Defs
import Mathlib.Data.List.Induction
import Mathlib.Data.Set.Basic

/-!
# The intrusive waiter lists

The operations of `WaiterList` and `RawFutex::enqueue`, on a heap of waiters.
A null pointer is `none`; an operation that would follow a null pointer, or
that runs out of fuel because it walks in a circle, has no result.  Every
operation then gets one specification in terms of the list of waiters that
the head and tail pointers hold, with a frame for all other waiters.
-/

namespace AsyncMutex

open DoublyLinked

/-- The links of a `Waiter` and the index of the queue it asks for. -/
abbrev WaiterHeap (τ κ : Type*) := Heap τ κ

structure WaiterList (τ : Type*) where
  head : Option τ
  tail : Option τ
deriving DecidableEq

namespace WaiterList

variable {τ κ : Type*} [DecidableEq τ]

def new : WaiterList τ := ⟨none, none⟩

/-- The loop of `from_stack`, at the node `head`. -/
def fromStackLoop (fuel : ℕ) (heap : WaiterHeap τ κ) (head : τ) :
    Option (WaiterHeap τ κ × τ) :=
  match fuel with
  | 0 => none
  | fuel + 1 =>
      match (heap head).prev with
      | none => some (heap, head)
      | some prev => fromStackLoop fuel (heap.setNext prev (some head)) prev

def fromStack (fuel : ℕ) (heap : WaiterHeap τ κ) (tail : Option τ) :
    Option (WaiterHeap τ κ × WaiterList τ) :=
  match tail with
  | none => some (heap, ⟨none, none⟩)
  | some waiter =>
      (fromStackLoop fuel heap waiter).map fun result =>
        (result.1, ⟨some result.2, some waiter⟩)

def remove (heap : WaiterHeap τ κ) (list : WaiterList τ) (waiter : τ) :
    WaiterHeap τ κ × WaiterList τ :=
  let prev := (heap waiter).prev
  let next := (heap waiter).next
  let (heap, list) :=
    match prev with
    | none =>
        (heap, if list.head = some waiter then { list with head := next } else list)
    | some prev => (heap.setNext prev next, list)
  match next with
  | none =>
      (heap, if list.tail = some waiter then { list with tail := prev } else list)
  | some next => (heap.setPrev next prev, list)

def popFront (heap : WaiterHeap τ κ) (list : WaiterList τ) :
    WaiterHeap τ κ × WaiterList τ × Option τ :=
  match list.head with
  | none => (heap, list, none)
  | some result =>
      let head := (heap result).next
      let tail := if list.tail = some result then none else list.tail
      let heap :=
        match (heap result).next with
        | none => heap
        | some next => heap.setPrev next none
      (heap.setNext result none, ⟨head, tail⟩, some result)

/-- `usize::MAX`, the count that asks for the whole list. -/
def usizeMax : ℕ := 2 ^ 64 - 1

/-- The loop of `pop_front_many`: skip `count` nodes or run off the end. -/
def keepHead (heap : WaiterHeap τ κ) : ℕ → Option τ → Option τ
  | _, none => none
  | 0, some waiter => some waiter
  | count + 1, some waiter => keepHead heap count (heap waiter).next

/-- The heap, the list that is kept and the list that is returned. -/
def popFrontMany (heap : WaiterHeap τ κ) (list : WaiterList τ) (count : ℕ) :
    WaiterHeap τ κ × WaiterList τ × WaiterList τ :=
  if count = usizeMax then (heap, new, list)
  else
    match keepHead heap count list.head with
    | none => (heap, new, list)
    | some keep =>
        match (heap keep).prev with
        | none => (heap, list, new)
        | some retTail =>
            ((heap.setNext retTail none).setPrev keep none,
              ⟨some keep, list.tail⟩, ⟨list.head, some retTail⟩)

/-- The waiters that `pop_front_many` takes. -/
def front {τ : Type*} (count : ℕ) (waiters : List τ) : List τ :=
  if count = usizeMax then waiters else waiters.take count

/-- The waiters that `pop_front_many` leaves. -/
def back {τ : Type*} (count : ℕ) (waiters : List τ) : List τ :=
  if count = usizeMax then [] else waiters.drop count

omit [DecidableEq τ] in
theorem front_append_back (count : ℕ) (waiters : List τ) :
    front count waiters ++ back count waiters = waiters := by
  unfold front back
  split
  · exact List.append_nil waiters
  · exact List.take_append_drop count waiters

omit [DecidableEq τ] in
/-- No list of waiters that fits in the memory is longer than `usize::MAX`. -/
theorem front_eq_take {count : ℕ} {waiters : List τ}
    (hlength : waiters.length ≤ usizeMax) :
    front count waiters = waiters.take count := by
  unfold front
  split
  case isTrue hcount => rw [List.take_of_length_le (hcount ▸ hlength)]
  case isFalse => rfl

omit [DecidableEq τ] in
theorem back_eq_drop {count : ℕ} {waiters : List τ}
    (hlength : waiters.length ≤ usizeMax) :
    back count waiters = waiters.drop count := by
  unfold back
  split
  case isTrue hcount => rw [List.drop_eq_nil_of_le (hcount ▸ hlength)]
  case isFalse => rfl

def pushBack (heap : WaiterHeap τ κ) (list : WaiterList τ) (waiter : τ) :
    Option (WaiterHeap τ κ × WaiterList τ) :=
  if list.head = none ∧ list.tail = none then
    some (heap, ⟨some waiter, some waiter⟩)
  else
    match list.tail with
    | none => none
    | some tail =>
        some ((heap.setNext tail (some waiter)).setPrev waiter (some tail),
          { list with tail := some waiter })

def isEmpty (list : WaiterList τ) : Bool := list.head.isNone

/-- Walk the next pointers and collect the nodes, as `WaiterHandleIter` does. -/
def iter (fuel : ℕ) (heap : WaiterHeap τ κ) (head : Option τ) :
    Option (List τ) :=
  match head with
  | none => some []
  | some waiter =>
      match fuel with
      | 0 => none
      | fuel + 1 =>
          (iter fuel heap (heap waiter).next).map fun rest => waiter :: rest

/-- Walk the prev pointers of a stack and collect the nodes. -/
def iterStack (fuel : ℕ) (heap : WaiterHeap τ κ) (top : Option τ) :
    Option (List τ) :=
  match top with
  | none => some []
  | some waiter =>
      match fuel with
      | 0 => none
      | fuel + 1 =>
          (iterStack fuel heap (heap waiter).prev).map fun rest => waiter :: rest

variable [DecidableEq κ]

/-- The loop of `RawFutex::enqueue`, where every index has its queue. -/
def enqueueLoop (fuel : ℕ) (heap : WaiterHeap τ κ)
    (queues : κ → WaiterList τ) (list : WaiterList τ) :
    Option (WaiterHeap τ κ × (κ → WaiterList τ)) :=
  match fuel with
  | 0 => none
  | fuel + 1 =>
      match popFront heap list with
      | (heap, _, none) => some (heap, queues)
      | (heap, list, some waiter) =>
          let queue := (heap waiter).data
          match pushBack heap (queues queue) waiter with
          | none => none
          | some (heap, pushed) =>
              enqueueLoop fuel heap (Function.update queues queue pushed) list

def enqueue (fuel : ℕ) (heap : WaiterHeap τ κ) (queues : κ → WaiterList τ)
    (stack : Option τ) : Option (WaiterHeap τ κ × (κ → WaiterList τ)) :=
  (fromStack fuel heap stack).bind fun result =>
    enqueueLoop fuel result.1 queues result.2

end WaiterList

/-! ## What the pointers of a list hold -/

/-- The list with these head and tail pointers holds `waiters`, in order. -/
abbrev WaiterList.Contains {τ κ : Type*} (heap : WaiterHeap τ κ)
    (list : WaiterList τ) (waiters : List τ) : Prop :=
  Holds heap list.head list.tail waiters

/-- `heap'` differs from `heap` at most in the links of `touched` waiters. -/
structure SameOutside {τ κ : Type*} (heap heap' : WaiterHeap τ κ)
    (touched : Set τ) : Prop where
  outside : ∀ waiter, waiter ∉ touched → heap' waiter = heap waiter
  data : ∀ waiter, (heap' waiter).data = (heap waiter).data

namespace SameOutside

variable {τ κ : Type*}

theorem refl (heap : WaiterHeap τ κ) (touched : Set τ) :
    SameOutside heap heap touched :=
  ⟨fun _ _ => rfl, fun _ => rfl⟩

theorem trans {first second third : WaiterHeap τ κ} {touched : Set τ}
    (hfirst : SameOutside first second touched)
    (hsecond : SameOutside second third touched) :
    SameOutside first third touched :=
  ⟨fun waiter hmem =>
      (hsecond.outside waiter hmem).trans (hfirst.outside waiter hmem),
    fun waiter => (hsecond.data waiter).trans (hfirst.data waiter)⟩

theorem mono {heap heap' : WaiterHeap τ κ} {small large : Set τ}
    (hsame : SameOutside heap heap' small) (hsub : small ⊆ large) :
    SameOutside heap heap' large :=
  ⟨fun waiter hmem => hsame.outside waiter fun hin => hmem (hsub hin),
    hsame.data⟩

theorem setNext [DecidableEq τ] (heap : WaiterHeap τ κ) {waiter : τ}
    {touched : Set τ} (hmem : waiter ∈ touched) (link : Option τ) :
    SameOutside heap (heap.setNext waiter link) touched := by
  refine ⟨fun other hother => ?_, fun other => by simp⟩
  exact heap.setNext_of_ne link fun heq => hother (heq ▸ hmem)

theorem setPrev [DecidableEq τ] (heap : WaiterHeap τ κ) {waiter : τ}
    {touched : Set τ} (hmem : waiter ∈ touched) (link : Option τ) :
    SameOutside heap (heap.setPrev waiter link) touched := by
  refine ⟨fun other hother => ?_, fun other => by simp⟩
  exact heap.setPrev_of_ne link fun heq => hother (heq ▸ hmem)

/-- A list of other waiters is not touched. -/
theorem contains {heap heap' : WaiterHeap τ κ} {touched : Set τ}
    {others : List τ} {list : WaiterList τ}
    (hsame : SameOutside heap heap' touched)
    (hdisjoint : ∀ waiter ∈ others, waiter ∉ touched)
    (hold : list.Contains heap others) : list.Contains heap' others :=
  hold.congr fun waiter hmem => by
    simp [hsame.outside waiter (hdisjoint waiter hmem)]

theorem stack {heap heap' : WaiterHeap τ κ} {touched : Set τ}
    {others : List τ} (hsame : SameOutside heap heap' touched)
    (hdisjoint : ∀ waiter ∈ others, waiter ∉ touched)
    (hstack : Stack heap others) : Stack heap' others :=
  hstack.congr fun waiter hmem => by
    simp [hsame.outside waiter (hdisjoint waiter hmem)]

end SameOutside

end AsyncMutex
