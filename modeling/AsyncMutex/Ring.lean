import Mathlib.Data.List.Basic
import Mathlib.Data.Nat.ModEq

/-!
# Rings of slots

A ring of `cap` slots holds a window of entries, which grows at one end and
shrinks at the other.  The entries are counted from the beginning; the slot of
an entry is its count modulo `cap`.
-/

namespace AsyncMutex

namespace Ring

/-- The slot of the entry `offset` places behind the entry `base`. -/
def slot (cap base offset : ℕ) : ℕ := (base + offset) % cap

variable {cap base : ℕ}

theorem slot_lt (hcap : 0 < cap) (offset : ℕ) : slot cap base offset < cap :=
  Nat.mod_lt _ hcap

theorem slot_succ (offset : ℕ) : slot cap (base + 1) offset = slot cap base (offset + 1) := by
  unfold slot
  rw [Nat.add_assoc, Nat.add_comm 1 offset]

theorem slot_next (offset : ℕ) : (slot cap base offset + 1) % cap = slot cap base (offset + 1) := by
  unfold slot
  rw [Nat.mod_add_mod, Nat.add_assoc]

/-- Once around the ring. -/
theorem slot_cap : slot cap base cap = slot cap base 0 := by
  unfold slot
  rw [Nat.add_mod_right, Nat.add_zero]

theorem slot_inj {first second : ℕ} (hfirst : first < cap) (hsecond : second < cap)
    (hslot : slot cap base first = slot cap base second) : first = second := by
  have hmod : first ≡ second [MOD cap] := Nat.ModEq.add_left_cancel' base hslot
  exact hmod.eq_of_lt_of_lt hfirst hsecond

theorem exists_offset (base : ℕ) {index : ℕ} (hindex : index < cap) :
    ∃ offset < cap, slot cap base offset = index := by
  have hcap : 0 < cap := Nat.zero_lt_of_lt hindex
  refine ⟨(index + (cap - base % cap)) % cap, Nat.mod_lt _ hcap, ?_⟩
  have hbase := Nat.mod_lt base hcap
  unfold slot
  rw [Nat.add_mod_mod, ← Nat.mod_add_mod,
    show base % cap + (index + (cap - base % cap)) = index + cap by omega,
    Nat.add_mod_right, Nat.mod_eq_of_lt hindex]

/-- The window that begins with the entry `base` holds `entries`; the other slots
are free. -/
structure Holds {α : Type*} (fits : ℕ → α → Prop) (free : ℕ → Prop) (cap base : ℕ)
    (entries : List α) : Prop where
  room : entries.length ≤ cap
  entry : ∀ offset entry, entries[offset]? = some entry → fits (slot cap base offset) entry
  free : ∀ offset, entries.length ≤ offset → offset < cap → free (slot cap base offset)

namespace Holds

variable {α : Type*} {fits fits' : ℕ → α → Prop} {free free' : ℕ → Prop} {entries : List α}

theorem lt_of_entry (hholds : Holds fits free cap base entries) {offset : ℕ} {entry : α}
    (hentry : entries[offset]? = some entry) : offset < cap := by
  have hlt := (List.getElem?_eq_some_iff.mp hentry).1
  exact Nat.lt_of_lt_of_le hlt hholds.room

theorem mono (hholds : Holds fits free cap base entries)
    (hfits : ∀ index entry, fits index entry → fits' index entry)
    (hfree : ∀ index, free index → free' index) : Holds fits' free' cap base entries where
  room := hholds.room
  entry offset entry hentry := hfits _ _ (hholds.entry offset entry hentry)
  free offset hlength hlt := hfree _ (hholds.free offset hlength hlt)

/-- A new entry at the end, in the slot `index`. -/
theorem push (hholds : Holds fits free cap base entries) (hroom : entries.length < cap) {entry : α}
    {index : ℕ} (hindex : index = slot cap base entries.length) (hentry : fits' index entry)
    (hfits : ∀ other entry, other ≠ index → fits other entry → fits' other entry)
    (hfree : ∀ other, other ≠ index → free other → free' other) :
    Holds fits' free' cap base (entries ++ [entry]) := by
  subst hindex
  constructor
  case room =>
    rw [List.length_append]
    exact hroom
  case entry =>
    intro offset other hother
    rcases Nat.lt_or_ge offset entries.length with hlt | hge
    · rw [List.getElem?_append_left hlt] at hother
      refine hfits _ _ (fun heq => ?_) (hholds.entry offset other hother)
      have hsame := slot_inj (Nat.lt_trans hlt hroom) hroom heq
      exact absurd hsame (Nat.ne_of_lt hlt)
    · rw [List.getElem?_append_right hge, List.getElem?_singleton] at hother
      split at hother
      case isTrue hzero =>
        cases hother
        rw [show offset = entries.length by omega]
        exact hentry
      case isFalse => cases hother
  case free =>
    intro offset hlength hlt
    rw [List.length_append, List.length_singleton] at hlength
    refine hfree _ (fun heq => ?_) (hholds.free offset (Nat.le_of_succ_le hlength) hlt)
    have hsame := slot_inj hlt hroom heq
    omega

/-- The first entry leaves its slot. -/
theorem pop {entry : α} (hholds : Holds fits free cap base (entry :: entries)) {index : ℕ}
    (hindex : index = slot cap base 0) (hleft : free' index)
    (hfits : ∀ other entry, other ≠ index → fits other entry → fits' other entry)
    (hfree : ∀ other, other ≠ index → free other → free' other) :
    Holds fits' free' cap (base + 1) entries := by
  subst hindex
  have hroom : entries.length + 1 ≤ cap := hholds.room
  constructor
  case room => exact Nat.le_of_succ_le hroom
  case entry =>
    intro offset other hother
    rw [slot_succ]
    have hlt := (List.getElem?_eq_some_iff.mp hother).1
    refine hfits _ _ (fun heq => ?_) (hholds.entry (offset + 1) other (by simpa using hother))
    have hsame := slot_inj (by omega) (by omega) heq
    omega
  case free =>
    intro offset hlength hlt
    rw [slot_succ]
    rcases Nat.lt_or_ge (offset + 1) cap with hnext | hlast
    · refine hfree _ (fun heq => ?_) (hholds.free (offset + 1) (Nat.succ_le_succ hlength) hnext)
      have hsame := slot_inj hnext (Nat.zero_lt_of_lt hnext) heq
      omega
    · rw [show offset + 1 = cap by omega, slot_cap]
      exact hleft

/-- An entry changes in its slot. -/
theorem set (hholds : Holds fits free cap base entries) {offset index : ℕ} {old new : α}
    (hold : entries[offset]? = some old) (hindex : index = slot cap base offset)
    (hnew : fits' index new)
    (hfits : ∀ other entry, other ≠ index → fits other entry → fits' other entry)
    (hfree : ∀ other, other ≠ index → free other → free' other) :
    Holds fits' free' cap base (entries.set offset new) := by
  subst hindex
  have hlt := hholds.lt_of_entry hold
  have hlength := (List.getElem?_eq_some_iff.mp hold).1
  constructor
  case room => simpa using hholds.room
  case entry =>
    intro other entry hentry
    by_cases hother : other = offset
    · subst hother
      rw [List.getElem?_set_self hlength] at hentry
      cases hentry
      exact hnew
    · rw [List.getElem?_set_ne (Ne.symm hother)] at hentry
      refine hfits _ _ (fun heq => ?_) (hholds.entry other entry hentry)
      exact hother (slot_inj (hholds.lt_of_entry hentry) hlt heq)
  case free =>
    intro other hother hcap
    rw [List.length_set] at hother
    refine hfree _ (fun heq => ?_) (hholds.free other hother hcap)
    have hsame := slot_inj hcap hlt heq
    omega

end Holds

end Ring

end AsyncMutex
