import Mathlib.Tactic

/-!
# A stream between a writer and a reader

A writer hands over messages, and their elements travel in order. They arrive in pieces of any
length, and the reader takes the first message off what has arrived as soon as `size` finds it
there. If every message that is written can be found, and none before all of it is there
(`Delimited`), then the reader takes the messages that were written, in their order and each of
them once, and what is neither taken nor written anew is still on its way (`Faithful`).
-/

namespace Channel

variable {α : Type}

/-- A message that is found at the front of whatever follows it, and not before all of it is
there. -/
structure Delimited (size : List α → Option Nat) (msg : List α) : Prop where
  append : ∀ more, size (msg ++ more) = some msg.length
  take : ∀ n < msg.length, size (msg.take n) = none

/-- What was written, what is on its way, what has arrived, and the messages that the reader took.
-/
structure Stream (α : Type) where
  written : List (List α)
  onTheWay : List α
  arrived : List α
  taken : List (List α)

variable {size : List α → Option Nat} {c : Stream α}

/-- The elements are where they were written, and what was taken is what was written first. -/
structure Faithful (size : List α → Option Nat) (c : Stream α) : Prop where
  delimited : ∀ msg ∈ c.written, Delimited size msg
  elements : c.written.flatten = c.taken.flatten ++ (c.arrived ++ c.onTheWay)
  order : c.taken <+: c.written

/-- Before anything is written the channel is faithful. -/
theorem faithful_empty : Faithful size ⟨[], [], [], []⟩ where
  delimited _ hmsg := absurd hmsg List.not_mem_nil
  elements := rfl
  order := List.prefix_refl []

/-- The writer hands over more messages. -/
theorem Faithful.write (h : Faithful size c) {msgs : List (List α)}
    (hmsgs : ∀ msg ∈ msgs, Delimited size msg) :
    Faithful size ⟨c.written ++ msgs, c.onTheWay ++ msgs.flatten, c.arrived, c.taken⟩ where
  delimited := List.forall_mem_append.2 ⟨h.delimited, hmsgs⟩
  elements := by
    rw [List.flatten_append, h.elements]
    simp only [List.append_assoc]
  order := h.order.trans (List.prefix_append _ _)

/-- A piece of any length arrives. -/
theorem Faithful.arrive (h : Faithful size c) (n : Nat) :
    Faithful size ⟨c.written, c.onTheWay.drop n, c.arrived ++ c.onTheWay.take n, c.taken⟩ where
  delimited := h.delimited
  elements := by
    rw [List.append_assoc, List.take_append_drop]
    exact h.elements
  order := h.order

/-- What the reader finds next is what was written next. -/
theorem Faithful.next (h : Faithful size c) (hempty : size [] = none) {n : Nat}
    (hn : size c.arrived = some n) : ∃ later, c.written = c.taken ++ c.arrived.take n :: later := by
  obtain ⟨waiting, hwaiting⟩ := h.order
  have hrest : c.arrived ++ c.onTheWay = waiting.flatten := by
    have helements := h.elements
    rw [← hwaiting, List.flatten_append] at helements
    exact (List.append_cancel_left helements).symm
  cases waiting with
  | nil =>
    -- nothing was written that is not taken already
    obtain ⟨harrived, _⟩ := List.append_eq_nil_iff.1 hrest
    rw [harrived, hempty] at hn
    cases hn
  | cons msg later =>
    have hmsg : Delimited size msg := h.delimited msg (by rw [← hwaiting]; simp)
    rw [List.flatten_cons] at hrest
    by_cases hlength : msg.length ≤ c.arrived.length
    · obtain ⟨more, hmore⟩ : msg <+: c.arrived := by
        have harrived : c.arrived <+: msg ++ later.flatten := hrest ▸ List.prefix_append _ _
        exact List.prefix_of_prefix_length_le (List.prefix_append _ _) harrived hlength
      have hsize := hmsg.append more
      rw [hmore, hn] at hsize
      obtain rfl := Option.some.inj hsize
      exact ⟨later, by rw [← hwaiting, ← hmore, List.take_left]⟩
    · -- only a part of the message has arrived
      have hpart : c.arrived = msg.take c.arrived.length := by
        have harrived := congrArg (List.take c.arrived.length) hrest
        rwa [List.take_left, List.take_append_of_le_length (by omega)] at harrived
      have hsize := hmsg.take c.arrived.length (by omega)
      rw [← hpart, hn] at hsize
      cases hsize

/-- The reader takes the message that it finds. -/
theorem Faithful.take (h : Faithful size c) (hempty : size [] = none) {n : Nat}
    (hn : size c.arrived = some n) :
    Faithful size ⟨c.written, c.onTheWay, c.arrived.drop n, c.taken ++ [c.arrived.take n]⟩ where
  delimited := h.delimited
  elements := by
    rw [h.elements, List.flatten_append, List.flatten_singleton, List.append_assoc,
      ← List.append_assoc (c.arrived.take n), List.take_append_drop]
  order := by
    obtain ⟨later, hlater⟩ := h.next hempty hn
    exact ⟨later, by rw [hlater, List.append_assoc, List.singleton_append]⟩

/-- When nothing is on its way and no message is found, all that was written has been taken. -/
theorem Faithful.all_taken (h : Faithful size c)
    (hnone : size c.arrived = none) (hwire : c.onTheWay = []) :
    c.taken = c.written ∧ c.arrived = [] := by
  obtain ⟨waiting, hwaiting⟩ := h.order
  have hrest : c.arrived = waiting.flatten := by
    have helements := h.elements
    rw [← hwaiting, hwire, List.append_nil, List.flatten_append] at helements
    exact (List.append_cancel_left helements).symm
  cases waiting with
  | nil => exact ⟨by rw [← hwaiting, List.append_nil], hrest⟩
  | cons msg later =>
    -- the next message would be found
    have hmsg : Delimited size msg := h.delimited msg (by rw [← hwaiting]; simp)
    rw [hrest, List.flatten_cons, hmsg.append] at hnone
    cases hnone

end Channel
