import Mathlib.Data.List.Infix
import Mathlib.Algebra.Order.Group.Nat

/-!
# Messages in a stream

A framing tells where the first message of a stream ends. More of the stream never changes a message
that is complete, so a stream can be read in pieces: what is left of one piece goes before the next.
-/

/-- How the first message is read off a stream. -/
structure Framing (β α : Type*) where
  next : List β → Option (α × List β)
  shorter : ∀ {s a rest}, next s = some (a, rest) → rest.length < s.length
  stable : ∀ {s a rest} (t : List β), next s = some (a, rest) → next (s ++ t) = some (a, rest ++ t)

namespace Framing

variable {β α : Type*} (f : Framing β α) {s t rest : List β} {a : α}

/-- The complete messages of a stream, and what is left. -/
def parse (s : List β) : List α × List β :=
  match h : f.next s with
  | none => ([], s)
  | some (a, rest) =>
      have := f.shorter h
      (a :: (parse rest).1, (parse rest).2)
termination_by s.length

theorem parse_of_none (h : f.next s = none) : f.parse s = ([], s) := by
  rw [parse]
  split
  · rfl
  · next heq =>
      rw [h] at heq
      cases heq

theorem parse_of_some (h : f.next s = some (a, rest)) :
    f.parse s = (a :: (f.parse rest).1, (f.parse rest).2) := by
  rw [parse]
  split
  · next heq =>
      rw [h] at heq
      cases heq
  · next heq =>
      rw [h] at heq
      cases heq
      rfl

@[simp]
theorem next_nil : f.next [] = none := by
  cases h : f.next [] with
  | none => rfl
  | some r => exact absurd (f.shorter h) (Nat.not_lt_zero _)

@[simp]
theorem parse_nil : f.parse [] = ([], []) := f.parse_of_none f.next_nil

/-- **Reading in pieces.** The messages of a longer stream are those of its beginning and those of
the rest. -/
theorem parse_append (s t : List β) :
    f.parse (s ++ t) =
      ((f.parse s).1 ++ (f.parse ((f.parse s).2 ++ t)).1, (f.parse ((f.parse s).2 ++ t)).2) := by
  induction h : s.length using Nat.strongRecOn generalizing s with
  | _ n ih =>
      cases hnext : f.next s with
      | none => rw [f.parse_of_none hnext, List.nil_append]
      | some found =>
          obtain ⟨a, rest⟩ := found
          have hlt := f.shorter hnext
          rw [f.parse_of_some hnext, f.parse_of_some (f.stable t hnext),
            ih rest.length (h ▸ hlt) rest rfl,
            List.cons_append]

/-- **Round trip.** Messages that are each written so that they are read off the front are read
back. -/
theorem parse_flatten {encode : α → List β} {msgs : List α}
    (hencode : ∀ a ∈ msgs, ∀ t, f.next (encode a ++ t) = some (a, t)) :
    f.parse (msgs.map encode).flatten = (msgs, []) := by
  induction msgs with
  | nil => exact f.parse_nil
  | cons a msgs ih =>
      have hmsgs := ih fun a' ha' => hencode a' (List.mem_cons_of_mem _ ha')
      rw [List.map_cons, List.flatten_cons, f.parse_of_some (hencode a List.mem_cons_self _), hmsgs]

end Framing
