import Mathlib.Data.List.Chain
import SiteBuild.Text.Bytes

/-! Parts of a text by the bytes where they begin and end, and texts with some parts replaced. There is
such a part only between two characters, and only within the text. -/

namespace SiteBuild.Text

variable {s t a b : List Char} {n i j : Nat}

/-- A text cut behind a number of bytes, if a character ends there. -/
def cutAt? : Nat → List Char → Option (List Char × List Char)
  | 0, s => some ([], s)
  | _ + 1, [] => none
  | n + 1, c :: s =>
    if c.utf8Size ≤ n + 1 then
      (cutAt? (n + 1 - c.utf8Size) s).map fun (a, b) => (c :: a, b)
    else none

theorem cutAt?_eq_some_iff : cutAt? n s = some (a, b) ↔ a ++ b = s ∧ byteLength a = n := by
  induction s generalizing n a with
  | nil =>
    cases n with
    | zero =>
      cases a <;> simp [cutAt?, Char.utf8Size_pos, Nat.ne_of_gt, eq_comm]
    | succ n =>
      simp only [cutAt?, List.append_eq_nil_iff]
      constructor
      · intro h
        cases h
      · rintro ⟨⟨rfl, rfl⟩, h⟩
        cases h
  | cons c s ih =>
    have hc := c.utf8Size_pos
    cases n with
    | zero =>
      cases a with
      | nil => simp [cutAt?, eq_comm]
      | cons x a =>
        have hx := x.utf8Size_pos
        simp only [cutAt?, Option.some.injEq, Prod.mk.injEq, List.nil_eq, reduceCtorEq, false_and,
          byteLength_cons, false_iff, not_and]
        omega
    | succ n =>
      cases a with
      | nil =>
        rw [cutAt?]
        split
        · simp
        · simp
      | cons x a =>
        rw [cutAt?]
        split
        · next hle =>
          simp only [Option.map_eq_some_iff, Prod.exists, Prod.mk.injEq, List.cons.injEq,
            List.cons_append, byteLength_cons]
          constructor
          · rintro ⟨a', b', h, ⟨rfl, rfl⟩, rfl⟩
            obtain ⟨rfl, hl⟩ := ih.1 h
            exact ⟨⟨rfl, rfl⟩, by omega⟩
          · rintro ⟨⟨rfl, rfl⟩, hl⟩
            exact ⟨a, b, ih.2 ⟨rfl, by omega⟩, ⟨rfl, rfl⟩, rfl⟩
        · next hle =>
          simp only [reduceCtorEq, List.cons_append, List.cons.injEq, byteLength_cons, false_iff,
            not_and]
          rintro ⟨rfl, -⟩
          omega

/-- The text from one byte up to another one, if both stand between characters and in this order. -/
def slice? (s : List Char) (start stop : Nat) : Option (List Char) :=
  (cutAt? start s).bind fun (_, rest) =>
    if start ≤ stop then (cutAt? (stop - start) rest).map Prod.fst else none

theorem slice?_eq_some_iff :
    slice? s i j = some t ↔ ∃ a b, a ++ t ++ b = s ∧ byteLength a = i ∧ byteLength (a ++ t) = j := by
  simp only [slice?, Option.bind_eq_some_iff, Option.ite_none_right_eq_some, Option.map_eq_some_iff,
    Prod.exists, cutAt?_eq_some_iff]
  constructor
  · rintro ⟨a, r, ⟨rfl, ha⟩, hle, t', b, ⟨rfl, ht⟩, rfl⟩
    refine ⟨a, b, by simp, ha, ?_⟩
    rw [byteLength_append]
    omega
  · rintro ⟨a, b, rfl, rfl, rfl⟩
    refine ⟨a, t ++ b, ⟨by simp, rfl⟩, by simp, t, b, ⟨rfl, ?_⟩, rfl⟩
    rw [byteLength_append]
    omega

theorem slice?_append (a t b : List Char) :
    slice? (a ++ (t ++ b)) (byteLength a) (byteLength a + byteLength t) = some t :=
  slice?_eq_some_iff.2 ⟨a, b, by simp, rfl, by simp⟩

/-- A part of a text, and what is to stand there instead. -/
structure Edit where
  start : Nat
  stop : Nat
  text : List Char
  deriving DecidableEq, Repr

/-- A text from one byte on, with some of its parts replaced in turn. -/
def splice? (s : List Char) (cursor : Nat) : List Edit → Option (List Char)
  | [] => slice? s cursor (byteLength s)
  | e :: es => do return (← slice? s cursor e.start) ++ e.text ++ (← splice? s e.stop es)

theorem le_of_slice? (h : slice? s i j = some t) : i ≤ j := by
  obtain ⟨a, _, -, rfl, rfl⟩ := slice?_eq_some_iff.1 h
  simp

theorem le_byteLength_of_slice? (h : slice? s i j = some t) : j ≤ byteLength s := by
  obtain ⟨a, b, rfl, -, rfl⟩ := slice?_eq_some_iff.1 h
  simp

theorem splice?_cons_eq_some {e : Edit} {es : List Edit} (h : splice? s n (e :: es) = some t) :
    ∃ u v, slice? s n e.start = some u ∧ splice? s e.stop es = some v ∧ t = u ++ e.text ++ v := by
  obtain ⟨u, hu, h⟩ := Option.bind_eq_some_iff.1 h
  obtain ⟨v, hv, h⟩ := Option.bind_eq_some_iff.1 h
  exact ⟨u, v, hu, hv, (Option.some.inj h).symm⟩

/-- Edits that can be made in turn do not reach into each other. -/
theorem isChain_of_splice? {es : List Edit} (h : splice? s n es = some t) :
    es.IsChain fun e e' => e.stop ≤ e'.start := by
  induction es generalizing n t with
  | nil => exact .nil
  | cons e es ih =>
    obtain ⟨_, v, -, hv, -⟩ := splice?_cons_eq_some h
    cases es with
    | nil => exact .singleton e
    | cons e' es =>
      obtain ⟨_, _, hu, -, -⟩ := splice?_cons_eq_some hv
      exact .cons_cons (le_of_slice? hu) (ih hv)

end SiteBuild.Text
