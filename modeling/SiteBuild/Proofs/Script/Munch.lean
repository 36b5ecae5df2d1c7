import SiteBuild.Script.Munch

/-! What a reader of single characters takes is what its steps go over, and it stops where there is no
step. A token that is read so says nothing about the text behind it but its first character. -/

namespace SiteBuild.Script

section munch

variable {σ α : Type} {step : σ → Char → Option σ} {give : σ → Option α} {p q : σ} {a : α} {n : Nat}
  {w s : List Char}

/-- There is no step over the first character of a text. -/
def StopsAt (step : σ → Char → Option σ) (q : σ) (s : List Char) : Prop :=
  ∀ c, s.head? = some c → step q c = none

theorem le_munch (step : σ → Char → Option σ) (p : σ) (n : Nat) (s : List Char) :
    n ≤ (munch step p n s).2 := by
  induction s generalizing p n with
  | nil => exact Nat.le_refl n
  | cons c s ih =>
    rw [munch]
    split
    · next p' _ => exact Nat.le_of_succ_le (ih p' (n + 1))
    · exact Nat.le_refl n

theorem munch_stop (h : munch step p n s = (q, n)) : p = q ∧ StopsAt step q s := by
  cases s with
  | nil =>
    cases h
    exact ⟨rfl, fun _ hc => by cases hc⟩
  | cons c s =>
    rw [munch] at h
    split at h
    · next p' _ =>
      have := le_munch step p' (n + 1) s
      rw [h] at this
      omega
    · next hn =>
      cases h
      refine ⟨rfl, fun x hx => ?_⟩
      obtain rfl : c = x := by simpa using hx
      exact hn

theorem munch_of_stopsAt (h : StopsAt step q s) : munch step q n s = (q, n) := by
  cases s with
  | nil => rfl
  | cons c s => rw [munch, h c rfl]

theorem munch_eq_iff :
    munch step p n (w ++ s) = (q, n + w.length) ↔ w.foldlM step p = some q ∧ StopsAt step q s := by
  induction w generalizing p n with
  | nil =>
    constructor
    · intro h
      obtain ⟨rfl, hs⟩ := munch_stop h
      exact ⟨rfl, hs⟩
    · rintro ⟨h, hs⟩
      cases h
      exact munch_of_stopsAt hs
  | cons c w ih =>
    rw [List.cons_append, munch, List.foldlM_cons]
    cases hc : step p c with
    | none =>
      constructor
      · intro h
        have : n = n + (c :: w).length := congrArg Prod.snd h
        rw [List.length_cons] at this
        omega
      · rintro ⟨h, -⟩
        cases h
    | some p' =>
      rw [List.length_cons, Nat.add_comm w.length, ← Nat.add_assoc]
      exact ih

theorem readTo_eq_iff :
    readTo step give p n (w ++ s) = some (a, n + w.length) ↔
      ∃ q, w.foldlM step p = some q ∧ give q = some a ∧ StopsAt step q s := by
  constructor
  · intro h
    obtain ⟨a', ha, h⟩ := Option.map_eq_some_iff.1 h
    obtain ⟨rfl, hn⟩ := Prod.mk.inj h
    obtain ⟨hw, hs⟩ := munch_eq_iff.1 (Prod.ext rfl hn)
    exact ⟨_, hw, ha, hs⟩
  · rintro ⟨q, hw, ha, hs⟩
    simp [readTo, munch_eq_iff.2 ⟨hw, hs⟩, ha]

/-- What a reader gives is what a place gives. -/
theorem exists_of_readTo {m : Nat} (h : readTo step give p n s = some (a, m)) :
    ∃ q, give q = some a := by
  obtain ⟨t, ht, h⟩ := Option.map_eq_some_iff.1 h
  cases h
  exact ⟨_, ht⟩

end munch

end SiteBuild.Script
