import Mathlib.Data.List.Basic
import Mathlib.Data.List.Nodup
import SiteBuild.Table

/-! Tables put together from lists of entries. -/

namespace SiteBuild

namespace Table

variable {κ α : Type} [LT κ]

theorem keys_ascending (t : Table κ α) : t.keys.Pairwise (· < ·) :=
  List.pairwise_map.2 t.ascending

variable [DecidableLT κ]
  [Trans (· < · : κ → κ → Prop) (· < · : κ → κ → Prop) (· < · : κ → κ → Prop)]
  [Std.Trichotomous (· < · : κ → κ → Prop)]

theorem keys_insert_perm {t : Table κ α} {k : κ} (a : α) (h : k ∉ t.keys) :
    (t.insert k a).keys.Perm (k :: t.keys) := by
  obtain ⟨es, hes⟩ := t
  simp only [keys, insert] at h ⊢
  clear hes
  induction es with
  | nil => exact .refl _
  | cons e es ih =>
    obtain ⟨hk, hes⟩ := not_or.1 (mt List.mem_cons.2 h)
    unfold insertEntry
    split
    · exact .refl _
    · next hn =>
      split
      · exact ((ih hes).cons e.1).trans (.swap k e.1 _)
      · next hn' => exact absurd (eq_of_not_lt hn hn') hk

theorem keys_foldl_perm {es : List (κ × α)} {t : Table κ α}
    (h : (es.map Prod.fst ++ t.keys).Nodup) :
    (es.foldl (fun t e => t.insert e.1 e.2) t).keys.Perm (es.map Prod.fst ++ t.keys) := by
  induction es generalizing t with
  | nil => exact .refl _
  | cons e es ih =>
    obtain ⟨he, hes⟩ := List.nodup_cons.1 h
    have hk : (t.insert e.1 e.2).keys.Perm (e.1 :: t.keys) :=
      keys_insert_perm e.2 fun hm => he (List.mem_append_right _ hm)
    have hmid : (es.map Prod.fst ++ (t.insert e.1 e.2).keys).Perm
        (e.1 :: (es.map Prod.fst ++ t.keys)) := (hk.append_left _).trans List.perm_middle
    exact (ih (hmid.nodup_iff.2 h)).trans hmid

/-- Different keys all come into the table. -/
theorem keys_ofList_perm {es : List (κ × α)} (h : (es.map Prod.fst).Nodup) :
    (ofList es).keys.Perm (es.map Prod.fst) := by
  have hnone : es.map Prod.fst ++ (empty : Table κ α).keys = es.map Prod.fst := by
    simp [keys, empty]
  exact hnone ▸ keys_foldl_perm (hnone.symm ▸ h)

/-- A list of entries put into a table takes over its keys. -/
theorem get?_foldl [DecidableEq κ] [Std.Irrefl (· < · : κ → κ → Prop)] {es : List (κ × α)}
    {t : Table κ α} (h : (es.map Prod.fst).Nodup) (k : κ) (a : α) :
    (es.foldl (fun t e => t.insert e.1 e.2) t).get? k = some a ↔
      (k, a) ∈ es ∨ k ∉ es.map Prod.fst ∧ t.get? k = some a := by
  induction es generalizing t with
  | nil => simp
  | cons e es ih =>
    obtain ⟨he, hes⟩ := List.nodup_cons.1 h
    rw [List.foldl_cons, ih hes, get?_insert, List.map_cons, List.mem_cons, List.mem_cons]
    by_cases hk : k = e.1
    · subst hk
      have hno : (e.1, a) ∉ es := fun hm => he (List.mem_map.2 ⟨_, hm, rfl⟩)
      simp [hno, he, Prod.ext_iff, eq_comm]
    · have hne : (k, a) ≠ e := fun hke => hk (congrArg Prod.fst hke)
      simp [hk, hne]

/-- Entries with different keys are all found in the table of them, and nothing else is. -/
theorem get?_ofList [DecidableEq κ] [Std.Irrefl (· < · : κ → κ → Prop)] {es : List (κ × α)}
    (h : (es.map Prod.fst).Nodup) {k : κ} {a : α} : (ofList es).get? k = some a ↔ (k, a) ∈ es := by
  rw [ofList, get?_foldl h]
  simp

/-- A table is put together again from its entries. -/
theorem ofList_entries [DecidableEq κ] [Std.Irrefl (· < · : κ → κ → Prop)] (t : Table κ α) :
    ofList t.entries = t := by
  have hnodup : (t.entries.map Prod.fst).Nodup := by
    refine t.keys_ascending.imp ?_
    rintro a _ hlt rfl
    exact Std.Irrefl.irrefl (r := (· < · : κ → κ → Prop)) a hlt
  refine ext_get? fun k => Option.ext fun a => ?_
  rw [get?_ofList hnodup]
  exact ⟨get?_of_mem, mem_of_get?⟩

/-- A table does not depend on the order in which entries with different keys come in. -/
theorem ofList_perm [DecidableEq κ] [Std.Irrefl (· < · : κ → κ → Prop)] {es es' : List (κ × α)}
    (h : (es.map Prod.fst).Nodup) (hperm : es'.Perm es) : ofList es' = ofList es := by
  refine ext_get? fun k => Option.ext fun a => ?_
  rw [get?_ofList h, get?_ofList ((hperm.map Prod.fst).nodup_iff.2 h), hperm.mem_iff]

theorem entries_ofList [DecidableEq κ] [Std.Irrefl (· < · : κ → κ → Prop)] {es : List (κ × α)}
    (h : es.Pairwise fun a b => a.1 < b.1) : (ofList es).entries = es :=
  congrArg entries (ofList_entries ⟨es, h⟩)

end Table

end SiteBuild
