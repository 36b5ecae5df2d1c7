/-!
Tables from keys to values, kept in the order of the keys. Looking up what was put in last gives it
back, and the order does not depend on how the table came about.
-/
namespace SiteBuild

/-! Texts come in the order of their characters. -/

instance ltTrans : @Trans String String String (· < ·) (· < ·) (· < ·) := ⟨String.lt_trans⟩

instance ltTrichotomous : @Std.Trichotomous String (· < ·) :=
  ⟨fun _ _ h h' => String.le_antisymm (String.not_lt.1 h') (String.not_lt.1 h)⟩

structure Table (κ : Type) [LT κ] (α : Type) where
  entries : List (κ × α)
  ascending : entries.Pairwise fun a b => a.1 < b.1

namespace Table

variable {κ α : Type}

/-- The value of the first entry under a key. -/
def find? [DecidableEq κ] (k : κ) (es : List (κ × α)) : Option α :=
  (es.find? fun e => e.1 = k).map Prod.snd

@[simp] theorem find?_nil [DecidableEq κ] (k : κ) : find? k ([] : List (κ × α)) = none := rfl

theorem find?_cons [DecidableEq κ] (k : κ) (e : κ × α) (es : List (κ × α)) :
    find? k (e :: es) = if e.1 = k then some e.2 else find? k es := by
  by_cases h : e.1 = k <;> simp [find?, h]

theorem eq_of_not_lt [LT κ] [Std.Trichotomous (· < · : κ → κ → Prop)] {a b : κ} (h : ¬a < b)
    (h' : ¬b < a) : a = b :=
  Std.Trichotomous.trichotomous (r := (· < · : κ → κ → Prop)) a b h h'

variable [LT κ]

def empty : Table κ α := ⟨[], .nil⟩

def keys (t : Table κ α) : List κ := t.entries.map Prod.fst

def filter (p : κ → Bool) (t : Table κ α) : Table κ α :=
  ⟨t.entries.filter fun e => p e.1, t.ascending.filter _⟩

section lookup

variable [DecidableEq κ]

def get? (t : Table κ α) (k : κ) : Option α := find? k t.entries

def erase (t : Table κ α) (k : κ) : Table κ α := t.filter (· ≠ k)

@[simp] theorem get?_empty (k : κ) : (empty : Table κ α).get? k = none := rfl

theorem get?_filter (t : Table κ α) (p : κ → Bool) (k : κ) :
    (t.filter p).get? k = if p k then t.get? k else none := by
  simp only [get?, filter]
  induction t.entries with
  | nil => simp
  | cons e es ih =>
    by_cases hk : e.1 = k
    · subst hk
      by_cases hp : p e.1 = true
      · simp [hp, find?_cons]
      · simp only [List.filter_cons, hp]
        simpa [hp] using ih
    · by_cases hp : p e.1 = true
      · simpa [hp, find?_cons, hk] using ih
      · simpa [hp, find?_cons, hk] using ih

@[simp] theorem get?_erase (t : Table κ α) (k k' : κ) :
    (t.erase k).get? k' = if k' = k then none else t.get? k' := by
  by_cases h : k' = k <;> simp [erase, get?_filter, h]

theorem mem_of_get? {t : Table κ α} {k : κ} {a : α} (h : t.get? k = some a) :
    (k, a) ∈ t.entries := by
  obtain ⟨e, he, rfl⟩ := Option.map_eq_some_iff.1 h
  have hk : e.1 = k := by simpa using List.find?_some he
  exact hk ▸ List.mem_of_find?_eq_some he

theorem get?_of_mem [Std.Irrefl (· < · : κ → κ → Prop)] {t : Table κ α} {k : κ} {a : α}
    (h : (k, a) ∈ t.entries) : t.get? k = some a := by
  obtain ⟨es, hs⟩ := t
  unfold get?
  induction es with
  | nil => simp at h
  | cons e es ih =>
    obtain ⟨he, hes⟩ := List.pairwise_cons.1 hs
    rw [find?_cons]
    rcases List.mem_cons.1 h with rfl | h
    · simp
    · have hlt : e.1 < k := he _ h
      have hk : e.1 ≠ k := fun hk =>
        Std.Irrefl.irrefl (r := (· < · : κ → κ → Prop)) k (by rwa [hk] at hlt)
      rw [if_neg hk]
      exact ih hes h

end lookup

section insertion

variable [DecidableLT κ]

/-- The entries with one more, in the place of one under the same key. -/
def insertEntry (k : κ) (a : α) : List (κ × α) → List (κ × α)
  | [] => [(k, a)]
  | (n, b) :: es =>
    if k < n then (k, a) :: (n, b) :: es
    else if n < k then (n, b) :: insertEntry k a es
    else (k, a) :: es

theorem mem_insertEntry {k : κ} {a : α} {es : List (κ × α)} {e : κ × α}
    (h : e ∈ insertEntry k a es) : e = (k, a) ∨ e ∈ es := by
  induction es with
  | nil => simpa [insertEntry] using h
  | cons b es ih =>
    unfold insertEntry at h
    split at h
    · simpa using h
    · split at h
      · rcases List.mem_cons.1 h with rfl | h
        · simp
        · exact (ih h).imp id (List.mem_cons_of_mem _)
      · rcases List.mem_cons.1 h with rfl | h
        · simp
        · exact .inr (List.mem_cons_of_mem _ h)

variable [Trans (· < · : κ → κ → Prop) (· < · : κ → κ → Prop) (· < · : κ → κ → Prop)]
  [Std.Trichotomous (· < · : κ → κ → Prop)]

theorem insertEntry_ascending {k : κ} {a : α} {es : List (κ × α)}
    (h : es.Pairwise fun a b => a.1 < b.1) :
    (insertEntry k a es).Pairwise fun a b => a.1 < b.1 := by
  induction es with
  | nil => simp [insertEntry]
  | cons b es ih =>
    obtain ⟨hb, hes⟩ := List.pairwise_cons.1 h
    unfold insertEntry
    split
    · next hn =>
      refine List.pairwise_cons.2 ⟨fun e he => ?_, h⟩
      rcases List.mem_cons.1 he with rfl | he
      · exact hn
      · exact Trans.trans hn (hb e he)
    · next hn =>
      split
      · next hn' =>
        refine List.pairwise_cons.2 ⟨fun e he => ?_, ih hes⟩
        rcases mem_insertEntry he with rfl | he
        · exact hn'
        · exact hb e he
      · next hn' =>
        obtain rfl := eq_of_not_lt hn hn'
        exact List.pairwise_cons.2 ⟨hb, hes⟩

def insert (t : Table κ α) (k : κ) (a : α) : Table κ α :=
  ⟨insertEntry k a t.entries, insertEntry_ascending t.ascending⟩

/-- The table of some entries; of two under one key the later counts. -/
def ofList (es : List (κ × α)) : Table κ α := es.foldl (fun t e => t.insert e.1 e.2) empty

@[simp] theorem get?_insert [DecidableEq κ] [Std.Irrefl (· < · : κ → κ → Prop)] (t : Table κ α)
    (k k' : κ) (a : α) : (t.insert k a).get? k' = if k' = k then some a else t.get? k' := by
  obtain ⟨es, hs⟩ := t
  simp only [get?, insert]
  induction es with
  | nil => simp [insertEntry, find?_cons, eq_comm]
  | cons e es ih =>
    obtain ⟨he, hes⟩ := List.pairwise_cons.1 hs
    have irrefl (k : κ) : ¬k < k := Std.Irrefl.irrefl (r := (· < · : κ → κ → Prop)) k
    unfold insertEntry
    split
    · simp [find?_cons, eq_comm]
    · next hn =>
      split
      · next hn' =>
        rw [find?_cons, find?_cons, ih hes]
        by_cases hk : e.1 = k'
        · subst hk
          have hk : e.1 ≠ k := fun hk => irrefl k (by rwa [hk] at hn')
          simp [hk]
        · simp [hk]
      · next hn' =>
        obtain rfl := eq_of_not_lt hn hn'
        rw [find?_cons, find?_cons]
        by_cases hk : e.1 = k'
        · simp [hk]
        · simp [hk, Ne.symm hk]

end insertion

/-- Tables that give the same for every key are one table. -/
theorem ext_get? [DecidableEq κ] [Std.Irrefl (· < · : κ → κ → Prop)]
    [Trans (· < · : κ → κ → Prop) (· < · : κ → κ → Prop) (· < · : κ → κ → Prop)]
    {s t : Table κ α} (h : ∀ k, s.get? k = t.get? k) : s = t := by
  have irrefl (k : κ) : ¬k < k := Std.Irrefl.irrefl (r := (· < · : κ → κ → Prop)) k
  have hmem (e : κ × α) : e ∈ s.entries ↔ e ∈ t.entries :=
    ⟨fun he => mem_of_get? ((h e.1).symm.trans (get?_of_mem he)),
      fun he => mem_of_get? ((h e.1).trans (get?_of_mem he))⟩
  have nodup (u : Table κ α) : u.entries.Nodup := by
    refine List.Pairwise.imp (fun {a b} hlt => ?_) u.ascending
    rintro rfl
    exact irrefl _ hlt
  obtain ⟨es, hs⟩ := s
  obtain ⟨fs, ht⟩ := t
  congr
  refine List.Perm.eq_of_pairwise (fun a b _ _ hlt hgt => ?_) hs ht
    ((List.perm_ext_iff_of_nodup (nodup ⟨es, hs⟩) (nodup ⟨fs, ht⟩)).2 hmem)
  exact absurd (Trans.trans hlt hgt) (irrefl a.1)

end Table

end SiteBuild
