/-!
Matching at the head of a text: fixed words, words in any letter case, and the leftmost place where
a reader succeeds. A reader takes a text and gives the rest behind what it matched.
-/
namespace SiteBuild.Text

/-- The rest behind a word that the text starts with. -/
def after? [BEq α] (word s : List α) : Option (List α) :=
  if word.isPrefixOf s then some (s.drop word.length) else none

/-- The text in front of a word that it ends with. -/
def before? (word s : List Char) : Option (List Char) :=
  if word.isSuffixOf s then some (s.take (s.length - word.length)) else none

/-- Two letters that differ in case alone. A long `s` is a third form of `s`. -/
def sameLetter (a b : Char) : Bool :=
  let fold (c : Char) := if c = '\u017f' then 's' else if c = '\u212a' then 'k' else c.toLower
  fold a = fold b

/-- The rest behind a word that the text starts with in some letter case. -/
def afterAnyCase? : (word s : List Char) → Option (List Char)
  | [], s => some s
  | _ :: _, [] => none
  | w :: word, c :: s => if sameLetter w c then afterAnyCase? word s else none

/-- The leftmost place where `read` succeeds: the text in front of it, and the result there. -/
def leftmost? (read : List Char → Option α) : List Char → Option (List Char × α)
  | [] => (read []).map ([], ·)
  | c :: s =>
    match read (c :: s) with
    | some a => some ([], a)
    | none => (leftmost? read s).map fun (front, a) => (c :: front, a)

/-- The text in front of a suffix of it. -/
def front (s rest : List Char) : List Char := s.take (s.length - rest.length)

theorem length_dropWhile_le (p : Char → Bool) (s : List Char) :
    (s.dropWhile p).length ≤ s.length :=
  (List.dropWhile_suffix p).length_le

theorem after?_append [BEq α] [LawfulBEq α] (word s : List α) : after? word (word ++ s) = some s := by
  simp [after?]

theorem append_of_after? [BEq α] [LawfulBEq α] {word s rest : List α} (h : after? word s = some rest) :
    word ++ rest = s := by
  unfold after? at h
  split at h
  · next hp =>
    obtain ⟨t, rfl⟩ := List.isPrefixOf_iff_prefix.1 hp
    simp at h
    rw [h]
  · simp at h

theorem before?_append (s word : List Char) : before? word (s ++ word) = some s := by
  simp [before?]

theorem append_of_before? {word s rest : List Char} (h : before? word s = some rest) :
    rest ++ word = s := by
  unfold before? at h
  split at h
  · next hs =>
    obtain ⟨t, rfl⟩ := List.isSuffixOf_iff_suffix.1 hs
    simp at h
    rw [h]
  · simp at h

theorem afterAnyCase?_suffix {word s rest : List Char} (h : afterAnyCase? word s = some rest) :
    rest <:+ s := by
  fun_induction afterAnyCase? word s with
  | case1 s => simp at h; exact h ▸ List.suffix_refl _
  | case2 => simp at h
  | case3 w word c s _ ih => exact (ih h).trans (List.suffix_cons c s)
  | case4 => simp at h

theorem front_append {s rest : List Char} (h : rest <:+ s) : front s rest ++ rest = s := by
  obtain ⟨t, rfl⟩ := h
  simp [front]

@[simp] theorem front_append_left (t rest : List Char) : front (t ++ rest) rest = t := by
  simp [front]

theorem leftmost?_front {read : List Char → Option α} {s front : List Char} {a : α}
    (h : leftmost? read s = some (front, a)) : ∃ rest, s = front ++ rest ∧ read rest = some a := by
  induction s generalizing front with
  | nil =>
    simp [leftmost?] at h
    obtain ⟨h, rfl⟩ := h
    exact ⟨[], rfl, h⟩
  | cons c s ih =>
    unfold leftmost? at h
    split at h
    · next b hb =>
      simp at h
      obtain ⟨rfl, rfl⟩ := h
      exact ⟨c :: s, rfl, hb⟩
    · simp at h
      obtain ⟨f, h, rfl⟩ := h
      obtain ⟨rest, rfl, hr⟩ := ih h
      exact ⟨rest, rfl, hr⟩

end SiteBuild.Text
