import SiteBuild.Page.Script
import SiteBuild.Proofs.Embed.Names
import SiteBuild.Proofs.Text.Match

/-! How the words of a tag are found in its attributes. A word is looked for wherever one can start, and
that is also behind a hyphen and within a value. -/

namespace SiteBuild.Page

variable {α : Type} {read : List Char → Option α} {before : Option Char} {word x y u v s rest : List Char}
  {c : Char} {a : α}

/-! ## Places where a word can start -/

/-- Behind the first of two parts of a text a word starts. -/
def StartsWord (before : Option Char) (u v : List Char) : Prop :=
  (∃ c ∈ v.head?, Text.isWordChar c = true) ∧ ∀ c ∈ u.getLast?.or before, Text.isWordChar c = false

/-- What is found in the first of two parts of a text, where a word starts in it. -/
def atWordIn? (read : List Char → Option α) (before : Option Char) : (x y : List Char) → Option α
  | [], _ => none
  | c :: x, y =>
    let boundary := Text.isWordChar c && !before.any Text.isWordChar
    (if boundary then read (c :: (x ++ y)) else none).or (atWordIn? read (some c) x y)

theorem getLast?_cons_or (c : Char) (u : List Char) (before : Option Char) :
    (c :: u).getLast?.or before = u.getLast?.or (some c) := by
  rw [List.getLast?_cons]
  cases u.getLast? <;> rfl

theorem atWord?_append (x y : List Char) : atWord? read before (x ++ y) =
    (atWordIn? read before x y).or (atWord? read (x.getLast?.or before) y) := by
  induction x generalizing before with
  | nil => rfl
  | cons c x ih =>
    rw [List.cons_append, atWord?, atWordIn?, ih, getLast?_cons_or, Option.or_assoc]

theorem atWord?_cons_of_not_isWordChar (hc : Text.isWordChar c = false) :
    atWord? read before (c :: s) = atWord? read (some c) s := by
  simp [atWord?, hc]

theorem startsWord_cons : StartsWord before (c :: u) v ↔ StartsWord (some c) u v := by
  rw [StartsWord, StartsWord, getLast?_cons_or]

theorem exists_of_atWordIn? (h : atWordIn? read before x y = some a) :
    ∃ u v, x = u ++ v ∧ StartsWord before u v ∧ read (v ++ y) = some a := by
  induction x generalizing before with
  | nil => cases h
  | cons c x ih =>
    rw [atWordIn?, Option.or_eq_some_iff] at h
    rcases h with h | ⟨-, h⟩
    · split at h
      · next hb =>
        rw [Bool.and_eq_true, Bool.not_eq_true'] at hb
        refine ⟨[], c :: x, rfl, ⟨⟨c, rfl, hb.1⟩, fun d hd => ?_⟩, h⟩
        obtain rfl : before = some d := by simpa using hd
        simpa using hb.2
      · cases h
    · obtain ⟨u, v, rfl, hstart, hread⟩ := ih h
      exact ⟨c :: u, v, rfl, startsWord_cons.2 hstart, hread⟩

theorem atWordIn?_ne_none (hstart : StartsWord before u v) (hread : read (v ++ y) ≠ none) :
    atWordIn? read before (u ++ v) y ≠ none := by
  induction u generalizing before with
  | nil =>
    obtain ⟨⟨c, hc, hword⟩, hbefore⟩ := hstart
    cases v with
    | nil => cases hc
    | cons d v =>
      obtain rfl : d = c := by simpa using hc
      have hb : (Text.isWordChar d && !before.any Text.isWordChar) = true := by
        cases before with
        | none => simpa using hword
        | some b => simpa [hword] using hbefore b (by simp)
      rw [List.nil_append, atWordIn?, if_pos hb]
      rw [List.cons_append] at hread
      simp [hread]
  | cons c u ih =>
    rw [List.cons_append, atWordIn?]
    have := ih (startsWord_cons.1 hstart)
    simp [this]

/-- What is found in the first part of a text, if all places where a word starts give the same or nothing. -/
theorem atWordIn?_eq {r : Option α}
    (hread : ∀ u v, x = u ++ v → StartsWord before u v → read (v ++ y) = none ∨ read (v ++ y) = r)
    (hsome : r ≠ none → ∃ u v, x = u ++ v ∧ StartsWord before u v ∧ read (v ++ y) = r) :
    atWordIn? read before x y = r := by
  cases h : atWordIn? read before x y with
  | none =>
    by_contra hne
    obtain ⟨u, v, rfl, hstart, heq⟩ := hsome (Ne.symm hne)
    exact atWordIn?_ne_none hstart (heq ▸ Ne.symm hne) h
  | some a =>
    obtain ⟨u, v, hx, hstart, ha⟩ := exists_of_atWordIn? h
    rcases hread u v hx hstart with hnone | hr
    · cases ha.symm.trans hnone
    · exact ha.symm.trans hr

/-! ## Words with a sign of equality behind them -/

theorem afterAttribute?_eq_some_iff : afterAttribute? word s = some rest ↔
    ∃ name gap behind, s = name ++ gap ++ '=' :: behind ∧ Text.Spells word name ∧
      (∀ c ∈ gap, Text.isBlank c = true) ∧ rest = Text.trimStart behind := by
  unfold afterAttribute?
  simp only [Option.bind_eq_bind, Option.bind_eq_some_iff, Text.afterAnyCase?_eq_some_iff, Option.pure_def,
    Option.some.injEq]
  constructor
  · rintro ⟨_, ⟨name, hname, rfl⟩, behind, hsign, rfl⟩
    obtain ⟨gap, hgap, rfl⟩ := (Text.after?_dropWhile_eq_some_iff (by decide)).1 hsign
    exact ⟨name, gap, behind, (List.append_assoc _ _ _).symm, hname, hgap, rfl⟩
  · rintro ⟨name, gap, behind, rfl, hname, hgap, rfl⟩
    exact ⟨gap ++ '=' :: behind, ⟨name, hname, List.append_assoc _ _ _⟩, behind,
      (Text.after?_dropWhile_eq_some_iff (by decide)).2 ⟨gap, hgap, rfl⟩, rfl⟩

theorem exists_of_append_eq {z : List Char} (hx : c ∉ x) (h : v ++ c :: z = x ++ y) :
    ∃ w, v = x ++ w ∧ y = w ++ c :: z := by
  rcases List.append_eq_append_iff.1 h with ⟨u, rfl, hu⟩ | ⟨u, rfl, hu⟩
  · cases u with
    | nil => exact ⟨[], by simp, by simpa using hu.symm⟩
    | cons d u =>
      obtain rfl := (List.cons.inj hu).1
      simp at hx
  · exact ⟨u, rfl, hu⟩

theorem append_cons_inj {s t : List Char} (hx : c ∉ x) (hy : c ∉ y) (h : x ++ c :: s = y ++ c :: t) :
    x = y ∧ s = t := by
  obtain ⟨w, rfl, hw⟩ := exists_of_append_eq hy h
  cases w with
  | nil => exact ⟨List.append_nil y, (List.cons.inj hw).2.symm⟩
  | cons d w =>
    obtain rfl := (List.cons.inj hw).1
    simp at hx

/-- A word that an attribute can be named, in small letters. -/
structure IsAttributeWord (word : List Char) : Prop where
  ne_nil : word ≠ []
  letters : ∀ w ∈ word, w.isAlpha = true
  lower : Text.IsLower word

/-- A name of letters and hyphens. -/
def IsAttributeName (name : List Char) : Prop := ∀ c ∈ name, c.isAlpha = true ∨ c = '-'

instance (name : List Char) : Decidable (IsAttributeName name) := List.decidableBAll _ name

namespace IsAttributeWord

/-- In no letter case such a word holds what is not a letter. -/
theorem not_mem (hword : IsAttributeWord word) (hthird : c ∉ Text.thirdForms)
    (hc : c.toLower.isAlpha = false) (h : Text.Spells word s) : c ∉ s := by
  refine h.not_mem (List.any_eq_false.2 fun w hw hsame => ?_)
  obtain ⟨hlower, hw'⟩ := hword.lower w hw
  have htwo := (Text.sameLetter_iff_toLower hlower hw' (.inr hthird)).1 hsame
  rw [htwo, hword.letters w hw] at hc
  cases hc

theorem spells_iff (hword : IsAttributeWord word) (hv : IsAttributeName v) :
    Text.Spells word v ↔ v.map Char.toLower = word := by
  refine Text.spells_iff_map_toLower hword.lower (.inr fun c hc hthird => ?_)
  simp only [Text.thirdForms, List.mem_cons, List.not_mem_nil, or_false] at hthird
  rcases hthird with rfl | rfl <;> exact absurd (hv _ hc) (by decide)

/-- In front of the sign of a printed attribute stands its whole name. -/
theorem afterAttribute?_name (hword : IsAttributeWord word) (hv : IsAttributeName v)
    (z : List Char) : afterAttribute? word (v ++ '=' :: '\x22' :: z) =
      if v.map Char.toLower = word then some ('\x22' :: z) else none := by
  by_cases h : v.map Char.toLower = word
  · rw [if_pos h]
    exact afterAttribute?_eq_some_iff.2
      ⟨v, [], '\x22' :: z, by simp, (hword.spells_iff hv).2 h, by simp, rfl⟩
  · rw [if_neg h, Option.eq_none_iff_forall_ne_some]
    intro rest hrest
    obtain ⟨name, gap, behind, heq, hname, hgap, -⟩ := afterAttribute?_eq_some_iff.1 hrest
    have hsign : '=' ∉ v := fun h => absurd (hv _ h) (by decide)
    have hfront : '=' ∉ name ++ gap := by
      rw [List.mem_append, not_or]
      exact ⟨hword.not_mem (by decide) (by decide) hname, fun h => absurd (hgap _ h) (by decide)⟩
    obtain ⟨rfl, -⟩ := append_cons_inj hsign hfront heq
    cases gap with
    | nil =>
      rw [List.append_nil] at hv h
      exact h ((hword.spells_iff hv).1 hname)
    | cons c gap =>
      have hblank := hgap c List.mem_cons_self
      rcases hv c (by simp) with hc | rfl
      · rw [Script.isBlank_of_isAlphanum (by simp [Char.isAlphanum, hc])] at hblank
        cases hblank
      · exact absurd hblank (by decide)

theorem trimStart_append_quote (w z : List Char) :
    Text.trimStart (w ++ '\x22' :: z) = Text.trimStart w ++ '\x22' :: z := by
  unfold Text.trimStart
  induction w with
  | nil => rfl
  | cons c w ih =>
    rw [List.cons_append, List.dropWhile_cons, List.dropWhile_cons]
    split
    · exact ih
    · rfl

/-- Within a value nothing is read of what stands behind it. -/
theorem afterAttribute?_value (hword : IsAttributeWord word) (hv : '\x22' ∉ v) (z : List Char) :
    afterAttribute? word (v ++ '\x22' :: z) = (afterAttribute? word v).map (· ++ '\x22' :: z) := by
  ext rest
  rw [Option.map_eq_some_iff]
  simp only [afterAttribute?_eq_some_iff]
  constructor
  · rintro ⟨name, gap, behind, heq, hname, hgap, rfl⟩
    have hfront : '\x22' ∉ name ++ gap ++ ['='] := by
      simp only [List.mem_append, not_or]
      exact ⟨⟨hword.not_mem (by decide) (by decide) hname, fun h => absurd (hgap _ h) (by decide)⟩, by decide⟩
    obtain ⟨w, rfl, rfl⟩ : ∃ w, v = name ++ gap ++ '=' :: w ∧ behind = w ++ '\x22' :: z := by
      obtain ⟨w, rfl, rfl⟩ := exists_of_append_eq hfront (heq.trans (List.append_cons _ _ _))
      exact ⟨w, by simp, rfl⟩
    exact ⟨_, ⟨name, gap, w, rfl, hname, hgap, rfl⟩, (trimStart_append_quote w z).symm⟩
  · rintro ⟨_, ⟨name, gap, behind, rfl, hname, hgap, rfl⟩, rfl⟩
    exact ⟨name, gap, behind ++ '\x22' :: z, by simp, hname, hgap, (trimStart_append_quote _ _).symm⟩

theorem isWordChar_of_thirdForm : ∀ c ∈ Text.thirdForms, Text.isWordChar c = true :=
  List.all_eq_true.1 (by decide +kernel)

/-- Such a word, in any letter case, starts where a word can. -/
theorem isWordChar_head (hword : IsAttributeWord word) (h : Text.Spells word s) :
    ∃ c ∈ s.head?, Text.isWordChar c = true := by
  cases h with
  | nil => exact absurd rfl hword.ne_nil
  | @cons w c word s hc _ =>
    obtain ⟨hlower, hw⟩ := hword.lower w List.mem_cons_self
    refine ⟨c, rfl, ?_⟩
    by_cases hthird : c ∈ Text.thirdForms
    · exact isWordChar_of_thirdForm c hthird
    · have htwo := (Text.sameLetter_iff_toLower hlower hw (.inr hthird)).1 hc
      have halpha : c.isAlpha = true :=
        Text.isAlpha_of_toLower (htwo ▸ hword.letters w List.mem_cons_self)
      exact Text.isWordChar_of_isAlphanum (by simp [Char.isAlphanum, halpha])

end IsAttributeWord

theorem isAttributeWord_type : IsAttributeWord "type".toList where
  ne_nil := by decide
  letters := List.all_eq_true.1 (by decide)
  lower := by decide

theorem isAttributeWord_src : IsAttributeWord "src".toList where
  ne_nil := by decide
  letters := List.all_eq_true.1 (by decide)
  lower := by decide

/-! ## Attributes of a tag -/

/-- A value that can stand in quotes, within a tag. -/
def IsAttributeValue (value : List Char) : Prop := ∀ c ∈ value, c ∉ ['\x22', '\x27', '<', '>']

instance (value : List Char) : Decidable (IsAttributeValue value) := List.decidableBAll _ value

/-- An attribute as it is printed. -/
structure TagAttribute where
  name : List Char
  value : List Char
  name_plain : IsAttributeName name
  value_plain : IsAttributeValue value

/-- The word is a name, in any letter case, or it is its last part behind a hyphen. -/
def EndsInWord (word name : List Char) : Prop :=
  name.map Char.toLower = word ∨ '-' :: word <:+ name.map Char.toLower

instance (word name : List Char) : Decidable (EndsInWord word name) := inferInstanceAs (Decidable (_ ∨ _))

/-- A value holds the word, where one can start, with a sign of equality behind it, and then the rest. -/
def Mentions (word value rest : List Char) : Prop :=
  ∃ front name gap behind, value = front ++ (name ++ gap ++ '=' :: behind) ∧
    (∀ c ∈ front.getLast?, Text.isWordChar c = false) ∧ Text.Spells word name ∧
    (∀ c ∈ gap, Text.isBlank c = true) ∧ rest = Text.trimStart behind

namespace IsAttributeWord

variable {name value z : List Char} {k : List Char → Option α}

theorem endsInWord_iff (hword : IsAttributeWord word) (hname : IsAttributeName name) :
    EndsInWord word name ↔
      ∃ u v, name = u ++ v ∧ StartsWord (some ' ') u v ∧ v.map Char.toLower = word := by
  constructor
  · intro h
    have hhead {v : List Char} (hv : ∀ c ∈ v, c ∈ name) (h : v.map Char.toLower = word) :
        ∃ c ∈ v.head?, Text.isWordChar c = true :=
      hword.isWordChar_head ((hword.spells_iff fun c hc => hname c (hv c hc)).2 h)
    rcases h with h | ⟨p, h⟩
    · exact ⟨[], name, rfl, ⟨hhead (fun _ => id) h, by simp; decide⟩, h⟩
    · obtain ⟨u, t, rfl, -, ht⟩ := List.map_eq_append_iff.1 h.symm
      obtain ⟨c, v, rfl, hc, hv⟩ := List.map_eq_cons_iff.1 ht
      obtain rfl := Text.eq_of_toLower_eq hc (by decide)
      refine ⟨u ++ ['-'], v, by simp, ⟨hhead (fun c hc => by simp [hc]) hv, ?_⟩, hv⟩
      simp
      decide
  · rintro ⟨u, v, rfl, hstart, hv⟩
    rcases List.eq_nil_or_concat u with rfl | ⟨u, c, rfl⟩
    · exact .inl hv
    · refine .inr ⟨u.map Char.toLower, ?_⟩
      have hc : Text.isWordChar c = false := hstart.2 c (by simp)
      rcases hname c (by simp) with h | rfl
      · rw [Text.isWordChar_of_isAlphanum (by simp [Char.isAlphanum, h])] at hc
        cases hc
      · simp [hv]

/-- In the name of an attribute a word is found that it ends in. -/
theorem atWordIn?_name (hword : IsAttributeWord word) (hname : IsAttributeName name)
    (z : List Char) :
    atWordIn? (fun s => (afterAttribute? word s).bind k) (some ' ') name ('=' :: '\x22' :: z) =
      if EndsInWord word name then k ('\x22' :: z) else none := by
  have hread {u v : List Char} (hv : name = u ++ v) :
      (afterAttribute? word (v ++ '=' :: '\x22' :: z)).bind k =
        if v.map Char.toLower = word then k ('\x22' :: z) else none := by
    rw [hword.afterAttribute?_name (fun c hc => hname c (by simp [hv, hc]))]
    split <;> rfl
  refine atWordIn?_eq (fun u v hv hstart => ?_) fun hsome => ?_
  · rw [hread hv]
    by_cases h : v.map Char.toLower = word
    · exact .inr (by rw [if_pos h, if_pos ((hword.endsInWord_iff hname).2 ⟨u, v, hv, hstart, h⟩)])
    · exact .inl (if_neg h)
  · by_cases h : EndsInWord word name
    · obtain ⟨u, v, hv, hstart, hlower⟩ := (hword.endsInWord_iff hname).1 h
      exact ⟨u, v, hv, hstart, by rw [hread hv, if_pos hlower, if_pos h]⟩
    · exact absurd (if_neg h) hsome

theorem mentions_iff (hword : IsAttributeWord word) : Mentions word value rest ↔
    ∃ u v, value = u ++ v ∧ StartsWord (some '\x22') u v ∧ afterAttribute? word v = some rest := by
  constructor
  · rintro ⟨front, name, gap, behind, rfl, hfront, hname, hgap, rfl⟩
    refine ⟨front, _, rfl, ⟨?_, fun c hc => ?_⟩,
      afterAttribute?_eq_some_iff.2 ⟨name, gap, behind, rfl, hname, hgap, rfl⟩⟩
    · obtain ⟨c, hc, hchar⟩ := hword.isWordChar_head hname
      refine ⟨c, ?_, hchar⟩
      simp [List.head?_append, Option.mem_def.1 hc]
    · rcases Option.or_eq_some_iff.1 hc with h | ⟨-, h⟩
      · exact hfront c h
      · obtain rfl := Option.some.inj h
        decide
  · rintro ⟨front, v, rfl, ⟨-, hfront⟩, hread⟩
    obtain ⟨name, gap, behind, rfl, hname, hgap, rfl⟩ := afterAttribute?_eq_some_iff.1 hread
    exact ⟨front, name, gap, behind, rfl, fun c hc => hfront c (by simp [Option.mem_def.1 hc]), hname,
      hgap, rfl⟩

/-- In the value of an attribute a word is found that it mentions. -/
theorem exists_of_atWordIn?_value (hword : IsAttributeWord word) (hvalue : '\x22' ∉ value) {a : α}
    (h : atWordIn? (fun s => (afterAttribute? word s).bind k) (some '\x22') value ('\x22' :: z) =
      some a) : ∃ rest, Mentions word value rest ∧ k (rest ++ '\x22' :: z) = some a := by
  obtain ⟨u, v, rfl, hstart, hread⟩ := exists_of_atWordIn? h
  rw [hword.afterAttribute?_value (fun hv => hvalue (by simp [hv]))] at hread
  obtain ⟨_, hr, hk⟩ := Option.bind_eq_some_iff.1 hread
  obtain ⟨rest, hrest, rfl⟩ := Option.map_eq_some_iff.1 hr
  exact ⟨rest, hword.mentions_iff.2 ⟨u, v, rfl, hstart, hrest⟩, hk⟩

theorem atWordIn?_value_ne_none (hword : IsAttributeWord word) (hvalue : '\x22' ∉ value)
    (hrest : Mentions word value rest) (hk : k (rest ++ '\x22' :: z) ≠ none) :
    atWordIn? (fun s => (afterAttribute? word s).bind k) (some '\x22') value ('\x22' :: z) ≠ none := by
  obtain ⟨u, v, rfl, hstart, hread⟩ := hword.mentions_iff.1 hrest
  refine atWordIn?_ne_none hstart ?_
  rw [hword.afterAttribute?_value (fun hv => hvalue (by simp [hv])), hread]
  exact hk

end IsAttributeWord

namespace TagAttribute

variable {z : List Char} {k : List Char → Option α}

def print (a : TagAttribute) : List Char := ' ' :: a.name ++ '=' :: '\x22' :: a.value ++ ['\x22']

theorem quote_not_mem (a : TagAttribute) : '\x22' ∉ a.value := fun h => by simpa using a.value_plain _ h

/-- A word is looked for in the name of an attribute, then in its value, then behind it. -/
theorem atWord?_print (hword : IsAttributeWord word) (a : TagAttribute) (z : List Char) :
    let read := fun s => (afterAttribute? word s).bind k
    atWord? read before (a.print ++ z) =
      (if EndsInWord word a.name then k ('\x22' :: (a.value ++ '\x22' :: z)) else none).or
        ((atWordIn? read (some '\x22') a.value ('\x22' :: z)).or (atWord? read (some '\x22') z)) := by
  intro read
  have hprint : a.print ++ z =
      ' ' :: (a.name ++ '=' :: '\x22' :: (a.value ++ '\x22' :: z)) := by simp [print]
  rw [hprint, atWord?_cons_of_not_isWordChar (by decide), atWord?_append,
    hword.atWordIn?_name a.name_plain, atWord?_cons_of_not_isWordChar (by decide),
    atWord?_cons_of_not_isWordChar (by decide), atWord?_append, atWord?_cons_of_not_isWordChar (by decide)]

end TagAttribute

end SiteBuild.Page
