import Mathlib.Data.List.Basic
import Mathlib.Tactic.IntervalCases
import SiteBuild.Json.Reader

/-! The text of a value is read as the value, whatever stands behind it. -/

namespace SiteBuild

theorem Text.hexDigit?_hexDigit {n : Nat} (h : n < 16) : hexDigit? (hexDigit n) = some n := by
  interval_cases n <;> rfl

namespace Json

/-! ## Texts -/

theorem Quoted.pushUnit_of_lt {c : Char} (h : c < ' ') (q : Quoted) :
    q.pushUnit c.toNat = q.push c := by
  have hn : c.toNat < 32 := h
  have hhigh : isHighHalf c.toNat = false := by simp [isHighHalf]; omega
  have hlow : isLowHalf c.toNat = false := by simp [isLowHalf]; omega
  simp [pushUnit, hhigh, hlow]

theorem hexValue?_escape {c : Char} (h : c < ' ') :
    Text.hexValue? ['0', '0', Text.hexDigit (c.toNat / 16), Text.hexDigit (c.toNat % 16)] =
      some c.toNat := by
  have hn : c.toNat < 32 := h
  have hhigh : Text.hexDigit? (Text.hexDigit (c.toNat / 16)) = some (c.toNat / 16) :=
    Text.hexDigit?_hexDigit (by omega)
  have hlow : Text.hexDigit? (Text.hexDigit (c.toNat % 16)) = some (c.toNat % 16) :=
    Text.hexDigit?_hexDigit (by omega)
  have hzero : Text.hexDigit? '0' = some 0 := rfl
  simp [Text.hexValue?, hhigh, hlow, hzero]
  omega

/-- A character is read back from the way it is written. -/
theorem readQuoted_escape (q : Quoted) (c : Char) (s : List Char) :
    readQuoted q (escape c ++ s) = readQuoted (q.push c) s := by
  unfold escape
  iterate 7
    split
    · next h => simp [readQuoted, unescape?, h]
  split
  · next h => simp [readQuoted, hexValue?_escape h, Quoted.pushUnit_of_lt h]
  · next hquote hslash _ _ _ _ _ hctl => simp [readQuoted, hquote, hslash, hctl]

theorem readQuoted_flatMap_escape (q : Quoted) (cs s : List Char) :
    readQuoted q (cs.flatMap escape ++ s) = readQuoted (cs.foldl Quoted.push q) s := by
  induction cs generalizing q with
  | nil => rfl
  | cons c cs ih => rw [List.flatMap_cons, List.append_assoc, readQuoted_escape, ih, List.foldl_cons]

theorem Quoted.foldl_push (cs chars : List Char) :
    cs.foldl push ⟨chars, false, none⟩ = ⟨cs.reverse ++ chars, false, none⟩ := by
  induction cs generalizing chars with
  | nil => rfl
  | cons c cs ih => simp [push, ih]

/-- Between its quotes a text is read back. -/
theorem readQuoted_quote (t : String) (s : List Char) :
    readQuoted ⟨[], false, none⟩ (t.toList.flatMap escape ++ '\x22' :: s) = .ok (some t, s) := by
  rw [readQuoted_flatMap_escape, Quoted.foldl_push]
  simp [readQuoted, Quoted.text?]

/-! ## Numbers -/

/-- No digit, fraction or exponent goes on with a number. -/
def EndsNumber (s : List Char) : Prop := ∀ c ∈ s.head?, !c.isDigit ∧ c ≠ '.' ∧ c ≠ 'e' ∧ c ≠ 'E'

theorem dropWhile_digits {ds s : List Char} (hds : ∀ c ∈ ds, c.isDigit) (hs : EndsNumber s) :
    (ds ++ s).dropWhile Char.isDigit = s := by
  rw [List.dropWhile_append_of_pos hds]
  cases s with
  | nil => rfl
  | cons c s => exact List.dropWhile_cons_of_neg (by simpa using (hs c rfl).1)

theorem isDigit_toDigits {n : Nat} : ∀ c ∈ Nat.toDigits 10 n, c.isDigit :=
  fun _ => Nat.isDigit_of_mem_toDigits (by decide) (by decide)

/-- No zero stands in front of other digits. -/
theorem toDigits_cons {n : Nat} {c : Char} {ds : List Char} (h : Nat.toDigits 10 n = c :: ds)
    (hc : c = '0') : ds = [] := by
  induction n using Nat.strong_induction_on generalizing ds with
  | h n ih =>
  by_cases hn : n < 10
  · rw [Nat.toDigits_of_lt_base hn] at h
    exact (List.cons.inj h).2.symm
  · rw [Nat.toDigits_of_base_le (by decide) (by omega)] at h
    obtain ⟨d, es, he⟩ := List.exists_cons_of_ne_nil (Nat.toDigits_ne_nil (n := n / 10) (b := 10))
    have hzero : Nat.ofDigitChars 10 (Nat.toDigits 10 (n / 10)) 0 = n / 10 :=
      Nat.ofDigitChars_toDigits (by decide) (by decide)
    rw [he] at h hzero
    obtain ⟨rfl, -⟩ := List.cons.inj h
    obtain rfl := ih (n / 10) (by omega) he
    subst hc
    have : n / 10 = 0 := hzero.symm
    omega

theorem dropDigit_toDigits {n : Nat} {c : Char} {ds s : List Char}
    (h : Nat.toDigits 10 n = c :: ds) (hs : EndsNumber s) : dropDigit c (ds ++ s) = .ok s := by
  have hds : ∀ d ∈ ds, d.isDigit := fun d hd => isDigit_toDigits d (h ▸ List.mem_cons_of_mem c hd)
  have hwhole : dropWhole c (ds ++ s) = .ok s := by
    unfold dropWhole
    split
    · next hc =>
      obtain rfl := toDigits_cons h hc
      cases s with
      | nil => rfl
      | cons d s =>
        have hd := (hs d rfl).1
        simp_all
    · rw [dropWhile_digits hds hs]
  have hfraction : dropFraction s = .ok s := by
    cases s with
    | nil => rfl
    | cons d s =>
      have hd := (hs d rfl).2.1
      simp [dropFraction, hd]
  have hexponent : dropExponent s = .ok s := by
    cases s with
    | nil => rfl
    | cons d s =>
      have hd := (hs d rfl).2.2
      simp [dropExponent, hd]
  rw [dropDigit, hwhole]
  simp [Except.bind, hfraction, hexponent]

theorem exists_write_number (n : Nat) : ∃ c ds, (number (toString n)).write = c :: ds ∧
    Nat.toDigits 10 n = c :: ds ∧ c.isDigit := by
  obtain ⟨c, ds, h⟩ := List.exists_cons_of_ne_nil (Nat.toDigits_ne_nil (n := n) (b := 10))
  refine ⟨c, ds, ?_, h, isDigit_toDigits c (h ▸ List.mem_cons_self)⟩
  rw [write, Nat.toString_eq_repr, Nat.repr_eq_ofList_toDigits, String.toList_ofList, h]

theorem readLeaf_number {n : Nat} {c : Char} {ds s : List Char} (h : Nat.toDigits 10 n = c :: ds)
    (hs : EndsNumber s) : readLeaf c (ds ++ s) = .ok (.number (toString n), s) := by
  have hc : c.isDigit := isDigit_toDigits c (h ▸ List.mem_cons_self)
  have hne : c ≠ '\x22' ∧ c ≠ 'n' ∧ c ≠ 't' ∧ c ≠ 'f' ∧ c ≠ '-' := by
    refine ⟨?_, ?_, ?_, ?_, ?_⟩
    all_goals · rintro rfl; exact absurd hc (by decide)
  have hliteral : String.ofList (Text.front (c :: (ds ++ s)) s) = toString n := by
    rw [← List.cons_append, Text.front_append_left, ← h, Nat.toString_eq_repr,
      Nat.repr_eq_ofList_toDigits]
  simp [readLeaf, hne, hc, dropDigit_toDigits h hs, Except.map, hliteral]

theorem readLeaf_text (t : String) (s : List Char) :
    readLeaf '\x22' (t.toList.flatMap escape ++ '\x22' :: s) = .ok (.text t, s) := by
  simp [readLeaf, readQuoted_quote, Except.map, ofQuoted?]

/-! ## Steps of the reader -/

/-- A text was read up to a rest. -/
def Gives {s : List Char} (x : Read α s) (a : α) (r : List Char) : Prop :=
  ∃ rest, x = .ok (a, rest) ∧ rest.val = r

theorem skipBlanks_of_not {c : Char} (h : isBlank c = false) (s : List Char) :
    skipBlanks (c :: s) = c :: s := List.dropWhile_cons_of_neg (by simp [h])

theorem quote_append (t : String) (s : List Char) :
    quote t ++ s = '\x22' :: (t.toList.flatMap escape ++ '\x22' :: s) := by
  simp [quote]

theorem readKey_quote (name : String) (s : List Char) :
    Gives (readKey (quote name ++ ':' :: s)) (some name) s := by
  have hs : skipBlanks (quote name ++ ':' :: s) =
      '\x22' :: (name.toList.flatMap escape ++ '\x22' :: ':' :: s) := by
    rw [quote_append]
    exact skipBlanks_of_not rfl _
  have hcolon : skipBlanks (':' :: s) = ':' :: s := skipBlanks_of_not rfl s
  have hq := readQuoted_quote name (':' :: s)
  unfold Gives readKey
  split
  · next t ht =>
    obtain rfl := (List.cons.inj (ht.symm.trans hs)).2
    split
    · next f hf => rw [hq] at hf; cases hf
    · next key r hr =>
      rw [hq] at hr
      cases hr
      split
      · next r' hr' =>
        obtain rfl := (List.cons.inj (hr'.symm.trans hcolon)).2
        exact ⟨_, rfl, rfl⟩
      · next hr' => exact absurd hcolon (hr' s)
  · next ht => exact absurd hs (ht _)

theorem readValue_leaf {s t r : List Char} {c : Char} {v : Json} (hs : skipBlanks s = c :: t)
    (harray : c ≠ '[') (hobject : c ≠ '{') (hv : readLeaf c t = .ok (v, r)) :
    Gives (readValue s) v r := by
  unfold Gives
  rw [readValue]
  split
  · next h => cases h.symm.trans hs
  · next c' t' h =>
    cases h.symm.trans hs
    rw [if_neg harray, if_neg hobject]
    split
    · next h' => cases h'.symm.trans hv
    · next h' =>
      cases h'.symm.trans hv
      exact ⟨_, rfl, rfl⟩

theorem readValue_nil_array {s t r : List Char} (hs : skipBlanks s = '[' :: t)
    (ht : skipBlanks t = ']' :: r) : Gives (readValue s) (.array []) r := by
  unfold Gives
  rw [readValue]
  split
  · next h => cases h.symm.trans hs
  · next h =>
    cases h.symm.trans hs
    rw [if_pos rfl]
    split
    · next h' =>
      cases h'.symm.trans ht
      exact ⟨_, rfl, rfl⟩
    · next h' => cases h'.symm.trans ht
    · next hne h' => exact (hne (List.cons.inj (h'.symm.trans ht)).1).elim

theorem readValue_array {s t r r' : List Char} {v : Json} {vs : List Json}
    (hs : skipBlanks s = '[' :: t) (ht : ∃ c u, skipBlanks t = c :: u ∧ c ≠ ']')
    (hv : Gives (readValue t) v r) (hvs : Gives (readItems r) vs r') :
    Gives (readValue s) (.array (v :: vs)) r' := by
  obtain ⟨c, u, ht, hc⟩ := ht
  obtain ⟨⟨r, hr⟩, hv, rfl⟩ := hv
  obtain ⟨⟨r', hr'⟩, hvs, rfl⟩ := hvs
  unfold Gives
  rw [readValue]
  split
  · next h => cases h.symm.trans hs
  · next h =>
    cases h.symm.trans hs
    rw [if_pos rfl]
    split
    · next h' => exact absurd (List.cons.inj (h'.symm.trans ht)).1.symm hc
    · next h' => cases h'.symm.trans ht
    · simp only [hv]
      simp only [hvs]
      exact ⟨_, rfl, rfl⟩

theorem readValue_nil_object {s t r : List Char} (hs : skipBlanks s = '{' :: t)
    (ht : skipBlanks t = '}' :: r) : Gives (readValue s) (.object []) r := by
  unfold Gives
  rw [readValue]
  split
  · next h => cases h.symm.trans hs
  · next h =>
    cases h.symm.trans hs
    rw [if_neg (by decide), if_pos rfl]
    split
    · next h' =>
      cases h'.symm.trans ht
      exact ⟨_, rfl, rfl⟩
    · next h' => cases h'.symm.trans ht
    · next hne h' => exact (hne (List.cons.inj (h'.symm.trans ht)).1).elim

theorem readValue_object {s t r r' r'' : List Char} {name : Option String} {v : Json}
    {ms : List (Option String × Json)} (hs : skipBlanks s = '{' :: t)
    (ht : ∃ c u, skipBlanks t = c :: u ∧ c ≠ '}') (hname : Gives (readKey t) name r)
    (hv : Gives (readValue r) v r') (hms : Gives (readMembers r') ms r'') :
    Gives (readValue s) (.object ((name, v) :: ms)) r'' := by
  obtain ⟨c, u, ht, hc⟩ := ht
  obtain ⟨⟨r, hr⟩, hname, rfl⟩ := hname
  obtain ⟨⟨r', hr'⟩, hv, rfl⟩ := hv
  obtain ⟨⟨r'', hr''⟩, hms, rfl⟩ := hms
  unfold Gives
  rw [readValue]
  split
  · next h => cases h.symm.trans hs
  · next h =>
    cases h.symm.trans hs
    rw [if_neg (by decide), if_pos rfl]
    split
    · next h' => exact absurd (List.cons.inj (h'.symm.trans ht)).1.symm hc
    · next h' => cases h'.symm.trans ht
    · simp only [hname]
      simp only [hv]
      simp only [hms]
      exact ⟨_, rfl, rfl⟩

theorem readItems_nil {s r : List Char} (hs : skipBlanks s = ']' :: r) :
    Gives (readItems s) [] r := by
  unfold Gives
  rw [readItems]
  split
  · next h =>
    cases h.symm.trans hs
    exact ⟨_, rfl, rfl⟩
  · next h => cases h.symm.trans hs
  · next hne _ => exact absurd hs (hne r)

theorem readItems_cons {s t r r' : List Char} {v : Json} {vs : List Json}
    (hs : skipBlanks s = ',' :: t) (ht : ∃ c u, skipBlanks t = c :: u ∧ c ≠ ']')
    (hv : Gives (readValue t) v r) (hvs : Gives (readItems r) vs r') :
    Gives (readItems s) (v :: vs) r' := by
  obtain ⟨c, u, ht, hc⟩ := ht
  obtain ⟨⟨r, hr⟩, hv, rfl⟩ := hv
  obtain ⟨⟨r', hr'⟩, hvs, rfl⟩ := hvs
  unfold Gives
  rw [readItems]
  split
  · next h => cases h.symm.trans hs
  · next h =>
    cases h.symm.trans hs
    simp only
    split
    · next h' => exact absurd (List.cons.inj (h'.symm.trans ht)).1.symm hc
    · simp only [hv]
      simp only [hvs]
      exact ⟨_, rfl, rfl⟩
  · next hne => exact absurd hs (hne t)

theorem readMembers_nil {s r : List Char} (hs : skipBlanks s = '}' :: r) :
    Gives (readMembers s) [] r := by
  unfold Gives
  rw [readMembers]
  split
  · next h =>
    cases h.symm.trans hs
    exact ⟨_, rfl, rfl⟩
  · next h => cases h.symm.trans hs
  · next hne _ => exact absurd hs (hne r)

theorem readMembers_cons {s t r r' r'' : List Char} {name : Option String} {v : Json}
    {ms : List (Option String × Json)} (hs : skipBlanks s = ',' :: t)
    (ht : ∃ c u, skipBlanks t = c :: u ∧ c ≠ '}') (hname : Gives (readKey t) name r)
    (hv : Gives (readValue r) v r') (hms : Gives (readMembers r') ms r'') :
    Gives (readMembers s) ((name, v) :: ms) r'' := by
  obtain ⟨c, u, ht, hc⟩ := ht
  obtain ⟨⟨r, hr⟩, hname, rfl⟩ := hname
  obtain ⟨⟨r', hr'⟩, hv, rfl⟩ := hv
  obtain ⟨⟨r'', hr''⟩, hms, rfl⟩ := hms
  unfold Gives
  rw [readMembers]
  split
  · next h => cases h.symm.trans hs
  · next h =>
    cases h.symm.trans hs
    simp only
    split
    · next h' => exact absurd (List.cons.inj (h'.symm.trans ht)).1.symm hc
    · simp only [hname]
      simp only [hv]
      simp only [hms]
      exact ⟨_, rfl, rfl⟩
  · next hne => exact absurd hs (hne t)

/-! ## Values -/

/-- A value that its text tells: counts are the only numbers, and nothing is broken. -/
inductive IsPlain : Json → Prop
  | null : IsPlain .null
  | bool (b : Bool) : IsPlain (.bool b)
  | count (n : Nat) : IsPlain (.number (toString n))
  | text (s : String) : IsPlain (.text s)
  | array {vs : List Json} (h : ∀ v ∈ vs, IsPlain v) : IsPlain (.array vs)
  | object {ms : List (Option String × Json)} (hnames : ∀ m ∈ ms, m.1.isSome)
      (h : ∀ m ∈ ms, IsPlain m.2) : IsPlain (.object ms)

theorem isBlank_of_isDigit {c : Char} (h : c.isDigit) : isBlank c = false := by
  simp only [isBlank, Bool.or_eq_false_iff, decide_eq_false_iff_not]
  refine ⟨⟨⟨?_, ?_⟩, ?_⟩, ?_⟩
  all_goals · rintro rfl; exact absurd h (by decide)

/-- A value's text starts with neither a blank nor a closing bracket. -/
theorem exists_write {v : Json} (hv : v.IsPlain) (s : List Char) :
    ∃ c u, skipBlanks (v.write ++ s) = c :: u ∧ c ≠ ']' ∧ c ≠ '}' := by
  have hstart : ∃ c u, v.write = c :: u ∧ isBlank c = false ∧ c ≠ ']' ∧ c ≠ '}' := by
    cases hv with
    | null => exact ⟨'n', _, rfl, by decide⟩
    | bool b => cases b <;> exact ⟨_, _, rfl, by decide⟩
    | count n =>
      obtain ⟨c, ds, hw, -, hc⟩ := exists_write_number n
      refine ⟨c, ds, hw, ?_, ?_, ?_⟩
      · exact isBlank_of_isDigit hc
      all_goals · rintro rfl; exact absurd hc (by decide)
    | text s => exact ⟨'\x22', _, rfl, by decide⟩
    | @array vs _ => cases vs <;> exact ⟨'[', _, rfl, by decide⟩
    | @object ms _ _ =>
      cases ms with
      | nil => exact ⟨'{', _, rfl, by decide⟩
      | cons m ms => exact ⟨'{', _, rfl, by decide⟩
  obtain ⟨c, u, hv, hc, hne⟩ := hstart
  exact ⟨c, u ++ s, by rw [hv, List.cons_append, skipBlanks_of_not hc], hne⟩

theorem skipBlanks_quote (name : String) (s : List Char) :
    ∃ c u, skipBlanks (quote name ++ s) = c :: u ∧ c ≠ '}' :=
  ⟨'\x22', _, by rw [quote_append]; exact skipBlanks_of_not rfl _, by decide⟩

theorem endsNumber_cons {c : Char} (h : c = ',' ∨ c = ']' ∨ c = '}') (s : List Char) :
    EndsNumber (c :: s) := by
  rintro _ ⟨⟩
  rcases h with rfl | rfl | rfl <;> decide

theorem exists_writeItems (vs : List Json) (s : List Char) :
    ∃ c u, writeItems vs ++ s = c :: u ∧ (c = ',' ∨ c = ']' ∨ c = '}') := by
  cases vs <;> simp [writeItems]

theorem exists_writeMembers (ms : List (Option String × Json)) (s : List Char) :
    ∃ c u, writeMembers ms ++ s = c :: u ∧ (c = ',' ∨ c = ']' ∨ c = '}') := by
  cases ms <;> simp [writeMembers]

/-- What the reader makes of a value's text, whatever stands behind it. -/
def IsReadBack (v : Json) : Prop :=
  ∀ s, EndsNumber s → Gives (readValue (v.write ++ s)) v s

theorem readItems_write {vs : List Json} (hvs : ∀ v ∈ vs, v.IsPlain) (h : ∀ v ∈ vs, v.IsReadBack)
    (s : List Char) : Gives (readItems (writeItems vs ++ s)) vs s := by
  induction vs with
  | nil => exact readItems_nil (skipBlanks_of_not rfl s)
  | cons v vs ih =>
    obtain ⟨hv, hvs⟩ := List.forall_mem_cons.1 hvs
    obtain ⟨h, hs⟩ := List.forall_mem_cons.1 h
    obtain ⟨c, u, hstart, hc, -⟩ := exists_write hv (writeItems vs ++ s)
    obtain ⟨c', u', hrest, hc'⟩ := exists_writeItems vs s
    have htext : writeItems (v :: vs) ++ s = ',' :: (v.write ++ (writeItems vs ++ s)) := by
      simp [writeItems]
    rw [htext]
    exact readItems_cons (skipBlanks_of_not rfl _) ⟨c, u, hstart, hc⟩
      (h _ (hrest ▸ endsNumber_cons hc' u')) (ih hvs hs)

theorem readMembers_write {ms : List (Option String × Json)} (hms : ∀ m ∈ ms, m.1.isSome)
    (h : ∀ m ∈ ms, m.2.IsReadBack) (s : List Char) :
    Gives (readMembers (writeMembers ms ++ s)) ms s := by
  induction ms with
  | nil => exact readMembers_nil (skipBlanks_of_not rfl s)
  | cons m ms ih =>
    obtain ⟨hname, hnames⟩ := List.forall_mem_cons.1 hms
    obtain ⟨h, hs⟩ := List.forall_mem_cons.1 h
    obtain ⟨name, v⟩ := m
    obtain ⟨name, rfl⟩ := Option.isSome_iff_exists.1 hname
    obtain ⟨c, u, hrest, hc⟩ := exists_writeMembers ms s
    have htext : writeMembers ((some name, v) :: ms) ++ s =
        ',' :: (quote name ++ ':' :: (v.write ++ (writeMembers ms ++ s))) := by
      simp [writeMembers]
    rw [htext]
    exact readMembers_cons (skipBlanks_of_not rfl _) (skipBlanks_quote name _)
      (readKey_quote name _) (h _ (hrest ▸ endsNumber_cons hc u)) (ih hnames hs)

/-- A plain value is read back from its text. -/
theorem IsPlain.isReadBack {v : Json} (hv : v.IsPlain) : v.IsReadBack := by
  intro s hs
  induction hv generalizing s with
  | null => exact readValue_leaf (skipBlanks_of_not rfl _) (by decide) (by decide) rfl
  | bool b =>
    cases b
    all_goals exact readValue_leaf (skipBlanks_of_not rfl _) (by decide) (by decide) rfl
  | count n =>
    obtain ⟨c, ds, hw, h, hc⟩ := exists_write_number n
    have hne : isBlank c = false ∧ c ≠ '[' ∧ c ≠ '{' := by
      refine ⟨?_, ?_, ?_⟩
      · exact isBlank_of_isDigit hc
      all_goals · rintro rfl; exact absurd hc (by decide)
    rw [hw, List.cons_append]
    exact readValue_leaf (skipBlanks_of_not hne.1 _) hne.2.1 hne.2.2 (readLeaf_number h hs)
  | text t =>
    rw [Json.write, quote_append]
    exact readValue_leaf (skipBlanks_of_not rfl _) (by decide) (by decide) (readLeaf_text t s)
  | @array vs h ih =>
    cases vs with
    | nil => exact readValue_nil_array (skipBlanks_of_not rfl _) (skipBlanks_of_not rfl _)
    | cons v vs =>
      obtain ⟨hv, hvs⟩ := List.forall_mem_cons.1 h
      obtain ⟨ihv, ihvs⟩ := List.forall_mem_cons.1 ih
      obtain ⟨c, u, hstart, hc, -⟩ := exists_write hv (writeItems vs ++ s)
      obtain ⟨c', u', hrest, hc'⟩ := exists_writeItems vs s
      have htext : (Json.array (v :: vs)).write ++ s = '[' :: (v.write ++ (writeItems vs ++ s)) := by
        simp [Json.write]
      rw [htext]
      exact readValue_array (skipBlanks_of_not rfl _) ⟨c, u, hstart, hc⟩
        (ihv _ (hrest ▸ endsNumber_cons hc' u')) (readItems_write hvs ihvs s)
  | @object ms hms h ih =>
    cases ms with
    | nil => exact readValue_nil_object (skipBlanks_of_not rfl _) (skipBlanks_of_not rfl _)
    | cons m ms =>
      obtain ⟨hname, hnames⟩ := List.forall_mem_cons.1 hms
      obtain ⟨ihv, ihms⟩ := List.forall_mem_cons.1 ih
      obtain ⟨name, v⟩ := m
      obtain ⟨name, rfl⟩ := Option.isSome_iff_exists.1 hname
      obtain ⟨c, u, hrest, hc⟩ := exists_writeMembers ms s
      have htext : (Json.object ((some name, v) :: ms)).write ++ s =
          '{' :: (quote name ++ ':' :: (v.write ++ (writeMembers ms ++ s))) := by
        simp [Json.write]
      rw [htext]
      exact readValue_object (skipBlanks_of_not rfl _) (skipBlanks_quote name _)
        (readKey_quote name _) (ihv _ (hrest ▸ endsNumber_cons hc u)) (readMembers_write hnames ihms s)

theorem readAll_of_gives {s : List Char} {v : Json} (h : Gives (readValue s) v []) :
    readAll s = .ok v := by
  obtain ⟨⟨r, hr⟩, h, rfl⟩ := h
  simp [readAll, h, skipBlanks]

/-- A plain value is what its text is parsed as. -/
theorem parse_toText {v : Json} (hv : v.IsPlain) : parse v.toText = .ok v := by
  have h := hv.isReadBack [] (by rintro _ ⟨⟩)
  rw [List.append_nil] at h
  rw [parse, toText, String.toList_ofList, readAll_of_gives h]
  rfl

end Json

end SiteBuild
