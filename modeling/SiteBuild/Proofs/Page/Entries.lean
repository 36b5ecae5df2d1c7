import Mathlib.Data.List.Pairwise
import SiteBuild.Proofs.Page.Attributes

/-! Which modules the script tags of a page start. Tags as they are printed are read by the words that are
found in them; where these are what the attributes say, the entries of the page are what its tags mean. -/

namespace SiteBuild.Page

variable {root page p : Path} {tag : List TagAttribute} {tags : List (List TagAttribute)}
  {before : Option Char} {value rest s z : List Char}

/-! ## What a tag is taken for -/

/-- The text begins with the word `module`, in any letter case. -/
def BeginsModule (s : List Char) : Prop := "module".toList <+: s.map Char.toLower

/-- A tag that is taken for that of a module: in it the word `type`, as a part of a name or in a value, has
a sign of equality and then the word `module` behind it. -/
def SaysModule (tag : List TagAttribute) : Prop :=
  ∃ a ∈ tag, EndsInWord "type".toList a.name ∧ BeginsModule a.value ∨
    ∃ rest, Mentions "type".toList a.value rest ∧ BeginsModule rest

/-- What is taken for the source of a tag. That is the value of its first attribute whose name ends in the
word `src`, if there is something in it; unless some value before ends in this word and a sign of equality.
Then it is what stands between this value and the next. -/
inductive Offers : List TagAttribute → List Char → Prop
  | value {a : TagAttribute} {as : List TagAttribute} (named : EndsInWord "src".toList a.name)
      (filled : a.value ≠ []) : Offers (a :: as) a.value
  | between {a b : TagAttribute} {as : List TagAttribute}
      (unfit : ¬(EndsInWord "src".toList a.name ∧ a.value ≠ []))
      (ends : Mentions "src".toList a.value []) : Offers (a :: b :: as) (' ' :: b.name ++ ['='])
  | later {a : TagAttribute} {as : List TagAttribute} {s : List Char}
      (unfit : ¬(EndsInWord "src".toList a.name ∧ a.value ≠ []))
      (quiet : ¬Mentions "src".toList a.value []) (offers : Offers as s) : Offers (a :: as) s

def printAttributes (tag : List TagAttribute) : List Char := tag.flatMap TagAttribute.print

/-! ### Modules -/

/-- The rest behind the word `module`, which may stand in quotes. -/
def afterModule? (s : List Char) : Option (List Char) :=
  Text.afterAnyCase? "module".toList (if s.head?.any isQuote then s.drop 1 else s)

theorem afterModuleType?_eq :
    afterModuleType? = fun s => (afterAttribute? "type".toList s).bind afterModule? := rfl

theorem afterAnyCase?_module_ne_none_iff :
    Text.afterAnyCase? "module".toList (value ++ '\x22' :: z) ≠ none ↔ BeginsModule value := by
  rw [Option.ne_none_iff_exists']
  simp only [Text.afterAnyCase?_eq_some_iff]
  constructor
  · rintro ⟨rest, name, hname, heq⟩
    obtain ⟨w, rfl, -⟩ := exists_of_append_eq (hname.not_mem (by decide)) heq
    have hlower := (Text.spells_iff_map_toLower (by decide) (.inl (by decide))).1 hname
    exact ⟨w.map Char.toLower, by rw [List.map_append, hlower]⟩
  · rintro ⟨t, ht⟩
    obtain ⟨name, w, rfl, hname, -⟩ := List.map_eq_append_iff.1 ht.symm
    exact ⟨w ++ '\x22' :: z, name,
      (Text.spells_iff_map_toLower (by decide) (.inl (by decide))).2 hname, List.append_assoc _ _ _⟩

theorem Mentions.subset {word : List Char} (h : Mentions word value rest) : rest ⊆ value := by
  obtain ⟨front, name, gap, behind, rfl, -, -, -, rfl⟩ := h
  intro c hc
  have := (Text.trimStart_suffix behind).subset hc
  simp [this]

theorem isQuote_of_mem_value {a : TagAttribute} {c : Char} (hc : c ∈ a.value) : isQuote c = false := by
  have h := a.value_plain c hc
  simp only [List.mem_cons, not_or] at h
  simp [isQuote, h.1, h.2.1]

theorem printAttributes_cons (a : TagAttribute) (as : List TagAttribute) :
    printAttributes (a :: as) = a.print ++ printAttributes as := List.flatMap_cons

theorem afterModule?_quoted_ne_none_iff :
    afterModule? ('\x22' :: (value ++ '\x22' :: z)) ≠ none ↔ BeginsModule value :=
  afterAnyCase?_module_ne_none_iff

/-- Behind the quote at the end of a value there is a blank if anything. -/
theorem afterModule?_quote_printAttributes (tag : List TagAttribute) :
    afterModule? ('\x22' :: printAttributes tag) = none := by
  cases tag with
  | nil => decide
  | cons b tag => rfl

theorem afterModule?_mentioned_ne_none_iff (hrest : ∀ c ∈ rest, isQuote c = false)
    (tag : List TagAttribute) :
    afterModule? (rest ++ '\x22' :: printAttributes tag) ≠ none ↔ BeginsModule rest := by
  cases rest with
  | nil =>
    refine iff_of_false (not_not.2 (afterModule?_quote_printAttributes tag)) ?_
    rw [BeginsModule, List.map_nil, List.prefix_nil]
    decide
  | cons c rest =>
    have hc : isQuote c = false := hrest c List.mem_cons_self
    have hsame : afterModule? (c :: rest ++ '\x22' :: printAttributes tag) =
        Text.afterAnyCase? "module".toList (c :: rest ++ '\x22' :: printAttributes tag) := by
      simp [afterModule?, hc]
    rw [hsame, afterAnyCase?_module_ne_none_iff]

theorem saysModule_cons {a : TagAttribute} : SaysModule (a :: tag) ↔
    (EndsInWord "type".toList a.name ∧ BeginsModule a.value ∨
      ∃ rest, Mentions "type".toList a.value rest ∧ BeginsModule rest) ∨ SaysModule tag := by
  simp only [SaysModule, List.exists_mem_cons_iff]

/-- A tag is taken for that of a module just if its attributes say so. -/
theorem atWord?_module_ne_none_iff (tag : List TagAttribute) :
    atWord? afterModuleType? before (printAttributes tag) ≠ none ↔ SaysModule tag := by
  induction tag generalizing before with
  | nil => exact iff_of_false (fun h => h rfl) (by simp [SaysModule])
  | cons a tag ih =>
    have hvalue : atWordIn? (fun s => (afterAttribute? "type".toList s).bind afterModule?) (some '\x22')
        a.value ('\x22' :: printAttributes tag) ≠ none ↔
          ∃ rest, Mentions "type".toList a.value rest ∧ BeginsModule rest := by
      have hquote {rest : List Char} (h : Mentions "type".toList a.value rest) :
          ∀ c ∈ rest, isQuote c = false := fun c hc => isQuote_of_mem_value (h.subset hc)
      constructor
      · intro h
        obtain ⟨x, hx⟩ := Option.ne_none_iff_exists'.1 h
        obtain ⟨rest, hrest, hk⟩ := isAttributeWord_type.exists_of_atWordIn?_value a.quote_not_mem hx
        refine ⟨rest, hrest, (afterModule?_mentioned_ne_none_iff (hquote hrest) tag).1 ?_⟩
        rw [hk]
        exact Option.some_ne_none x
      · rintro ⟨rest, hrest, hmodule⟩
        exact isAttributeWord_type.atWordIn?_value_ne_none a.quote_not_mem hrest
          ((afterModule?_mentioned_ne_none_iff (hquote hrest) tag).2 hmodule)
    rw [printAttributes_cons, afterModuleType?_eq, a.atWord?_print isAttributeWord_type, ne_eq,
      Option.or_eq_none_iff, Option.or_eq_none_iff, not_and_or, not_and_or, saysModule_cons, or_assoc]
    refine or_congr ?_ (or_congr hvalue ih)
    rw [ite_eq_right_iff, Classical.not_imp]
    exact and_congr_right fun _ => afterModule?_quoted_ne_none_iff

/-! ### Sources -/

/-- The text between two quotes of either kind, if there is some. -/
def quotedValue? (s : List Char) : Option (List Char) :=
  if s.head?.any isQuote then
    let value := (s.drop 1).takeWhile (!isQuote ·)
    if value.isEmpty || s.length = value.length + 1 then none else some value
  else none

theorem sourceValue?_eq : sourceValue? = fun s => (afterAttribute? "src".toList s).bind quotedValue? := rfl

theorem quotedValue?_quoted (hvalue : ∀ c ∈ value, isQuote c = false) (z : List Char) :
    quotedValue? ('\x22' :: (value ++ '\x22' :: z)) = if value = [] then none else some value := by
  have htake : (value ++ '\x22' :: z).takeWhile (!isQuote ·) = value :=
    Text.takeWhile_append_cons (fun c hc => by simp [hvalue c hc]) (by decide) z
  have hquote : isQuote '\x22' = true := by decide
  simp [quotedValue?, htake, hquote]

theorem offers_cons {a : TagAttribute} : Offers (a :: tag) s ↔
    (EndsInWord "src".toList a.name ∧ a.value ≠ []) ∧ s = a.value ∨
      ¬(EndsInWord "src".toList a.name ∧ a.value ≠ []) ∧
        ((Mentions "src".toList a.value [] ∧ ∃ b as, tag = b :: as ∧ s = ' ' :: b.name ++ ['=']) ∨
          ¬Mentions "src".toList a.value [] ∧ Offers tag s) := by
  constructor
  · rintro (⟨hn, hf⟩ | ⟨hu, he⟩ | ⟨hu, hq, ho⟩)
    · exact .inl ⟨⟨hn, hf⟩, rfl⟩
    · exact .inr ⟨hu, .inl ⟨he, _, _, rfl, rfl⟩⟩
    · exact .inr ⟨hu, .inr ⟨hq, ho⟩⟩
  · rintro (⟨⟨hn, hf⟩, rfl⟩ | ⟨hu, ⟨he, b, as, rfl, rfl⟩ | ⟨hq, ho⟩⟩)
    · exact .value hn hf
    · exact .between hu he
    · exact .later hu hq ho

/-- Behind the quote at the end of a value stands what comes before the next value. -/
theorem quotedValue?_quote_printAttributes (tag : List TagAttribute) :
    quotedValue? ('\x22' :: printAttributes tag) = some s ↔
      ∃ b as, tag = b :: as ∧ s = ' ' :: b.name ++ ['='] := by
  cases tag with
  | nil => simp [printAttributes, quotedValue?]
  | cons b as =>
    have hname : ∀ c ∈ ' ' :: b.name ++ ['='], isQuote c = false := by
      intro c hc
      simp only [List.cons_append, List.mem_cons, List.mem_append, List.not_mem_nil, or_false] at hc
      rcases hc with rfl | hc | rfl
      · decide
      · rcases b.name_plain c hc with h | rfl
        · rw [isQuote, Bool.or_eq_false_iff, decide_eq_false_iff_not, decide_eq_false_iff_not]
          constructor <;> rintro rfl <;> exact absurd h (by decide)
        · decide
      · decide
    have hprint : printAttributes (b :: as) =
        (' ' :: b.name ++ ['=']) ++ '\x22' :: (b.value ++ '\x22' :: printAttributes as) := by
      simp [printAttributes_cons, TagAttribute.print]
    rw [hprint, quotedValue?_quoted hname, if_neg (by simp), Option.some.injEq, eq_comm]
    constructor
    · rintro rfl
      exact ⟨b, as, rfl, rfl⟩
    · rintro ⟨_, _, heq, rfl⟩
      obtain ⟨rfl, rfl⟩ := List.cons.inj heq
      rfl

theorem atWordIn?_source_eq_some_iff (a : TagAttribute) (tag : List TagAttribute) :
    atWordIn? sourceValue? (some '\x22') a.value ('\x22' :: printAttributes tag) = some s ↔
      Mentions "src".toList a.value [] ∧ ∃ b as, tag = b :: as ∧ s = ' ' :: b.name ++ ['='] := by
  rw [← quotedValue?_quote_printAttributes, sourceValue?_eq]
  have hmention {x : List Char} (hx : atWordIn? (fun s => (afterAttribute? "src".toList s).bind
      quotedValue?) (some '\x22') a.value ('\x22' :: printAttributes tag) = some x) :
      Mentions "src".toList a.value [] ∧ quotedValue? ('\x22' :: printAttributes tag) = some x := by
    obtain ⟨rest, hrest, hk⟩ := isAttributeWord_src.exists_of_atWordIn?_value a.quote_not_mem hx
    cases rest with
    | nil => exact ⟨hrest, hk⟩
    | cons c rest =>
      have hc : isQuote c = false := isQuote_of_mem_value (hrest.subset List.mem_cons_self)
      simp [quotedValue?, hc] at hk
  refine ⟨hmention, fun ⟨hends, hk⟩ => ?_⟩
  have hne := isAttributeWord_src.atWordIn?_value_ne_none a.quote_not_mem hends (k := quotedValue?)
    (z := printAttributes tag) (by rw [List.nil_append, hk]; exact Option.some_ne_none s)
  obtain ⟨x, hx⟩ := Option.ne_none_iff_exists'.1 hne
  rw [hx, ← hk]
  exact (hmention hx).2.symm

/-- The source that is found in a tag is what its attributes offer. -/
theorem atWord?_source_eq_some_iff (tag : List TagAttribute) :
    atWord? sourceValue? before (printAttributes tag) = some s ↔ Offers tag s := by
  induction tag generalizing before with
  | nil => exact iff_of_false (fun h => by cases h) fun h => by cases h
  | cons a tag ih =>
    have hname : (if EndsInWord "src".toList a.name then
        quotedValue? ('\x22' :: (a.value ++ '\x22' :: printAttributes tag)) else none) =
        if EndsInWord "src".toList a.name ∧ a.value ≠ [] then some a.value else none := by
      rw [quotedValue?_quoted fun c hc => isQuote_of_mem_value hc]
      by_cases h : a.value = [] <;> simp [h]
    rw [printAttributes_cons, sourceValue?_eq, a.atWord?_print isAttributeWord_src, hname, offers_cons,
      Option.or_eq_some_iff, Option.or_eq_some_iff, ← sourceValue?_eq, ih]
    by_cases hfit : EndsInWord "src".toList a.name ∧ a.value ≠ []
    · rw [if_pos hfit]
      simp only [Option.some.injEq, reduceCtorEq, false_and, or_false, hfit, true_and, and_true,
        not_true_eq_false, not_false_eq_true, ne_eq]
      exact eq_comm
    · rw [if_neg hfit, atWordIn?_source_eq_some_iff]
      simp only [reduceCtorEq, false_or, true_and, hfit, not_false_eq_true, false_and]
      -- behind the last attribute there is nothing to be offered, even if its value ends so
      refine or_congr_right (and_congr_left fun hoffers => ?_)
      obtain ⟨b, as, rfl⟩ := List.exists_cons_of_ne_nil (l := tag) (by rintro rfl; cases hoffers)
      rw [Option.eq_none_iff_forall_ne_some]
      simp only [ne_eq, atWordIn?_source_eq_some_iff, not_and]
      refine ⟨fun h hends => h _ hends ⟨b, as, rfl, rfl⟩, fun h _ hends => absurd hends h⟩

/-! ## Tags -/

def printOpen (tag : List TagAttribute) : List Char := "<script".toList ++ printAttributes tag

/-- Script tags as they are printed, one after the other. -/
def printTags (tags : List (List TagAttribute)) : List Char :=
  tags.flatMap fun tag => printOpen tag ++ "></script>".toList

theorem atWord?_source_printOpen (tag : List TagAttribute) :
    atWord? sourceValue? none (printOpen tag) = atWord? sourceValue? (some 't') (printAttributes tag) :=
  rfl

theorem not_mem_printAttributes (tag : List TagAttribute) {c : Char} (hc : c ∈ ['<', '>']) :
    c ∉ printAttributes tag := by
  obtain ⟨hblank, hsign, hquote, hletter, hvalue⟩ : c ≠ ' ' ∧ c ≠ '=' ∧ c ≠ '\x22' ∧
      ¬(c.isAlpha = true ∨ c = '-') ∧ c ∈ ['\x22', '\x27', '<', '>'] := by
    simp only [List.mem_cons, List.not_mem_nil, or_false] at hc
    rcases hc with rfl | rfl <;> decide
  intro h
  obtain ⟨a, -, ha⟩ := List.mem_flatMap.1 h
  have hname : c ∉ a.name := fun h => hletter (a.name_plain c h)
  have hvalue : c ∉ a.value := fun h => a.value_plain c h hvalue
  simp [TagAttribute.print, hblank, hsign, hquote, hname, hvalue] at ha

theorem moduleTag?_printOpen (tag : List TagAttribute) (z : List Char) :
    moduleTag? (printOpen tag ++ '>' :: z) =
      (atWord? afterModuleType? (some 't') (printAttributes tag)).map fun _ => printOpen tag := by
  have hend : '>' ∉ printAttributes tag := not_mem_printAttributes tag (by simp)
  have htake {s : List Char} (hs : '>' ∉ s) : (s ++ '>' :: z).takeWhile (· ≠ '>') = s :=
    Text.takeWhile_append_cons (fun c hc => by simpa using fun h : c = '>' => hs (h ▸ hc)) (by decide) z
  have hopen : Text.afterAnyCase? "<script".toList (printOpen tag ++ '>' :: z) =
      some (printAttributes tag ++ '>' :: z) := rfl
  have hbehind : (printAttributes tag ++ '>' :: z).head?.any Text.isWordChar = false := by
    have hsign : Text.isWordChar '>' = false := by decide
    have hblank : Text.isWordChar ' ' = false := by decide
    cases tag with
    | nil => simp [printAttributes, hsign]
    | cons b tag => simp [printAttributes_cons, TagAttribute.print, hblank]
  have hlength : (printAttributes tag).length ≠ (printAttributes tag ++ '>' :: z).length := by simp
  have hwhole : '>' ∉ printOpen tag := by
    unfold printOpen
    rw [List.mem_append, not_or]
    exact ⟨by decide, hend⟩
  simp only [moduleTag?, hopen, Option.bind_eq_bind, Option.bind_some, hbehind, Bool.false_eq_true,
    if_false, htake hend, htake hwhole, hlength, Option.pure_def]
  cases atWord? afterModuleType? (some 't') (printAttributes tag) <;> rfl

theorem moduleTag?_of_ne {c : Char} (hc : c ≠ '<') : moduleTag? (c :: s) = none := by
  have hletter : Text.sameLetter '<' c = true → c = '<' := fun h =>
    Text.eq_of_toLower_eq ((Text.sameLetter_iff_toLower (by decide) (by decide) (.inl (by decide))).1 h)
      (by decide)
  have hopen : Text.afterAnyCase? "<script".toList (c :: s) = none :=
    if_neg fun h => hc (hletter h)
  unfold moduleTag?
  rw [hopen]
  rfl

theorem moduleTags_append_of_not_mem (h : '<' ∉ s) : moduleTags 0 (s ++ z) = moduleTags 0 z := by
  induction s with
  | nil => rfl
  | cons c s ih =>
    rw [List.mem_cons, not_or] at h
    rw [List.cons_append, moduleTags, moduleTag?_of_ne (Ne.symm h.1)]
    exact ih h.2

theorem moduleTags_skip (s z : List Char) : moduleTags s.length (s ++ z) = moduleTags 0 z := by
  induction s with
  | nil => rfl
  | cons c s ih => exact ih

/-- One tag after the other is read, and nothing between them. -/
theorem moduleTags_printOpen (tag : List TagAttribute) (z : List Char) :
    moduleTags 0 (printOpen tag ++ "></script>".toList ++ z) =
      ((atWord? afterModuleType? (some 't') (printAttributes tag)).map fun _ => printOpen tag).toList ++
        moduleTags 0 z := by
  let body := "script".toList ++ printAttributes tag ++ ['>']
  let closing := "</script>".toList ++ z
  have hstart : "<script".toList = '<' :: "script".toList := by decide
  have hend : "></script>".toList = '>' :: "</script>".toList := by decide
  have hsplit : printOpen tag ++ '>' :: closing = '<' :: (body ++ closing) := by
    unfold printOpen
    rw [hstart]
    simp [body]
  have hlength : (printOpen tag).length = body.length := by
    unfold printOpen
    rw [hstart]
    simp [body]
  have hplain : '<' ∉ body := by
    simp only [body, List.mem_append, not_or]
    exact ⟨⟨by decide, not_mem_printAttributes tag (by simp)⟩, by decide⟩
  have hclosed : moduleTags 0 closing = moduleTags 0 z :=
    moduleTags_append_of_not_mem (s := "/script>".toList) (by decide)
  have hread := moduleTag?_printOpen tag closing
  rw [hend, List.append_assoc, List.cons_append, hsplit, moduleTags]
  rw [hsplit] at hread
  cases hmodule : atWord? afterModuleType? (some 't') (printAttributes tag) with
  | none =>
    rw [hmodule, Option.map_none] at hread
    rw [hread]
    exact (moduleTags_append_of_not_mem hplain).trans hclosed
  | some rest =>
    rw [hmodule, Option.map_some] at hread
    rw [hread]
    dsimp only
    rw [hlength, moduleTags_skip, hclosed]
    rfl

/-! ## Entries -/

/-- The entry that a page takes from one of its tags. -/
def taken? (root page : Path) (tag : List TagAttribute) : Option Path :=
  (atWord? afterModuleType? (some 't') (printAttributes tag)).bind fun _ =>
    (atWord? sourceValue? none (printOpen tag)).bind fun source =>
      resolveSource? root page (String.ofList source)

theorem moduleEntries_printTags (root page : Path) (tags : List (List TagAttribute)) :
    moduleEntries root page (String.ofList (printTags tags)) = tags.filterMap (taken? root page) := by
  unfold moduleEntries
  rw [String.toList_ofList]
  induction tags with
  | nil => rfl
  | cons tag tags ih =>
    have hprint : printTags (tag :: tags) = printOpen tag ++ "></script>".toList ++ printTags tags :=
      List.flatMap_cons
    rw [hprint, moduleTags_printOpen, List.filterMap_append, ih, List.filterMap_cons, taken?]
    cases atWord? afterModuleType? (some 't') (printAttributes tag) with
    | none => rfl
    | some rest =>
      rw [Option.map_some, Option.toList_some, Option.bind_some, List.filterMap_cons]
      cases (atWord? sourceValue? none (printOpen tag)).bind fun source =>
        resolveSource? root page (String.ofList source) <;> rfl

/-- A tag is taken for that of a module, and the source that it offers leads to the file. -/
def Takes (root page : Path) (tag : List TagAttribute) (p : Path) : Prop :=
  SaysModule tag ∧ ∃ s, Offers tag s ∧ resolveSource? root page (String.ofList s) = some p

theorem taken?_eq_some_iff : taken? root page tag = some p ↔ Takes root page tag p := by
  rw [taken?, Option.bind_eq_some_iff, atWord?_source_printOpen, Takes]
  simp only [Option.bind_eq_some_iff, atWord?_source_eq_some_iff, exists_and_right]
  rw [← Option.ne_none_iff_exists', atWord?_module_ne_none_iff]

/-- An attribute has the name, in any letter case. -/
def TagAttribute.IsNamed (word : List Char) (a : TagAttribute) : Prop := a.name.map Char.toLower = word

instance (word : List Char) (a : TagAttribute) : Decidable (a.IsNamed word) :=
  inferInstanceAs (Decidable (_ = _))

/-- A tag is that of a module by an attribute of its own. -/
def MeansModule (tag : List TagAttribute) : Prop :=
  ∃ a ∈ tag, a.IsNamed "type".toList ∧ a.value.map Char.toLower = "module".toList

instance (tag : List TagAttribute) : Decidable (MeansModule tag) :=
  inferInstanceAs (Decidable (∃ _ ∈ _, _))

/-- The value of an attribute is a source of the site. -/
def TagAttribute.IsSource (a : TagAttribute) : Prop :=
  a.IsNamed "src".toList ∧ a.value ≠ [] ∧ isRemote (String.ofList a.value) = false

instance (a : TagAttribute) : Decidable a.IsSource := inferInstanceAs (Decidable (_ ∧ _))

/-- The entry that a tag means. -/
def meant? (root page : Path) (tag : List TagAttribute) : Option Path :=
  if MeansModule tag then
    (tag.find? fun a => a.IsSource).bind fun a => resolveSource? root page (String.ofList a.value)
  else none

/-! ### Sources of the site -/

theorem isRemote_of_dropQuery {source : String} (h : isRemote (dropQuery source) = true) :
    isRemote source = true := by
  obtain ⟨w, hw, hbegins⟩ := List.any_eq_true.1 h
  rw [List.isPrefixOf_iff_prefix, dropQuery, String.toList_ofList] at hbegins
  exact List.any_eq_true.2
    ⟨w, hw, List.isPrefixOf_iff_prefix.2 (hbegins.trans (List.takeWhile_prefix _))⟩

theorem dropQuery_begins {w source : String} (hw : w.toList.all (fun c => c ≠ '?' && c ≠ '#') = true)
    (h : w.toList <+: source.toList) : w.toList <+: (dropQuery source).toList := by
  obtain ⟨t, ht⟩ := h
  rw [dropQuery, String.toList_ofList, ← ht, List.takeWhile_append_of_pos (List.all_eq_true.1 hw)]
  exact List.prefix_append _ _

theorem isSome_resolveLocal? {w source : String} (hlocal : isRemote source = false)
    (hw : w ∈ ["/", "./", "../"]) (hbegins : w.toList <+: source.toList) :
    (resolveLocal? root page source).isSome = true := by
  have hdropped : isRemote (dropQuery source) = false :=
    Bool.eq_false_iff.2 fun h => by simp [isRemote_of_dropQuery h] at hlocal
  have hkept : ∀ w ∈ ["/", "./", "../"], w.toList.all (fun c => c ≠ '?' && c ≠ '#') = true := by decide
  have hstart := List.isPrefixOf_iff_prefix.2 (dropQuery_begins (hkept w hw) hbegins)
  unfold resolveLocal?
  simp only [hdropped, Bool.false_eq_true, if_false]
  split
  · rfl
  · next hslash =>
    rw [if_pos]
    · rfl
    · simp only [List.mem_cons, List.not_mem_nil, or_false] at hw
      rcases hw with rfl | rfl | rfl
      · exact absurd hstart hslash
      · rw [hstart, Bool.true_or]
      · rw [hstart, Bool.or_true]

/-- Each source but those of another host leads to a file. -/
theorem isSome_resolveSource? (root page : Path) (source : String) :
    (resolveSource? root page source).isSome = !isRemote source := by
  unfold resolveSource?
  cases hremote : isRemote source with
  | true => simp
  | false =>
    simp only [Bool.false_eq_true, if_false, Bool.not_false]
    split
    · next h =>
      simp only [Bool.or_eq_true, List.isPrefixOf_iff_prefix] at h
      rcases h with (h | h) | h
      all_goals exact isSome_resolveLocal? hremote (by simp) h
    · refine isSome_resolveLocal? (w := "./") ?_ (by simp) ?_
      · simp [isRemote, List.isPrefixOf]
      · rw [String.toList_append]
        exact List.prefix_append _ _

/-- A tag means an entry just if it is that of a module and has a source of the site. -/
theorem isSome_meant?_iff :
    (meant? root page tag).isSome ↔ MeansModule tag ∧ ∃ a ∈ tag, a.IsSource := by
  unfold meant?
  split
  · next hmodule =>
    rw [and_iff_right hmodule]
    cases hfind : tag.find? fun a => a.IsSource with
    | none => simpa using hfind
    | some a =>
      have ha : a.IsSource := by simpa using List.find?_some hfind
      rw [Option.bind_some, isSome_resolveSource?, ha.2.2]
      exact iff_of_true rfl ⟨a, List.mem_of_find?_eq_some hfind, ha⟩
  · next hmodule => simp [hmodule]

theorem filterMap_singleton {α β : Type} (f : α → Option β) (a : α) :
    [a].filterMap f = (f a).toList := by
  rw [List.filterMap_cons]
  cases f a <;> rfl

/-- Each choice of some script tags gives the entries that they mean just if each of them is taken for what
it means. -/
theorem moduleEntries_printTags_iff (root page : Path) (tags : List (List TagAttribute)) :
    (∀ chosen, chosen.Sublist tags → moduleEntries root page (String.ofList (printTags chosen)) =
        chosen.filterMap (meant? root page)) ↔
      ∀ tag ∈ tags, ∀ p, Takes root page tag p ↔ meant? root page tag = some p := by
  simp only [moduleEntries_printTags, ← taken?_eq_some_iff]
  constructor
  · intro h tag htag p
    have hone := h [tag] (List.singleton_sublist.2 htag)
    rw [filterMap_singleton, filterMap_singleton] at hone
    rw [← Option.toList_eq_singleton_iff, hone, Option.toList_eq_singleton_iff]
  · intro h chosen hchosen
    refine List.filterMap_congr fun tag htag => Option.ext fun p => ?_
    exact h tag (hchosen.subset htag) p

/-! A page with a tag of no module, of which an attribute ends in the word `type`. -/

def dataType : List TagAttribute :=
  [⟨"data-type".toList, "module".toList, by decide, by decide⟩,
    ⟨"src".toList, "/a.js".toList, by decide, by decide⟩]

theorem takes_dataType :
    String.ofList (printTags [dataType]) = "<script data-type=\"module\" src=\"/a.js\"></script>" ∧
      moduleEntries ⟨"build"⟩ ⟨"build/index.html"⟩ (String.ofList (printTags [dataType])) =
        [⟨"build/a.js"⟩] ∧
      [dataType].filterMap (meant? ⟨"build"⟩ ⟨"build/index.html"⟩) = [] := by
  decide

/-! ### Plain tags -/

/-- Nothing in an attribute is taken for what it is not. -/
structure TagAttribute.IsPlain (a : TagAttribute) : Prop where
  type : EndsInWord "type".toList a.name → BeginsModule a.value →
    a.IsNamed "type".toList ∧ a.value.map Char.toLower = "module".toList
  source : EndsInWord "src".toList a.name → a.IsNamed "src".toList
  silent : ∀ rest, ¬Mentions "type".toList a.value rest ∧ ¬Mentions "src".toList a.value rest

theorem saysModule_iff_of_plain (hplain : ∀ a ∈ tag, a.IsPlain) : SaysModule tag ↔ MeansModule tag := by
  constructor
  · rintro ⟨a, ha, ⟨hname, hvalue⟩ | ⟨rest, hrest, -⟩⟩
    · exact ⟨a, ha, (hplain a ha).type hname hvalue⟩
    · exact absurd hrest ((hplain a ha).silent rest).1
  · rintro ⟨a, ha, hname, hvalue⟩
    refine ⟨a, ha, .inl ⟨.inl hname, ?_⟩⟩
    unfold BeginsModule
    exact hvalue ▸ List.prefix_rfl

/-- A plain tag offers the value of the attribute that is named so. -/
theorem offers_iff_of_plain (hplain : ∀ a ∈ tag, a.IsPlain)
    (hone : tag.Pairwise fun a b => ¬(a.IsNamed "src".toList ∧ b.IsNamed "src".toList)) :
    Offers tag s ↔ ∃ a ∈ tag, a.IsNamed "src".toList ∧ a.value ≠ [] ∧ s = a.value := by
  induction tag with
  | nil => exact iff_of_false (fun h => by cases h) (by simp)
  | cons a tag ih =>
    obtain ⟨ha, htag⟩ := List.forall_mem_cons.1 hplain
    obtain ⟨hother, hone⟩ := List.pairwise_cons.1 hone
    have hnamed : EndsInWord "src".toList a.name ↔ a.IsNamed "src".toList := ⟨ha.source, .inl⟩
    have hsilent : ¬Mentions "src".toList a.value [] := (ha.silent []).2
    rw [offers_cons, hnamed, ih htag hone, List.exists_mem_cons_iff, ← and_assoc]
    by_cases hfit : a.IsNamed "src".toList ∧ a.value ≠ []
    · have hnone : ¬∃ b ∈ tag, b.IsNamed "src".toList ∧ b.value ≠ [] ∧ s = b.value :=
        fun ⟨b, hb, hname, _⟩ => hother b hb ⟨hfit.1, hname⟩
      rw [or_iff_left hnone, or_iff_left fun h => h.1 hfit]
    · simp only [hfit, hsilent, false_and, false_or, not_false_eq_true, true_and]

/-- A tag whose attributes are plain, and of which one at most is named `src`, is taken for what it means. -/
theorem takes_iff_of_plain (hplain : ∀ a ∈ tag, a.IsPlain)
    (hone : tag.Pairwise fun a b => ¬(a.IsNamed "src".toList ∧ b.IsNamed "src".toList)) :
    Takes root page tag p ↔ meant? root page tag = some p := by
  have hunique {a b : TagAttribute} (ha : a ∈ tag) (hb : b ∈ tag) (hna : a.IsNamed "src".toList)
      (hnb : b.IsNamed "src".toList) : a = b := by
    by_contra hne
    have : Std.Symm fun a b : TagAttribute => ¬(a.IsNamed "src".toList ∧ b.IsNamed "src".toList) :=
      ⟨fun _ _ h hba => h hba.symm⟩
    exact hone.forall ha hb hne ⟨hna, hnb⟩
  rw [Takes, saysModule_iff_of_plain hplain, meant?]
  split
  · next hmodule =>
    rw [and_iff_right hmodule, Option.bind_eq_some_iff]
    simp only [offers_iff_of_plain hplain hone]
    constructor
    · rintro ⟨_, ⟨a, ha, hname, hfilled, rfl⟩, hp⟩
      have hlocal : isRemote (String.ofList a.value) = false := by
        have h := isSome_resolveSource? root page (String.ofList a.value)
        rw [hp] at h
        simpa using h
      cases hfind : tag.find? fun a => a.IsSource with
      | none =>
        have hnone : ¬a.IsSource := by simpa using List.find?_eq_none.1 hfind a ha
        exact absurd ⟨hname, hfilled, hlocal⟩ hnone
      | some b =>
        have hb : b.IsSource := by simpa using List.find?_some hfind
        obtain rfl := hunique ha (List.mem_of_find?_eq_some hfind) hname hb.1
        exact ⟨a, rfl, hp⟩
    · rintro ⟨a, hfind, hp⟩
      have ha : a.IsSource := by simpa using List.find?_some hfind
      exact ⟨a.value, ⟨a, List.mem_of_find?_eq_some hfind, ha.1, ha.2.1, rfl⟩, hp⟩
  · next hmodule => simp [hmodule]

end SiteBuild.Page
