import SiteBuild.Page.Preload
import SiteBuild.Proofs.Page.Head
import SiteBuild.Proofs.Text.Match

/-! The seam of a page, where its head takes more. A page that takes a link keeps its seam: across the
edges of the link no tag of the head comes to be. -/

namespace SiteBuild.Page

open Text (Clear)

variable {p : List Char → Prop} {read : List Char → Option (List Char)}
  {s rest tag front pre post gap x y z : List Char} {c : Char}

/-! ## Tags of the head -/

/-- A closing tag of the head in any letter case. Blanks may stand in front of its end. -/
def IsHeadClose (tag : List Char) : Prop :=
  ∃ name gap, name.map Char.toLower = "</head".toList ∧ (∀ c ∈ gap, Text.isBlank c = true) ∧
    tag = name ++ gap ++ ['>']

/-- An opening tag of the head in any letter case. Behind a blank it holds anything up to the first `>`. -/
def IsHeadOpen (tag : List Char) : Prop :=
  ∃ name more, name.map Char.toLower = "<head".toList ∧ '>' ∉ more ∧
    (∀ c ∈ more.head?, Text.isBlank c = true) ∧ tag = name ++ more ++ ['>']

/-- A reader takes the tags of a kind. -/
def Reads (read : List Char → Option (List Char)) (p : List Char → Prop) : Prop :=
  ∀ s rest, read s = some rest ↔ ∃ tag, p tag ∧ s = tag ++ rest

theorem reads_headClose : Reads afterHeadClose? IsHeadClose := by
  intro s rest
  unfold afterHeadClose?
  rw [Option.bind_eq_some_iff]
  constructor
  · rintro ⟨behind, hbehind, hend⟩
    obtain ⟨name, hname, rfl⟩ := Text.afterAnyCase?_eq_some_iff.1 hbehind
    obtain ⟨gap, hgap, rfl⟩ := (Text.after?_dropWhile_eq_some_iff (by decide)).1 hend
    have hlower := (Text.spells_iff_map_toLower (by decide) (.inl (by decide))).1 hname
    exact ⟨name ++ gap ++ ['>'], ⟨name, gap, hlower, hgap, rfl⟩, by simp⟩
  · rintro ⟨tag, ⟨name, gap, hname, hgap, rfl⟩, rfl⟩
    have hspells := (Text.spells_iff_map_toLower (by decide) (.inl (by decide))).2 hname
    refine ⟨gap ++ '>' :: rest, Text.afterAnyCase?_eq_some_iff.2 ⟨name, hspells, by simp⟩, ?_⟩
    exact (Text.after?_dropWhile_eq_some_iff (by decide)).2 ⟨gap, hgap, rfl⟩

theorem reads_headOpen : Reads afterHeadOpen? IsHeadOpen := by
  intro s rest
  unfold afterHeadOpen?
  rw [Option.bind_eq_some_iff]
  constructor
  · rintro ⟨behind, hbehind, hend⟩
    obtain ⟨name, hname, rfl⟩ := Text.afterAnyCase?_eq_some_iff.1 hbehind
    have hlower := (Text.spells_iff_map_toLower (by decide) (.inl (by decide))).1 hname
    rcases Option.or_eq_some_iff.1 hend with hend | ⟨-, hend⟩
    · rw [← Text.append_of_after? hend]
      exact ⟨name ++ ['>'], ⟨name, [], hlower, by simp, by simp, by simp⟩, by simp⟩
    · split at hend
      · next hblank =>
        obtain ⟨more, hmore, rfl⟩ := (Text.after?_dropWhile_eq_some_iff (by decide)).1 hend
        refine ⟨name ++ more ++ ['>'], ⟨name, more, hlower, fun h => ?_, fun c hc => ?_, rfl⟩, by simp⟩
        · simpa using hmore _ h
        · rw [List.head?_append_of_ne_nil _ (List.ne_nil_of_mem (List.mem_of_mem_head? hc))] at hblank
          rw [Option.mem_def.1 hc] at hblank
          exact hblank
      · cases hend
  · rintro ⟨tag, ⟨name, more, hname, hmore, hblank, rfl⟩, rfl⟩
    have hspells := (Text.spells_iff_map_toLower (by decide) (.inl (by decide))).2 hname
    refine ⟨more ++ '>' :: rest, Text.afterAnyCase?_eq_some_iff.2 ⟨name, hspells, by simp⟩, ?_⟩
    cases more with
    | nil => simp [Text.after?]
    | cons c more =>
      have hc : Text.isBlank c = true := hblank c rfl
      have hne : c ≠ '>' := fun h => hmore (h ▸ List.mem_cons_self)
      have hnone : Text.after? ['>'] (c :: more ++ '>' :: rest) = none := by
        simp [Text.after?, hne.symm]
      rw [hnone, Option.none_or, if_pos (by simp [hc])]
      refine (Text.after?_dropWhile_eq_some_iff (by decide)).2 ⟨c :: more, fun d hd => ?_, rfl⟩
      simpa using fun h : d = '>' => hmore (h ▸ hd)

/-- A text begins with a tag of a kind. -/
def Leads (p : List Char → Prop) (s : List Char) : Prop := ∃ tag, p tag ∧ tag <+: s

namespace Reads

theorem ne_none_iff (h : Reads read p) : read s ≠ none ↔ Leads p s := by
  rw [Option.ne_none_iff_exists', Leads]
  simp only [h s]
  constructor
  · rintro ⟨rest, tag, htag, rfl⟩
    exact ⟨tag, htag, List.prefix_append _ _⟩
  · rintro ⟨tag, htag, rest, rfl⟩
    exact ⟨rest, tag, htag, rfl⟩

theorem clear_iff (h : Reads read p) : Clear (read · ≠ none) front rest ↔ Clear (Leads p) front rest :=
  Text.clear_congr fun _ => h.ne_none_iff

theorem leftmost?_eq_none (h : Reads read p) (hnil : read [] = none) (hclear : Clear (Leads p) s []) :
    Text.leftmost? read s = none :=
  Text.leftmost?_eq_none_iff.2 ⟨hnil, h.clear_iff.2 hclear⟩

end Reads

/-! ## The seam -/

/-- Where a page takes more: in front of the leftmost closing tag of its head; without one behind the
leftmost opening tag; and without this in front of everything. -/
inductive Seat
  | beforeClose
  | afterOpen
  | atFront
  deriving DecidableEq, Repr

/-- A page in two parts, cut where it takes more. -/
inductive Seam : Seat → List Char → List Char → Prop
  | beforeClose {pre post : List Char} (tag : Leads IsHeadClose post)
      (first : Clear (Leads IsHeadClose) pre post) : Seam .beforeClose pre post
  | afterOpen {front tag post : List Char} (unclosed : Clear (Leads IsHeadClose) (front ++ tag ++ post) [])
      (isOpen : IsHeadOpen tag) (first : Clear (Leads IsHeadOpen) front (tag ++ post)) :
      Seam .afterOpen (front ++ tag) post
  | atFront {post : List Char} (unclosed : Clear (Leads IsHeadClose) post [])
      (unopened : Clear (Leads IsHeadOpen) post []) : Seam .atFront [] post

theorem exists_seam (page : List Char) : ∃ seat pre post, Seam seat pre post ∧ page = pre ++ post := by
  cases hclose : Text.leftmost? afterHeadClose? page with
  | some found =>
    obtain ⟨post, rfl, hread, hfirst⟩ := Text.leftmost?_eq_some_iff.1 hclose
    obtain ⟨tag, htag, rfl⟩ := (reads_headClose _ _).1 hread
    exact ⟨_, _, _, .beforeClose ⟨tag, htag, List.prefix_append _ _⟩
      (reads_headClose.clear_iff.1 hfirst), rfl⟩
  | none =>
    have hunclosed := reads_headClose.clear_iff.1 (Text.leftmost?_eq_none_iff.1 hclose).2
    cases hopen : Text.leftmost? afterHeadOpen? page with
    | some found =>
      obtain ⟨s, rfl, hread, hfirst⟩ := Text.leftmost?_eq_some_iff.1 hopen
      obtain ⟨tag, htag, rfl⟩ := (reads_headOpen _ _).1 hread
      rw [← List.append_assoc] at hunclosed ⊢
      exact ⟨_, _, _, .afterOpen hunclosed htag (reads_headOpen.clear_iff.1 hfirst), rfl⟩
    | none =>
      have hunopened := reads_headOpen.clear_iff.1 (Text.leftmost?_eq_none_iff.1 hopen).2
      exact ⟨_, _, _, .atFront hunclosed hunopened, rfl⟩

/-- A page is cut at its seam, and at no other place. -/
theorem Seam.splitHead_append {seat : Seat} (h : Seam seat pre post) :
    splitHead (pre ++ post) = (pre, post) := by
  unfold splitHead
  cases h with
  | beforeClose htag hfirst =>
    obtain ⟨tag, htag, rest, rfl⟩ := htag
    have hclose : Text.leftmost? afterHeadClose? (pre ++ (tag ++ rest)) = some (pre, rest) :=
      Text.leftmost?_eq_some_iff.2 ⟨tag ++ rest, rfl, (reads_headClose _ _).2 ⟨tag, htag, rfl⟩,
        reads_headClose.clear_iff.2 hfirst⟩
    rw [hclose]
    exact Prod.ext rfl List.drop_left
  | @afterOpen front tag _ hunclosed htag hfirst =>
    have hopen : Text.leftmost? afterHeadOpen? (front ++ tag ++ post) = some (front, post) :=
      Text.leftmost?_eq_some_iff.2 ⟨tag ++ post, List.append_assoc _ _ _,
        (reads_headOpen _ _).2 ⟨tag, htag, rfl⟩, reads_headOpen.clear_iff.2 hfirst⟩
    rw [reads_headClose.leftmost?_eq_none rfl hunclosed, hopen]
    exact Prod.ext (Text.front_append_left _ _) rfl
  | atFront hunclosed hunopened =>
    rw [List.nil_append, reads_headClose.leftmost?_eq_none rfl hunclosed,
      reads_headOpen.leftmost?_eq_none rfl hunopened]

/-- A page has one seam. -/
theorem Seam.unique {seat seat' : Seat} {pre' post' : List Char} (h : Seam seat pre post)
    (h' : Seam seat' pre' post') (heq : pre ++ post = pre' ++ post') : pre = pre' ∧ post = post' := by
  have hcut := h.splitHead_append
  rw [heq, h'.splitHead_append] at hcut
  exact (Prod.mk.inj hcut).imp Eq.symm Eq.symm

/-! ## Tags beside a link -/

/-- What all tags of the head have in common, and no link has. -/
structure IsHeadTag (tag : List Char) : Prop where
  starts : ∃ c t, tag = '<' :: c :: t ∧ c ≠ 'l'
  ends : ∃ t, tag = t ++ ['>'] ∧ '>' ∉ t

theorem isHeadTag_of_name {name more word : List Char} {d : Char}
    (hname : name.map Char.toLower = '<' :: d :: word) (hd : d ≠ 'l') (hword : '>' ∉ d :: word)
    (hmore : '>' ∉ more) : IsHeadTag (name ++ more ++ ['>']) := by
  have hfree : '>' ∉ name := Text.not_mem_of_map_toLower hname (by simpa using hword)
  obtain ⟨a, t, rfl, ha, ht⟩ := List.map_eq_cons_iff.1 hname
  obtain ⟨b, t, rfl, hb, -⟩ := List.map_eq_cons_iff.1 ht
  obtain rfl := Text.eq_of_toLower_eq ha (by decide)
  refine ⟨⟨b, t ++ more ++ ['>'], rfl, ?_⟩, ⟨'<' :: b :: t ++ more, rfl, ?_⟩⟩
  · rintro rfl
    exact hd hb.symm
  · simp only [List.mem_append, not_or]
    exact ⟨hfree, hmore⟩

theorem IsHeadClose.isHeadTag (h : IsHeadClose tag) : IsHeadTag tag := by
  obtain ⟨name, gap, hname, hgap, rfl⟩ := h
  have hend : '>' ∉ gap := fun h => absurd (hgap _ h) (by decide)
  have hword : "</head".toList = '<' :: '/' :: "head".toList := by decide
  exact isHeadTag_of_name (hname.trans hword) (by decide) (by decide) hend

theorem IsHeadOpen.isHeadTag (h : IsHeadOpen tag) : IsHeadTag tag := by
  obtain ⟨name, more, hname, hmore, -, rfl⟩ := h
  have hword : "<head".toList = '<' :: 'h' :: "ead".toList := by decide
  exact isHeadTag_of_name (hname.trans hword) (by decide) (by decide) hmore

theorem IsHeadClose.not_mem_tail (h : IsHeadClose tag) : '<' ∉ tag.tail := by
  obtain ⟨name, gap, hname, hgap, rfl⟩ := h
  have hword : "</head".toList = '<' :: "/head".toList := by decide
  obtain ⟨c, t, rfl, -, ht⟩ := List.map_eq_cons_iff.1 (hname.trans hword)
  have hfree : '<' ∉ t := Text.not_mem_of_map_toLower ht (by decide)
  have hblank : '<' ∉ gap := fun h => absurd (hgap _ h) (by decide)
  simp [hfree, hblank]

theorem prefix_append_cases (h : x <+: y ++ z) : x <+: y ∨ ∃ u, u <+: z ∧ x = y ++ u := by
  rcases List.prefix_or_prefix_of_prefix h (List.prefix_append y z) with h' | ⟨u, rfl⟩
  · exact .inl h'
  · exact .inr ⟨u, (List.prefix_append_right_inj y).1 h, rfl⟩

/-- A prefix that does not hold a character behind its own first one ends in front of it. -/
theorem prefix_of_not_mem_tail (hc : c ∉ x.tail) (hy : y ≠ []) (h : x <+: y ++ c :: z) : x <+: y := by
  rcases prefix_append_cases h with h | ⟨u, hu, rfl⟩
  · exact h
  · cases u with
    | nil => simp
    | cons d u =>
      obtain ⟨rfl, -⟩ := List.cons_prefix_cons.1 hu
      exact absurd (by simp [List.tail_append_of_ne_nil hy]) hc

/-- A prefix does not end among characters that its last one is not of. -/
theorem prefix_of_not_mem_gap (hc : c ∉ gap) (h : x ++ [c] <+: y ++ gap) : x ++ [c] <+: y := by
  rcases prefix_append_cases h with h | ⟨u, hu, heq⟩
  · exact h
  · rcases List.eq_nil_or_concat u with rfl | ⟨u, d, rfl⟩
    · rw [List.append_nil] at heq
      exact heq ▸ List.prefix_rfl
    · rw [List.concat_eq_append, ← List.append_assoc] at heq
      obtain rfl : c = d := by simpa using (List.append_inj' heq rfl).2
      exact absurd (hu.subset (by simp)) hc

/-- A prefix that holds a character at its end only goes no further than where this is met. -/
theorem prefix_of_mem (hc : c ∉ x) (hy : c ∈ y) (h : x ++ [c] <+: y ++ z) : x ++ [c] <+: y := by
  rcases prefix_append_cases h with h | ⟨u, -, heq⟩
  · exact h
  · rcases List.prefix_concat_iff.1 ⟨u, heq.symm⟩ with rfl | h'
    · exact List.prefix_rfl
    · exact absurd (h'.subset hy) hc

theorem Leads.append (h : Leads p s) (z : List Char) : Leads p (s ++ z) := by
  obtain ⟨tag, htag, h⟩ := h
  exact ⟨tag, htag, h.trans (List.prefix_append _ _)⟩

/-- What a page may take without losing its seam: behind a gap one tag that is none of the head. -/
def Inert (s : List Char) : Prop :=
  ∃ gap more, '<' ∉ gap ∧ '>' ∉ gap ∧ '<' ∉ more ∧ s = gap ++ '<' :: 'l' :: more

theorem clear_of_not_mem (hp : ∀ tag, p tag → IsHeadTag tag) (h : '<' ∉ front) :
    Clear (Leads p) front rest := by
  intro y hy hne ⟨tag, htag, hlead⟩
  obtain ⟨c, t, rfl, -⟩ := (hp tag htag).starts
  cases y with
  | nil => exact hne rfl
  | cons d y =>
    obtain ⟨rfl, -⟩ := List.cons_prefix_cons.1 hlead
    exact h (hy.subset List.mem_cons_self)

theorem Inert.clear (hp : ∀ tag, p tag → IsHeadTag tag) (h : Inert s) : Clear (Leads p) s rest := by
  obtain ⟨gap, more, hgap, -, hmore, rfl⟩ := h
  rw [Text.clear_append, Text.clear_cons]
  refine ⟨clear_of_not_mem hp hgap, ?_, clear_of_not_mem hp (by simp [hmore])⟩
  rintro ⟨tag, htag, hlead⟩
  obtain ⟨c, t, rfl, hc⟩ := (hp tag htag).starts
  exact hc (List.cons_prefix_cons.1 (List.cons_prefix_cons.1 hlead).2).1

/-- No closing tag of the head begins in front of a link and ends in it or behind it. -/
theorem clear_headClose_insert (hs : Inert s) (h : Clear (Leads IsHeadClose) front rest) (z : List Char) :
    Clear (Leads IsHeadClose) front (s ++ z) := by
  intro y hy hne ⟨tag, htag, hlead⟩
  obtain ⟨gap, more, -, hgap, -, rfl⟩ := hs
  obtain ⟨t, rfl, -⟩ := htag.isHeadTag.ends
  rw [List.append_assoc, ← List.append_assoc] at hlead
  -- the tag cannot reach the bracket of the link, and it does not end in the gap before this
  have hbefore := prefix_of_not_mem_tail htag.not_mem_tail (by simp [hne]) hlead
  exact h y hy hne (Leads.append ⟨_, htag, prefix_of_not_mem_gap hgap hbefore⟩ rest)

/-- What stands behind an opening tag of the head has no part in the tags in front of it. -/
theorem clear_headOpen_replace (htag : IsHeadOpen tag) (h : Clear (Leads IsHeadOpen) front (tag ++ rest))
    (z : List Char) : Clear (Leads IsHeadOpen) front (tag ++ z) := by
  intro y hy hne ⟨tag', htag', hlead⟩
  obtain ⟨t, rfl, ht⟩ := htag'.isHeadTag.ends
  obtain ⟨u, rfl, -⟩ := htag.isHeadTag.ends
  rw [← List.append_assoc] at hlead
  -- a tag that begins in front ends with that tag at the latest
  have hbefore := prefix_of_mem ht (by simp) hlead
  have hleads : Leads IsHeadOpen (y ++ (u ++ ['>']) ++ rest) := Leads.append ⟨_, htag', hbefore⟩ rest
  rw [List.append_assoc] at hleads
  exact h y hy hne hleads

/-- A page that takes a link can be cut at its seam again, now on that side of the link which the seat
tells. -/
theorem Seam.insert {seat : Seat} (hs : Inert s) (h : Seam seat pre post) :
    match seat with
    | .beforeClose => Seam .beforeClose (pre ++ s) post
    | .afterOpen => Seam .afterOpen pre (s ++ post)
    | .atFront => Seam .atFront pre (s ++ post) := by
  have hclose : ∀ rest, Clear (Leads IsHeadClose) s rest := fun _ => hs.clear fun _ => IsHeadClose.isHeadTag
  have hopen : ∀ rest, Clear (Leads IsHeadOpen) s rest := fun _ => hs.clear fun _ => IsHeadOpen.isHeadTag
  cases h with
  | beforeClose htag hfirst =>
    exact .beforeClose htag (Text.clear_append.2 ⟨clear_headClose_insert hs hfirst post, hclose post⟩)
  | afterOpen hunclosed htag hfirst =>
    obtain ⟨hbefore, hafter⟩ := Text.clear_append.1 hunclosed
    refine .afterOpen (Text.clear_append.2 ⟨?_, Text.clear_append.2 ⟨hclose _, hafter⟩⟩) htag
      (clear_headOpen_replace htag hfirst _)
    rw [List.append_assoc]
    exact clear_headClose_insert hs hbefore _
  | atFront hunclosed hunopened =>
    exact .atFront (Text.clear_append.2 ⟨hclose _, hunclosed⟩) (Text.clear_append.2 ⟨hopen _, hunopened⟩)

/-- Two texts at the seam of a page, of which the second was put there when the first stood there. -/
def Seat.order (first second : List Char) : Seat → List Char
  | .beforeClose => first ++ second
  | .afterOpen => second ++ first
  | .atFront => second ++ first

theorem Seam.inject {seat : Seat} (h : Seam seat pre post) (snippet : String) :
    Page.inject snippet (String.ofList (pre ++ post)) = String.ofList (pre ++ snippet.toList ++ post) := by
  simp only [Page.inject, String.toList_ofList, h.splitHead_append]

/-- Two texts that are put into a page one after the other, the first of which is a link, come to stand
together at its seam, and all else stays. -/
theorem Seam.inject_inject {seat : Seat} {first : String} (hfirst : Inert first.toList)
    (h : Seam seat pre post) (second : String) :
    Page.inject second (Page.inject first (String.ofList (pre ++ post))) =
      String.ofList (pre ++ seat.order first.toList second.toList ++ post) := by
  rw [h.inject]
  have hnew := h.insert hfirst
  cases seat with
  | beforeClose =>
    rw [hnew.inject]
    simp [Seat.order]
  | afterOpen =>
    rw [List.append_assoc, hnew.inject]
    simp [Seat.order]
  | atFront =>
    rw [List.append_assoc, hnew.inject]
    simp [Seat.order]

theorem inert_stylesheetLink {href : String} (h : '<' ∉ href.toList) :
    Inert (stylesheetLink href).toList := by
  have hstart : "    <link rel=\"stylesheet\" href=\"".toList =
      "    ".toList ++ '<' :: 'l' :: "ink rel=\"stylesheet\" href=\"".toList := by decide
  refine ⟨"    ".toList, "ink rel=\"stylesheet\" href=\"".toList ++ href.toList ++ "\" />\n".toList,
    by decide, by decide, ?_, ?_⟩
  · simp only [List.mem_append, not_or]
    exact ⟨⟨by decide, h⟩, by decide⟩
  · unfold stylesheetLink
    rw [String.toList_append, String.toList_append, hstart]
    simp only [List.append_assoc, List.cons_append]

/-! ## Hints -/

theorem inject_empty (page : String) : inject "" page = page := by
  simp [inject, splitHead_append]

/-- The hints of a page stand where it takes more, also if there are none. -/
theorem preloadModules_eq_inject (g : ModuleGraph) (file : Path) (text : String) :
    preloadModules g file text = inject (preloadLinks g file text) text := by
  unfold preloadModules
  by_cases h : (g.preloadList (moduleEntries g.root file text)).isEmpty = true
  · rw [if_pos h, preloadLinks, List.isEmpty_iff.1 h]
    exact (inject_empty text).symm
  · rw [if_neg h]

end SiteBuild.Page
