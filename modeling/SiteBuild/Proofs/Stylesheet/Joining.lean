import SiteBuild.Proofs.Stylesheet.Arrangement
import SiteBuild.Stylesheet.Join

/-! To join rules takes away what says nothing, and nothing else: something is to be written of the joined
rules just if something is of those they come from. -/

namespace SiteBuild.Stylesheet

variable {r r' : Rule} {rules rules' joined before : List Rule} {selectors : List (List Char)}
  {ds ds' : List Declaration} {query : List Char} {rule : Rule} {j : Joining} {aim : Aim} {place n : Nat}

namespace Rule

/-- Whether a rule is taken away: it declares nothing, is for nothing or holds no other rules. -/
def isGone : Rule → Bool
  | .style _ ds => ds.isEmpty
  | .media query rules => query = "not all".toList || allGone rules
  | _ => false
where
  allGone : List Rule → Bool
    | [] => true
    | r :: rules => r.isGone && allGone rules

/-- Whether nothing is written of a rule, be it taken away or not. -/
def isSilent : Rule → Bool
  | .style _ ds => ds.isEmpty
  | .media query rules =>
    isGone (.media query rules) || ((query.isEmpty || query = "all".toList) && allSilent rules)
  | .statement _ => false
  | .void => true
where
  allSilent : List Rule → Bool
    | [] => true
    | r :: rules => r.isSilent && allSilent rules

theorem allGone_iff : isGone.allGone rules = true ↔ ∀ r ∈ rules, r.isGone = true := by
  induction rules with
  | nil => simp [isGone.allGone]
  | cons r rules ih => simp [isGone.allGone, ih]

theorem allSilent_iff : isSilent.allSilent rules = true ↔ ∀ r ∈ rules, r.isSilent = true := by
  induction rules with
  | nil => simp [isSilent.allSilent]
  | cons r rules ih => simp [isSilent.allSilent, ih]

theorem isGone_media : (media query rules).isGone = true ↔
    query = "not all".toList ∨ ∀ r ∈ rules, r.isGone = true := by
  rw [isGone, Bool.or_eq_true, allGone_iff, decide_eq_true_iff]

theorem isSilent_media : (media query rules).isSilent = true ↔ (media query rules).isGone = true ∨
    (query.isEmpty || query = "all".toList) = true ∧ ∀ r ∈ rules, r.isSilent = true := by
  rw [isSilent, Bool.or_eq_true, Bool.and_eq_true, allSilent_iff]

theorem isSilent_of_isGone (h : r.isGone = true) : r.isSilent = true := by
  cases r with
  | style => exact h
  | media => exact isSilent_media.2 (.inl h)
  | statement => cases h
  | void => rfl

/-- A rule that is not taken away, and none within it. -/
inductive Settled : Rule → Prop
  | style (selectors : List (List Char)) {ds : List Declaration} (h : ds ≠ []) :
      Settled (.style selectors ds)
  | media {query : List Char} {rules : List Rule} (hquery : query ≠ "not all".toList)
      (hne : rules ≠ []) (h : ∀ r ∈ rules, Settled r) : Settled (.media query rules)
  | statement (text : List Char) : Settled (.statement text)
  | void : Settled .void

theorem Settled.isGone_eq_false (h : r.Settled) : r.isGone = false := by
  induction h with
  | style _ h => simpa [isGone] using h
  | media hquery hne _ ih =>
    rw [Bool.eq_false_iff, ne_eq, isGone_media]
    rintro (hq | hgone)
    · exact hquery hq
    · obtain ⟨r, hr⟩ := List.exists_mem_of_ne_nil _ hne
      exact absurd (hgone r hr) (Bool.eq_false_iff.1 (ih r hr))
  | statement => rfl
  | void => rfl

/-- A rule of style that declares something. -/
def isFull : Rule → Bool
  | .style _ ds => !ds.isEmpty
  | _ => false

theorem isFull_style : (style selectors ds).isFull = true ↔ ds ≠ [] := by
  simp [isFull]

theorem settled_of_isFull (h : r.isFull = true) : r.Settled := by
  cases r with
  | style selectors ds => exact .style selectors (isFull_style.1 h)
  | media | statement | void => cases h

theorem isSilent_of_isFull (h : r.isFull = true) : r.isSilent = false := by
  cases r with
  | style => simpa [isFull, isSilent] using h
  | media | statement | void => cases h

/-- What is true of the rules of a block. -/
def BlockIs (P : List Rule → Prop) : Rule → Prop
  | .media _ rules => P rules
  | _ => True

theorem blockIs_of_isFull {P : List Rule → Prop} (h : r.isFull = true) : r.BlockIs P := by
  cases r with
  | style => trivial
  | media | statement | void => cases h

end Rule

/-- Rules that are not taken away are joined from others that say as much. -/
structure Joins (rules joined : List Rule) : Prop where
  nil_iff : joined = [] ↔ ∀ r ∈ rules, r.isGone = true
  silent_iff : (∀ r ∈ joined, r.isSilent = true) ↔ ∀ r ∈ rules, r.isSilent = true
  settled : ∀ r ∈ joined, r.Settled

namespace Joins

theorem nil : Joins [] [] where
  nil_iff := by simp
  silent_iff := Iff.rfl
  settled := by simp

theorem reverse (h : Joins rules joined) : Joins rules joined.reverse where
  nil_iff := List.reverse_eq_nil_iff.trans h.nil_iff
  silent_iff := by simpa using h.silent_iff
  settled := by simpa using h.settled

theorem skip (h : Joins rules joined) (hr : r.isGone = true) : Joins (rules ++ [r]) joined where
  nil_iff := by
    rw [List.forall_mem_append, List.forall_mem_singleton, h.nil_iff]
    exact (and_iff_left hr).symm
  silent_iff := by
    rw [List.forall_mem_append, List.forall_mem_singleton, h.silent_iff]
    exact (and_iff_left (Rule.isSilent_of_isGone hr)).symm
  settled := h.settled

theorem cons (h : Joins rules joined) (hr : r'.Settled) (hgone : r.isGone = false)
    (hsilent : r'.isSilent = r.isSilent) : Joins (rules ++ [r]) (r' :: joined) where
  nil_iff := by
    rw [List.forall_mem_append, List.forall_mem_singleton, hgone]
    simp
  silent_iff := by
    rw [List.forall_mem_append, List.forall_mem_singleton, List.forall_mem_cons, h.silent_iff, hsilent]
    exact and_comm
  settled := List.forall_mem_cons.2 ⟨hr, h.settled⟩

/-- A rule that declares something is heard, whatever else becomes of it. -/
theorem full {joined' : List Rule} (hr : r.isFull = true) (hfull : ∃ r ∈ joined', r.isFull = true)
    (hsettled : ∀ r ∈ joined', r.Settled) : Joins (rules ++ [r]) joined' := by
  have hgone := (Rule.settled_of_isFull hr).isGone_eq_false
  have hsilent := Rule.isSilent_of_isFull hr
  obtain ⟨x, hx, hxfull⟩ := hfull
  refine ⟨?_, ?_, hsettled⟩
  · refine iff_of_false (List.ne_nil_of_mem hx) fun h => ?_
    exact absurd (h r (by simp)) (Bool.eq_false_iff.1 hgone)
  · refine iff_of_false (fun h => ?_) fun h => ?_
    · exact absurd (h x hx) (Bool.eq_false_iff.1 (Rule.isSilent_of_isFull hxfull))
    · exact absurd (h r (by simp)) (Bool.eq_false_iff.1 hsilent)

theorem isGone_media (h : Joins rules joined) (hquery : query ≠ "not all".toList)
    (hne : joined ≠ []) : (Rule.media query rules).isGone = false := by
  rw [Bool.eq_false_iff, ne_eq, Rule.isGone_media, not_or]
  exact ⟨hquery, fun hall => hne (h.nil_iff.2 hall)⟩

/-- A block of joined rules says as much as one of those that they are joined from. -/
theorem isSilent_media (h : Joins rules joined) (hquery : query ≠ "not all".toList)
    (hne : joined ≠ []) : (Rule.media query joined).isSilent = (Rule.media query rules).isSilent := by
  rw [Bool.eq_iff_iff, Rule.isSilent_media, Rule.isSilent_media, h.silent_iff,
    h.isGone_media hquery hne, (Rule.Settled.media hquery hne h.settled).isGone_eq_false]

/-- Two blocks for the same are as silent as one of the rules of both. -/
theorem isSilent_media_append (hgone : (Rule.media query rules').isGone = false) :
    (Rule.media query (rules' ++ rules)).isSilent =
      ((Rule.media query rules').isSilent && (Rule.media query rules).isSilent) := by
  rw [Bool.eq_false_iff, ne_eq, Rule.isGone_media, not_or] at hgone
  obtain ⟨hquery, hall⟩ := hgone
  have hsilent (rules : List Rule) (h : ∀ r ∈ rules, r.isGone = true) :
      ∀ r ∈ rules, r.isSilent = true := fun r hr => Rule.isSilent_of_isGone (h r hr)
  rw [Bool.eq_iff_iff, Bool.and_eq_true]
  simp only [Rule.isSilent_media, Rule.isGone_media, hquery, hall, false_or, List.forall_mem_append,
    false_and]
  have := hsilent rules
  tauto

/-- A block goes on where the last one was for the same. -/
theorem merge (h : Joins rules (.media query rules' :: before)) {inner : List Rule}
    (hjoined : Joins (rules' ++ inner) joined) :
    Joins (rules ++ [.media query inner]) (.media query joined :: before) := by
  obtain ⟨hr, hbefore⟩ := List.forall_mem_cons.1 h.settled
  have hgone := hr.isGone_eq_false
  have hne : joined ≠ [] := fun hnil => by
    have hall := (List.forall_mem_append.1 (hjoined.nil_iff.1 hnil)).1
    exact Bool.eq_false_iff.1 hgone (Rule.isGone_media.2 (.inr hall))
  cases hr with
  | media hquery _ _ =>
    refine ⟨?_, ?_, List.forall_mem_cons.2 ⟨.media hquery hne hjoined.settled, hbefore⟩⟩
    · refine iff_of_false (List.cons_ne_nil _ _) fun hall => List.cons_ne_nil _ _ (h.nil_iff.2 ?_)
      exact (List.forall_mem_append.1 hall).1
    · rw [List.forall_mem_append, List.forall_mem_singleton, ← h.silent_iff, List.forall_mem_cons,
        List.forall_mem_cons, hjoined.isSilent_media hquery hne, isSilent_media_append hgone,
        Bool.and_eq_true]
      tauto

end Joins

namespace Joining

/-- What joins two rules of style is one that declares something, if the second does. -/
theorem isFull_of_join? (h : join? r r' = some rule) (hr : r'.isFull = true) : rule.isFull = true := by
  unfold join? at h
  split at h
  · next selectors ds selectors' ds' =>
    have hne := Rule.isFull_style.1 hr
    split at h
    · obtain rfl := Option.some.inj h
      exact Rule.isFull_style.2 (arrange_ne_nil (List.append_ne_nil_of_right_ne_nil ds hne))
    · obtain ⟨rfl, hrule⟩ := Option.ite_none_right_eq_some.1 h
      obtain rfl := Option.some.inj hrule
      exact Rule.isFull_style.2 hne
  · cases h

theorem settle_cons (hr : r.isFull = true) (rules : List Rule) :
    ∃ r' rest, settle (r :: rules) = r' :: rest ∧ r'.isFull = true ∧ rest ⊆ rules := by
  induction rules generalizing r with
  | nil => exact ⟨r, [], by rw [settle]; simp, hr, List.nil_subset _⟩
  | cons previous rules ih =>
    rw [settle]
    split
    · next rule hrule =>
      obtain ⟨r', rest, heq, hfull, hrest⟩ := ih (isFull_of_join? hrule hr)
      exact ⟨r', rest, heq, hfull, List.subset_cons_of_subset _ hrest⟩
    · exact ⟨r, previous :: rules, rfl, hr, List.Subset.refl _⟩

theorem mem_void (hr : r ∈ j.void place) : r ∈ j.rules ∨ r = .void := by
  have hset : r ∈ j.rules.reverse.set place .void := by simpa [Joining.void] using hr
  simpa using List.mem_or_eq_of_mem_set hset

theorem mem_void_of_getElem? {i : Nat} (hr : j.rules.reverse[i]? = some r) (hi : place ≠ i) :
    r ∈ j.void place := by
  rw [Joining.void, List.mem_reverse]
  exact List.mem_of_getElem? ((List.getElem?_set_ne hi).trans hr)

theorem mem_push (hr : r ∈ (j.push rule aim).rules) : r ∈ j.rules ∨ r = .void ∨ r = rule := by
  unfold push at hr
  dsimp only at hr
  split at hr
  · have h := mem_void hr
    simp only [List.mem_cons] at h
    tauto
  · simp only [List.mem_cons] at hr
    tauto

/-- A rule that declares something is there when one is added. The rule that is void instead is not the
new one, unless one was there before. -/
theorem exists_isFull_push (hr : rule.isFull = true)
    (hseen : j.seen ≠ [] → ∃ r ∈ j.rules, r.isFull = true) :
    ∃ r ∈ (j.push rule aim).rules, r.isFull = true := by
  unfold push
  dsimp only
  split
  · next entry hfind =>
    obtain ⟨r, hmem, hfull⟩ := hseen (List.ne_nil_of_mem (List.mem_of_find?_eq_some hfind))
    have hreverse : (rule :: j.rules).reverse = j.rules.reverse ++ [rule] := List.reverse_cons
    by_cases hplace : entry.2 = j.rules.length
    · obtain ⟨i, hi, rfl⟩ := List.mem_iff_getElem.1 (List.mem_reverse.2 hmem)
      refine ⟨_, mem_void_of_getElem? (i := i) ?_ ?_, hfull⟩
      · dsimp only
        rw [hreverse, List.getElem?_append_left hi, List.getElem?_eq_getElem hi]
      · rw [List.length_reverse] at hi
        omega
    · refine ⟨rule, mem_void_of_getElem? (i := j.rules.length) ?_ hplace, hr⟩
      dsimp only
      rw [hreverse, ← List.length_reverse, List.getElem?_concat_length]
  · exact ⟨rule, List.mem_cons_self, hr⟩

/-- A rule of style is joined to the last rules, or stands behind them. -/
theorem addStyle_eq (hds : ds ≠ []) (j : Joining) :
    (∃ aim, j.addStyle selectors ds = j.push (.style selectors ds) aim) ∨
      ∃ r rest, j.addStyle selectors ds = { j with rules := r :: rest } ∧ r.isFull = true ∧
        rest ⊆ j.rules := by
  unfold addStyle
  dsimp only
  split
  · exact .inl ⟨_, rfl⟩
  · next last rules hrules =>
    split
    · next r hr =>
      have hfull := isFull_of_join? hr (Rule.isFull_style.2 hds)
      obtain ⟨r', rest, heq, hfull, hrest⟩ := settle_cons hfull rules
      exact .inr ⟨r', rest, by rw [heq], hfull, hrules ▸ List.subset_cons_of_subset _ hrest⟩
    · exact .inl ⟨_, rfl⟩

theorem mem_addStyle (hds : ds ≠ []) (hr : r ∈ (j.addStyle selectors ds).rules) :
    r ∈ j.rules ∨ r = .void ∨ r.isFull = true := by
  rcases addStyle_eq hds j with ⟨aim, heq⟩ | ⟨x, rest, heq, hfull, hrest⟩
  · rw [heq] at hr
    rcases mem_push hr with hr | hr | rfl
    · exact .inl hr
    · exact .inr (.inl hr)
    · exact .inr (.inr (Rule.isFull_style.2 hds))
  · rw [heq] at hr
    rcases List.mem_cons.1 hr with rfl | hr
    · exact .inr (.inr hfull)
    · exact .inl (hrest hr)

theorem exists_isFull_addStyle (hds : ds ≠ [])
    (hseen : j.seen ≠ [] → ∃ r ∈ j.rules, r.isFull = true) :
    ∃ r ∈ (j.addStyle selectors ds).rules, r.isFull = true := by
  rcases addStyle_eq hds j with ⟨aim, heq⟩ | ⟨x, rest, heq, hfull, -⟩
  · rw [heq]
    exact exists_isFull_push (Rule.isFull_style.2 hds) hseen
  · rw [heq]
    exact ⟨x, List.mem_cons_self, hfull⟩

/-- Rules that are joined so far. Of those that set something one is left. -/
structure Tracks (P : List Rule → Prop) (rules : List Rule) (j : Joining) : Prop extends
    Joins rules j.rules where
  blocks : ∀ r ∈ j.rules, r.BlockIs P
  seen : j.seen ≠ [] → ∃ r ∈ j.rules, r.isFull = true

namespace Tracks

variable {P : List Rule → Prop}

theorem cons (h : j.Tracks P rules) {x : Rule} (hx : x.BlockIs P)
    (hjoins : Joins (rules ++ [r]) (x :: j.rules)) :
    Tracks P (rules ++ [r]) { j with rules := x :: j.rules } := by
  refine ⟨hjoins, List.forall_mem_cons.2 ⟨hx, h.blocks⟩, fun hseen => ?_⟩
  obtain ⟨r, hr, hfull⟩ := h.seen hseen
  exact ⟨r, List.mem_cons_of_mem _ hr, hfull⟩

theorem addBlock (h : j.Tracks P rules) (hjoined : Joins rules' joined) (hP : P joined) :
    (j.addBlock query joined).Tracks P (rules ++ [.media query rules']) := by
  unfold Joining.addBlock
  split
  · next hgone =>
    rw [Bool.or_eq_true, List.isEmpty_iff, decide_eq_true_iff, hjoined.nil_iff, or_comm,
      ← Rule.isGone_media] at hgone
    exact ⟨h.toJoins.skip hgone, h.blocks, h.seen⟩
  · next hkept =>
    rw [Bool.or_eq_true, List.isEmpty_iff, decide_eq_true_iff, not_or] at hkept
    obtain ⟨hne, hquery⟩ := hkept
    exact h.cons hP (h.toJoins.cons (.media hquery hne hjoined.settled)
      (hjoined.isGone_media hquery hne) (hjoined.isSilent_media hquery hne))

theorem merge {inner : List Rule} (h : j.Tracks P rules) (hrules : j.rules = .media query rules' :: before)
    (hjoined : Joins (rules' ++ inner) joined) (hP : P joined) :
    Tracks P (rules ++ [.media query inner]) { j with rules := .media query joined :: before } := by
  have hbefore := (List.forall_mem_cons.1 (hrules ▸ h.blocks)).2
  refine ⟨(hrules ▸ h.toJoins).merge hjoined, List.forall_mem_cons.2 ⟨hP, hbefore⟩, fun hseen => ?_⟩
  obtain ⟨r, hr, hfull⟩ := h.seen hseen
  rcases List.mem_cons.1 (hrules ▸ hr) with rfl | hr
  · cases hfull
  · exact ⟨r, List.mem_cons_of_mem _ hr, hfull⟩

theorem addStyle (h : j.Tracks P rules) (hr : (Rule.style selectors ds').isFull = true)
    (hds : ds ≠ []) : (j.addStyle selectors ds).Tracks P (rules ++ [.style selectors ds']) where
  toJoins := by
    refine .full hr (exists_isFull_addStyle hds h.seen) fun r hr => ?_
    rcases mem_addStyle hds hr with hr | rfl | hr
    · exact h.settled r hr
    · exact .void
    · exact Rule.settled_of_isFull hr
  blocks := fun r hr => by
    rcases mem_addStyle hds hr with hr | rfl | hr
    · exact h.blocks r hr
    · trivial
    · exact Rule.blockIs_of_isFull hr
  seen := fun _ => exists_isFull_addStyle hds h.seen

/-- What is true of the rules of all blocks stays true, if blocks are put together and joined. -/
theorem add {inner : List Rule → List Rule} (happend : ∀ rs rs', P rs → P rs' → P (rs ++ rs'))
    (hinner : ∀ rs, P rs → Joins rs (inner rs) ∧ P (inner rs)) (h : j.Tracks P rules)
    (hr : r.BlockIs P) : (j.add inner r).Tracks P (rules ++ [r]) := by
  cases r with
  | style selectors ds =>
    simp only [Joining.add]
    split
    · next hempty => exact ⟨h.toJoins.skip hempty, h.blocks, h.seen⟩
    · next hfull =>
      have hne : ds ≠ [] := fun hnil => hfull (List.isEmpty_iff.2 hnil)
      exact h.addStyle (Rule.isFull_style.2 hne) (arrange_ne_nil hne)
  | media query rs =>
    obtain ⟨hjoined, hP⟩ := hinner rs hr
    simp only [Joining.add]
    split
    · next query' rs' before hrules =>
      split
      · next heq =>
        subst heq
        have hP' := (List.forall_mem_cons.1 (hrules ▸ h.blocks)).1
        obtain ⟨hjoined, hP⟩ := hinner _ (happend _ _ hP' hr)
        exact h.merge hrules hjoined hP
      · exact h.addBlock hjoined hP
    · exact h.addBlock hjoined hP
  | statement text => exact h.cons trivial (h.toJoins.cons (.statement text) rfl rfl)
  | void => exact h.cons trivial (h.toJoins.cons .void rfl rfl)

theorem foldl {inner : List Rule → List Rule} (happend : ∀ rs rs', P rs → P rs' → P (rs ++ rs'))
    (hinner : ∀ rs, P rs → Joins rs (inner rs) ∧ P (inner rs)) (h : j.Tracks P rules)
    (hr : ∀ r ∈ rules', r.BlockIs P) :
    (rules'.foldl (Joining.add inner) j).Tracks P (rules ++ rules') := by
  induction rules' generalizing j rules with
  | nil => simpa using h
  | cons r rules' ih =>
    obtain ⟨hr, hrest⟩ := List.forall_mem_cons.1 hr
    simpa using ih (h.add happend hinner hr) hrest

end Tracks

end Joining

theorem depthAll_append (rules rules' : List Rule) : Rule.depth.depthAll (rules ++ rules') =
    max (Rule.depth.depthAll rules) (Rule.depth.depthAll rules') := by
  induction rules with
  | nil => simp [Rule.depth.depthAll]
  | cons r rules ih => simp [Rule.depth.depthAll, ih, Nat.max_assoc]

theorem depthAll_le_iff : Rule.depth.depthAll rules ≤ n ↔
    ∀ r ∈ rules, r.BlockIs fun rs => Rule.depth.depthAll rs < n := by
  induction rules with
  | nil => simp [Rule.depth.depthAll]
  | cons r rules ih =>
    have hr : r.depth ≤ n ↔ r.BlockIs fun rs => Rule.depth.depthAll rs < n := by
      cases r with
      | media => exact Iff.rfl
      | style | statement | void => exact iff_of_true (Nat.zero_le n) trivial
    rw [Rule.depth.depthAll, Nat.max_le, List.forall_mem_cons, hr, ih]

/-- One pass over rules joins them, if what joins the rules of blocks does. -/
theorem joins_foldl {inner : List Rule → List Rule}
    (hinner : ∀ rs, Rule.depth.depthAll rs < n →
      Joins rs (inner rs) ∧ Rule.depth.depthAll (inner rs) < n)
    (h : Rule.depth.depthAll rules ≤ n) :
    let joined := (rules.foldl (Joining.add inner) ⟨[], []⟩).rules.reverse
    Joins rules joined ∧ Rule.depth.depthAll joined ≤ n := by
  have happend (rs rs' : List Rule) (hrs : Rule.depth.depthAll rs < n)
      (hrs' : Rule.depth.depthAll rs' < n) : Rule.depth.depthAll (rs ++ rs') < n := by
    rw [depthAll_append]
    exact Nat.max_lt.2 ⟨hrs, hrs'⟩
  have hnil : Joining.Tracks (fun rs => Rule.depth.depthAll rs < n) [] ⟨[], []⟩ :=
    ⟨.nil, List.forall_mem_nil _, fun h => absurd rfl h⟩
  have htracks := hnil.foldl happend hinner (depthAll_le_iff.1 h)
  refine ⟨htracks.toJoins.reverse, depthAll_le_iff.2 fun r hr => ?_⟩
  exact htracks.blocks r (List.mem_reverse.1 hr)

theorem joins_joinNested (h : Rule.depth.depthAll rules ≤ n) :
    Joins rules (joinNested n rules) ∧ Rule.depth.depthAll (joinNested n rules) ≤ n := by
  induction n generalizing rules with
  | zero => exact joins_foldl (fun _ hlt => absurd hlt (Nat.not_lt_zero _)) h
  | succ n ih =>
    refine joins_foldl (fun rs hrs => ?_) h
    obtain ⟨hjoins, hdepth⟩ := ih (Nat.le_of_lt_succ hrs)
    exact ⟨hjoins, Nat.lt_succ_of_le hdepth⟩

theorem joins_joinRules (rules : List Rule) : Joins rules (joinRules rules) :=
  (joins_joinNested (Nat.le_refl _)).1

end SiteBuild.Stylesheet
