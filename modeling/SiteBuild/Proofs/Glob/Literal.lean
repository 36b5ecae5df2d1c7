import SiteBuild.Glob.Match
import SiteBuild.Proofs.Path.Resolution

/-! Patterns whose characters stand for themselves. They are matched byte by byte, and since no
character's bytes begin another's, that is character by character. -/

namespace SiteBuild.Glob

variable {s cs : List Char} {b : Option Char} {ts : List Token}

/-! ### Texts as bytes -/

theorem toList_eq_data (bs : ByteArray) : bs.toList = bs.data.toList := by
  have hloop (n i : Nat) (found : Bytes) (h : bs.size ≤ i + n) :
      ByteArray.toList.loop bs i found = found.reverse ++ bs.data.toList.drop i := by
    induction n generalizing i found with
    | zero =>
      have h : bs.size ≤ i := h
      rw [ByteArray.toList.loop, if_neg (Nat.not_lt.2 h), List.drop_of_length_le h, List.append_nil]
    | succ n ih =>
      rw [ByteArray.toList.loop]
      split
      · next hi =>
        rw [ih (i + 1) _ (by omega), List.reverse_cons, List.append_assoc,
          List.drop_eq_getElem_cons (i := i) hi]
        simp [ByteArray.get!, getElem!_pos bs.data i hi]
      · next hi => rw [List.drop_of_length_le (Nat.not_lt.1 hi), List.append_nil]
  rw [ByteArray.toList, hloop bs.size 0 [] (by omega)]
  rfl

theorem bytesOf_eq_flatMap (s : String) : bytesOf s = s.toList.flatMap String.utf8EncodeChar := by
  rw [bytesOf, toList_eq_data, String.toUTF8_eq_toByteArray, ← String.utf8Encode_toList,
    List.utf8Encode]
  simp

theorem bytesOfChar_eq : bytesOfChar = String.utf8EncodeChar := by
  funext c
  rw [bytesOfChar, bytesOf_eq_flatMap]
  simp

theorem bytesOf_eq (s : String) : bytesOf s = s.toList.flatMap bytesOfChar := by
  rw [bytesOf_eq_flatMap, bytesOfChar_eq]

theorem bytesOfChar_slash : bytesOfChar '/' = [slash] := by
  rw [bytesOfChar_eq]
  decide

/-- A text whose bytes begin as those of some characters begins with these characters. -/
theorem prefix_of_bytes (rest : Bytes)
    (h : s.flatMap bytesOfChar ++ rest = cs.flatMap bytesOfChar) : s <+: cs := by
  refine List.isPrefix_of_utf8Encode_append_eq_utf8Encode rest.toByteArray ?_
  rw [bytesOfChar_eq] at h
  rw [List.utf8Encode, List.utf8Encode, ← List.toByteArray_append, h]

/-! ### Reading -/

/-- The characters that do not stand for themselves in a pattern. -/
def isWild (c : Char) : Bool := c ∈ ['?', '*', '[', '{', '}', '\\']

theorem stepOutside_of_not_isWild {c : Char} (h : isWild c = false) :
    stepOutside b ⟨ts, []⟩ c = .ok (.outside (some c), ⟨.literal c :: ts, []⟩) := by
  unfold stepOutside
  split
  all_goals first | rfl | cases h

theorem foldlM_step_literals (h : ∀ c ∈ s, isWild c = false) (b : Option Char) (ts : List Token) :
    ∃ b', s.foldlM step (.outside b, ⟨ts, []⟩) =
      .ok (.outside b', ⟨(s.map Token.literal).reverse ++ ts, []⟩) := by
  induction s generalizing b ts with
  | nil => exact ⟨b, rfl⟩
  | cons c s ih =>
    obtain ⟨hc, hs⟩ := List.forall_mem_cons.1 h
    obtain ⟨b', hb⟩ := ih hs (some c) (.literal c :: ts)
    refine ⟨b', ?_⟩
    rw [List.foldlM_cons, step, stepOutside_of_not_isWild hc]
    simpa [bind, Except.bind] using hb

/-- The pattern of all that lies below a directory. -/
def belowPattern (s : List Char) : Pattern := s.map .literal ++ [.trailing]

theorem read_below (h : ∀ c ∈ s, isWild c = false) :
    read (s ++ ['/', '*', '*']) = .ok (belowPattern s) := by
  obtain ⟨b, hb⟩ := foldlM_step_literals h none []
  rw [read, List.foldlM_append, hb, List.append_nil]
  have hstars : [ '/', '*', '*'].foldlM step (.outside b, ⟨(s.map Token.literal).reverse, []⟩) =
    .ok (.afterStars (some '/'), ⟨.literal '/' :: (s.map Token.literal).reverse, []⟩) := rfl
  change ([ '/', '*', '*'].foldlM step (.outside b, ⟨(s.map Token.literal).reverse, []⟩) >>= finish) = _
  rw [hstars]
  change Except.ok ((Token.trailing :: (s.map Token.literal).reverse).reverse) = _
  simp [belowPattern]

/-! ### Kinds -/

theorem literals?_append (p q : Pattern) :
    literals? (p ++ q) = do return (← literals? p) ++ (← literals? q) :=
  List.mapM_append

theorem literals?_literals (s : List Char) : literals? (s.map .literal) = some s := by
  induction s with
  | nil => rfl
  | cons c s ih =>
    unfold literals? at ih ⊢
    rw [List.map_cons, List.mapM_cons, ih]
    rfl

theorem kind_belowPattern (s : List Char) : (belowPattern s).kind = .start (s ++ ['/']) := by
  have hname : (belowPattern s).name? = none := by cases s <;> rfl
  have hextension : (belowPattern s).extension? = none := by cases s <;> rfl
  have hpath : (belowPattern s).path? = none := by
    rw [Pattern.path?, belowPattern, literals?_append, literals?_literals]
    rfl
  have hstart : (belowPattern s).start? = some (s ++ ['/']) := by
    simp [Pattern.start?, belowPattern, literals?_literals]
  simp [Pattern.kind, hname, hextension, hpath, hstart]

/-! ### Matching -/

theorem union_nil (ss : List Bytes) : union ss [] = ss := by
  cases ss <;> simp [union]

theorem restsOfAll_singleton (rests : Bytes → List Bytes) (x : Bytes) :
    restsOfAll rests [x] = rests x := union_nil _

theorem tokensRests_append (p q : Pattern) (ss : List Bytes) :
    tokensRests (p ++ q) ss = tokensRests q (tokensRests p ss) := by
  induction p generalizing ss with
  | nil => simp [tokensRests]
  | cons t p ih => simp [tokensRests, ih]

theorem after?_append_left {α : Type} [BEq α] [LawfulBEq α] (w v x : List α) :
    Text.after? (w ++ v) x = (Text.after? w x).bind (Text.after? v) := by
  cases h : Text.after? w x with
  | some r =>
    obtain rfl := Text.append_of_after? h
    have hp : (w ++ v).isPrefixOf (w ++ r) = v.isPrefixOf r := by
      rw [Bool.eq_iff_iff, List.isPrefixOf_iff_prefix, List.isPrefixOf_iff_prefix,
        List.prefix_append_right_inj]
    rw [Option.bind_some, Text.after?, Text.after?, hp, List.length_append, ← List.drop_drop,
      List.drop_left]
  | none =>
    cases h' : Text.after? (w ++ v) x with
    | none => rfl
    | some r =>
      rw [← Text.append_of_after? h', List.append_assoc, Text.after?_append] at h
      cases h

theorem tokensRests_literals_nil (s : List Char) : tokensRests (s.map .literal) [] = [] := by
  induction s with
  | nil => simp [tokensRests]
  | cons c s ih => simpa [tokensRests, Token.restsOf, restsOfAll] using ih

/-- Literals leave what stands behind their bytes. -/
theorem tokensRests_literals (s : List Char) (x : Bytes) :
    tokensRests (s.map .literal) [x] = (Text.after? (s.flatMap bytesOfChar) x).toList := by
  induction s generalizing x with
  | nil => simp [tokensRests, Text.after?]
  | cons c s ih =>
    rw [List.map_cons, tokensRests, Token.restsOf, restsOfAll_singleton, Token.rests,
      List.flatMap_cons, after?_append_left]
    cases Text.after? (bytesOfChar c) x with
    | none => exact tokensRests_literals_nil s
    | some r => exact ih r

theorem any_isEmpty_restsAnywhere (x : Bytes) : (restsAnywhere x).any List.isEmpty = true := by
  induction x with
  | nil => rfl
  | cons b x ih => simpa [restsAnywhere] using ih

/-- What lies below a directory is left behind a slash. -/
theorem tokensRests_trailing (x : Bytes) :
    (tokensRests [.trailing] [x]).any List.isEmpty = true ↔ ∃ y, x = slash :: y := by
  rw [tokensRests, Token.restsOf, restsOfAll_singleton, tokensRests]
  cases x with
  | nil => simp [Token.rests]
  | cons b x =>
    by_cases hb : b = slash
    · rw [Token.rests, if_pos hb, any_isEmpty_restsAnywhere, hb]
      exact iff_of_true rfl ⟨x, rfl⟩
    · simp [Token.rests, hb]

/-- The pattern of all below a directory matches the paths that begin with the directory and a slash. -/
theorem isMatch_belowPattern (s : List Char) (path : String) :
    (belowPattern s).isMatch path = true ↔ s ++ ['/'] <+: path.toList := by
  have hasks : (belowPattern s).asksName = false := by simp [Pattern.asksName, kind_belowPattern]
  have hmatch : (belowPattern s).isMatch path =
      (tokensRests (belowPattern s) [bytesOf path]).any List.isEmpty := by
    have hne : belowPattern s ≠ [.leading] := by cases s <;> simp [belowPattern]
    unfold Pattern.isMatch
    split
    · next h => exact absurd h hne
    · simp [hasks]
  rw [hmatch, belowPattern, tokensRests_append, tokensRests_literals]
  constructor
  · intro h
    cases hr : Text.after? (s.flatMap bytesOfChar) (bytesOf path) with
    | none =>
      rw [hr] at h
      simp [tokensRests, Token.restsOf, restsOfAll] at h
    | some r =>
      rw [hr] at h
      obtain ⟨y, rfl⟩ := (tokensRests_trailing r).1 h
      have hbytes := Text.append_of_after? hr
      rw [bytesOf_eq] at hbytes
      refine prefix_of_bytes y (hbytes ▸ ?_)
      simp [bytesOfChar_slash]
  · rintro ⟨cs, hcs⟩
    have hbytes : bytesOf path = s.flatMap bytesOfChar ++ (slash :: cs.flatMap bytesOfChar) := by
      rw [bytesOf_eq, ← hcs]
      simp [bytesOfChar_slash]
    rw [hbytes, Text.after?_append]
    exact (tokensRests_trailing _).2 ⟨_, rfl⟩

end SiteBuild.Glob
