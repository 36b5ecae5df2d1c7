import SiteBuild.Json.Value
import SiteBuild.Text.Bytes
import SiteBuild.Text.Match

/-!
Reading JSON. A text that is none is refused at a place, for which the reader keeps the rest of the
text where it stopped.
-/
namespace SiteBuild.Json

inductive Cause
  | endInArray
  | endInObject
  | endInText
  | endInValue
  | noColon
  | noArrayEnd
  | noObjectEnd
  | noWord
  | noValue
  | invalidEscape
  | invalidNumber
  | controlCharacter
  | noKey
  | trailingComma
  | trailingText
  | endInEscape
  deriving DecidableEq, Repr

def Cause.message : Cause → String
  | .endInArray => "EOF while parsing a list"
  | .endInObject => "EOF while parsing an object"
  | .endInText => "EOF while parsing a string"
  | .endInValue => "EOF while parsing a value"
  | .noColon => "expected \x60:\x60"
  | .noArrayEnd => "expected \x60,\x60 or \x60]\x60"
  | .noObjectEnd => "expected \x60,\x60 or \x60\x7d\x60"
  | .noWord => "expected ident"
  | .noValue => "expected value"
  | .invalidEscape => "invalid escape"
  | .invalidNumber => "invalid number"
  | .controlCharacter => "control character (\\u0000-\\u001F) found while parsing a string"
  | .noKey => "key must be a string"
  | .trailingComma => "trailing comma"
  | .trailingText => "trailing characters"
  | .endInEscape => "unexpected end of hex escape"

/-- Why a text was refused, and its rest behind the character that was. -/
structure Failure where
  cause : Cause
  rest : List Char
  deriving DecidableEq, Repr

/-- What was read of a text, and a shorter rest. -/
abbrev Read (α : Type) (s : List Char) := Except Failure (α × { r : List Char // r.length < s.length })

def isBlank (c : Char) : Bool := c = ' ' || c = '\n' || c = '\t' || c = '\r'

def skipBlanks (s : List Char) : List Char := s.dropWhile isBlank

theorem skipBlanks_length (s : List Char) : (skipBlanks s).length ≤ s.length :=
  (List.dropWhile_suffix isBlank).length_le

/-- A failure at the next character, or at the end of the text. -/
def failAt (atEnd otherwise : Cause) (s : List Char) : Failure :=
  match s with
  | [] => ⟨atEnd, []⟩
  | _ :: s => ⟨otherwise, s⟩

/-- The character that a letter stands for behind a backslash. -/
def unescape? (c : Char) : Option Char :=
  if c = '\x22' || c = '\\' || c = '/' then some c
  else if c = 'n' then some '\n'
  else if c = 'r' then some '\r'
  else if c = 't' then some '\t'
  else if c = 'b' then some '\x08'
  else if c = 'f' then some '\x0c'
  else none

def isHighHalf (n : Nat) : Bool := 0xd800 ≤ n && n < 0xdc00

def isLowHalf (n : Nat) : Bool := 0xdc00 ≤ n && n < 0xe000

/-- What has been read between quotes: the characters in reverse, whether half of a pair stood alone,
and the half in front that waits for the other one. -/
structure Quoted where
  chars : List Char
  broken : Bool
  high : Option Nat

namespace Quoted

def push (q : Quoted) (c : Char) : Quoted := ⟨c :: q.chars, q.broken || q.high.isSome, none⟩

def pushUnit (q : Quoted) (n : Nat) : Quoted :=
  if isHighHalf n then ⟨q.chars, q.broken || q.high.isSome, some n⟩
  else if isLowHalf n then
    match q.high with
    | some h => ⟨Char.ofNat (0x10000 + (h - 0xd800) * 0x400 + (n - 0xdc00)) :: q.chars, q.broken, none⟩
    | none => ⟨q.chars, true, none⟩
  else q.push (Char.ofNat n)

/-- The text, unless half of a pair stood alone. -/
def text? (q : Quoted) : Option String :=
  if q.broken || q.high.isSome then none else some (String.ofList q.chars.reverse)

end Quoted

/-- The text up to the closing quote, and the rest behind it. -/
def readQuoted (q : Quoted) : List Char → Except Failure (Option String × List Char)
  | [] => .error ⟨.endInText, []⟩
  | '\\' :: 'u' :: a :: b :: c :: d :: s =>
    match Text.hexValue? [a, b, c, d] with
    | some n => readQuoted (q.pushUnit n) s
    | none => .error ⟨.invalidEscape, s⟩
  | '\\' :: c :: s =>
    match unescape? c with
    | some c => readQuoted (q.push c) s
    | none => .error ⟨if c = 'u' then .endInText else .invalidEscape, if c = 'u' then [] else s⟩
  | c :: s =>
    if c = '\x22' then .ok (q.text?, s)
    else if c = '\\' then .error ⟨.endInText, []⟩
    else if c < ' ' then .error ⟨.controlCharacter, s⟩
    else readQuoted (q.push c) s

theorem readQuoted_length {q : Quoted} {s r : List Char} {t : Option String}
    (h : readQuoted q s = .ok (t, r)) : r.length < s.length := by
  fun_induction readQuoted q s with
  | case1 => simp at h
  | case2 q a b c d s n _ ih => have := ih h; simp; omega
  | case3 => simp at h
  | case4 q c s _ _ _ ih => have := ih h; simp; omega
  | case5 => simp at h
  | case6 => simp at h; simp [h]
  | case7 => simp at h
  | case8 => simp at h
  | case9 q c s _ _ _ _ _ ih => have := ih h; simp; omega

/-- The rest behind the digits of a number's part, of which there has to be one. -/
def dropDigits (s : List Char) : Except Failure (List Char) :=
  match s with
  | [] => .error ⟨.endInValue, []⟩
  | c :: s => if c.isDigit then .ok (s.dropWhile Char.isDigit) else .error ⟨.invalidNumber, s⟩

/-- The rest behind the whole part of a number, given its first digit. No zero stands in front. -/
def dropWhole (c : Char) (s : List Char) : Except Failure (List Char) :=
  if c = '0' then
    match s with
    | d :: s => if d.isDigit then .error ⟨.invalidNumber, s⟩ else .ok (d :: s)
    | [] => .ok []
  else .ok (s.dropWhile Char.isDigit)

def dropFraction : List Char → Except Failure (List Char)
  | '.' :: s => dropDigits s
  | s => .ok s

def dropExponent : List Char → Except Failure (List Char)
  | c :: s =>
    if c = 'e' || c = 'E' then
      dropDigits (if s.head?.any fun d => d = '+' || d = '-' then s.drop 1 else s)
    else .ok (c :: s)
  | [] => .ok []

/-- The rest behind a number, given its first digit. -/
def dropDigit (c : Char) (s : List Char) : Except Failure (List Char) :=
  ((dropWhole c s).bind dropFraction).bind dropExponent

/-- The rest behind a number, given the text behind its sign. -/
def dropNumber : List Char → Except Failure (List Char)
  | [] => .error ⟨.endInValue, []⟩
  | c :: s => if c.isDigit then dropDigit c s else .error ⟨.invalidNumber, s⟩

/-- A word, of which the first letter has been seen. -/
def dropWord : (word s : List Char) → Except Failure (List Char)
  | [], s => .ok s
  | _ :: _, [] => .error ⟨.endInValue, []⟩
  | w :: word, c :: s => if w = c then dropWord word s else .error ⟨.noWord, s⟩

theorem skipBlanks_cons {c : Char} {s r : List Char} (h : skipBlanks s = c :: r) :
    r.length < s.length := by
  have := skipBlanks_length s
  rw [h] at this
  exact this

/-- The name of a member and the colon behind it. -/
def readKey (s : List Char) : Read (Option String) s :=
  match hs : skipBlanks s with
  | '\x22' :: t =>
    match hq : readQuoted ⟨[], false, none⟩ t with
    | .error f => .error f
    | .ok (key, r) =>
      match hr : skipBlanks r with
      | ':' :: r' =>
        .ok (key, ⟨r', by
          have h₁ := skipBlanks_cons hs
          have h₂ := readQuoted_length hq
          have h₃ := skipBlanks_cons hr
          omega⟩)
      | r' => .error (failAt .endInObject .noColon r')
  | t => .error (failAt .endInValue .noKey t)

/-- The value that a text between quotes makes. -/
def ofQuoted? (s : Option String) : Json :=
  match s with
  | some s => .text s
  | none => .broken

/-- A value that holds no others, given its first character. -/
def readLeaf (c : Char) (t : List Char) : Except Failure (Json × List Char) :=
  let numberBefore (r : List Char) := Json.number (String.ofList (Text.front (c :: t) r))
  if c = '\x22' then (readQuoted ⟨[], false, none⟩ t).map fun (s, r) => (ofQuoted? s, r)
  else if c = 'n' then (dropWord ['u', 'l', 'l'] t).map (Json.null, ·)
  else if c = 't' then (dropWord ['r', 'u', 'e'] t).map (Json.bool true, ·)
  else if c = 'f' then (dropWord ['a', 'l', 's', 'e'] t).map (Json.bool false, ·)
  else if c = '-' then (dropNumber t).map fun r => (numberBefore r, r)
  else if c.isDigit then (dropDigit c t).map fun r => (numberBefore r, r)
  else .error ⟨.noValue, t⟩

theorem map_ok {f : α → β} {x : Except ε α} {b : β} (h : x.map f = .ok b) :
    ∃ a, x = .ok a ∧ f a = b := by
  cases x with
  | error => simp [Except.map] at h
  | ok a => exact ⟨a, rfl, by simpa [Except.map] using h⟩

theorem bind_ok {f : α → Except ε β} {x : Except ε α} {b : β} (h : x.bind f = .ok b) :
    ∃ a, x = .ok a ∧ f a = .ok b := by
  cases x with
  | error => simp [Except.bind] at h
  | ok a => exact ⟨a, rfl, h⟩

theorem dropWord_length {w s r : List Char} (h : dropWord w s = .ok r) : r.length ≤ s.length := by
  fun_induction dropWord w s with
  | case1 => cases h; exact Nat.le_refl _
  | case2 => cases h
  | case3 w c s ih => exact Nat.le_trans (ih h) (Nat.le_succ _)
  | case4 => cases h

theorem dropDigits_length {s r : List Char} (h : dropDigits s = .ok r) : r.length ≤ s.length := by
  unfold dropDigits at h
  split at h
  · cases h
  · split at h <;> cases h
    exact Nat.le_trans (Text.length_dropWhile_le _ _) (Nat.le_succ _)

theorem dropWhole_length {c : Char} {s r : List Char} (h : dropWhole c s = .ok r) :
    r.length ≤ s.length := by
  unfold dropWhole at h
  split at h
  · split at h
    · split at h <;> cases h
      exact Nat.le_refl _
    · cases h
      exact Nat.le_refl _
  · cases h
    exact Text.length_dropWhile_le _ _

theorem dropFraction_length {s r : List Char} (h : dropFraction s = .ok r) :
    r.length ≤ s.length := by
  unfold dropFraction at h
  split at h
  · exact Nat.le_trans (dropDigits_length h) (Nat.le_succ _)
  · cases h
    exact Nat.le_refl _

theorem dropExponent_length {s r : List Char} (h : dropExponent s = .ok r) :
    r.length ≤ s.length := by
  unfold dropExponent at h
  split at h
  · split at h
    · have := dropDigits_length h
      split at this <;> simp at this ⊢ <;> omega
    · cases h
      exact Nat.le_refl _
  · cases h
    exact Nat.le_refl _

theorem dropDigit_length {c : Char} {s r : List Char} (h : dropDigit c s = .ok r) :
    r.length ≤ s.length := by
  obtain ⟨b, h, hc⟩ := bind_ok h
  obtain ⟨a, ha, hb⟩ := bind_ok h
  exact Nat.le_trans (dropExponent_length hc)
    (Nat.le_trans (dropFraction_length hb) (dropWhole_length ha))

theorem dropNumber_length {s r : List Char} (h : dropNumber s = .ok r) : r.length ≤ s.length := by
  unfold dropNumber at h
  split at h
  · cases h
  · split at h
    · exact Nat.le_trans (dropDigit_length h) (Nat.le_succ _)
    · cases h

theorem readLeaf_length {c : Char} {t r : List Char} {v : Json} (h : readLeaf c t = .ok (v, r)) :
    r.length ≤ t.length := by
  unfold readLeaf at h
  repeat' split at h
  · obtain ⟨⟨_, _⟩, ha, he⟩ := map_ok h
    cases he
    exact Nat.le_of_lt (readQuoted_length ha)
  · obtain ⟨_, ha, he⟩ := map_ok h
    cases he
    exact dropWord_length ha
  · obtain ⟨_, ha, he⟩ := map_ok h
    cases he
    exact dropWord_length ha
  · obtain ⟨_, ha, he⟩ := map_ok h
    cases he
    exact dropWord_length ha
  · obtain ⟨_, ha, he⟩ := map_ok h
    cases he
    exact dropNumber_length ha
  · obtain ⟨_, ha, he⟩ := map_ok h
    cases he
    exact dropDigit_length ha
  · cases h

mutual

def readValue (s : List Char) : Read Json s :=
  match h : skipBlanks s with
  | [] => .error ⟨.endInValue, []⟩
  | c :: t =>
    have ht := skipBlanks_cons h
    if c = '[' then
      match hb : skipBlanks t with
      | ']' :: r => .ok (.array [], ⟨r, Nat.lt_trans (skipBlanks_cons hb) ht⟩)
      | [] => .error ⟨.endInArray, []⟩
      | _ :: _ =>
        match readValue t with
        | .error f => .error f
        | .ok (v, ⟨r, hr⟩) =>
          match readItems r with
          | .error f => .error f
          | .ok (vs, ⟨r', hr'⟩) => .ok (.array (v :: vs), ⟨r', by omega⟩)
    else if c = '{' then
      match hb : skipBlanks t with
      | '}' :: r => .ok (.object [], ⟨r, Nat.lt_trans (skipBlanks_cons hb) ht⟩)
      | [] => .error ⟨.endInObject, []⟩
      | _ :: _ =>
        match readKey t with
        | .error f => .error f
        | .ok (key, ⟨r, hr⟩) =>
          match readValue r with
          | .error f => .error f
          | .ok (v, ⟨r', hr'⟩) =>
            match readMembers r' with
            | .error f => .error f
            | .ok (ms, ⟨r'', hr''⟩) => .ok (.object ((key, v) :: ms), ⟨r'', by omega⟩)
    else
      match hl : readLeaf c t with
      | .error f => .error f
      | .ok (v, r) => .ok (v, ⟨r, Nat.lt_of_le_of_lt (readLeaf_length hl) ht⟩)
  termination_by s.length

/-- What follows an item of an array. -/
def readItems (s : List Char) : Read (List Json) s :=
  match h : skipBlanks s with
  | ']' :: r => .ok ([], ⟨r, skipBlanks_cons h⟩)
  | ',' :: t =>
    have ht := skipBlanks_cons h
    match skipBlanks t with
    | ']' :: r => .error ⟨.trailingComma, r⟩
    | _ =>
      match readValue t with
      | .error f => .error f
      | .ok (v, ⟨r, hr⟩) =>
        match readItems r with
        | .error f => .error f
        | .ok (vs, ⟨r', hr'⟩) => .ok (v :: vs, ⟨r', by omega⟩)
  | r => .error (failAt .endInArray .noArrayEnd r)
  termination_by s.length

/-- What follows a member of an object. -/
def readMembers (s : List Char) : Read (List (Option String × Json)) s :=
  match h : skipBlanks s with
  | '}' :: r => .ok ([], ⟨r, skipBlanks_cons h⟩)
  | ',' :: t =>
    have ht := skipBlanks_cons h
    match skipBlanks t with
    | '}' :: r => .error ⟨.trailingComma, r⟩
    | _ =>
      match readKey t with
      | .error f => .error f
      | .ok (key, ⟨r, hr⟩) =>
        match readValue r with
        | .error f => .error f
        | .ok (v, ⟨r', hr'⟩) =>
          match readMembers r' with
          | .error f => .error f
          | .ok (ms, ⟨r'', hr''⟩) => .ok ((key, v) :: ms, ⟨r'', by omega⟩)
  | r => .error (failAt .endInObject .noObjectEnd r)
  termination_by s.length

end

/-- One value and nothing behind it. -/
def readAll (s : List Char) : Except Failure Json :=
  match readValue s with
  | .error f => .error f
  | .ok (v, ⟨r, _⟩) =>
    match skipBlanks r with
    | [] => .ok v
    | r => .error (failAt .endInValue .trailingText r)

/-- The line and the byte in it that a rest starts behind, both counted from one. -/
def place (s rest : List Char) : Nat × Nat :=
  let front := Text.front s rest
  (front.count '\n' + 1, Text.byteLength (front.reverse.takeWhile (· ≠ '\n')))

def Failure.message (s : List Char) (f : Failure) : String :=
  let (line, column) := place s f.rest
  f.cause.message ++ " at line " ++ toString line ++ " column " ++ toString column

def parse (s : String) : Except String Json :=
  (readAll s.toList).mapError (Failure.message s.toList)

end SiteBuild.Json
