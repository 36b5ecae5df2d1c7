import SiteBuild.Script.Grammar.Clause
import SiteBuild.Script.Lexer.Lemmas

/-!
Passage a text against a stack of expectations. The tokens read and the rest make up the text, and
reading against two stacks in turn is reading against one on top of the other.
-/
namespace SiteBuild.Script

/-- A token that was read, or the end of a statement that no semicolon marks. -/
inductive Piece
  | lexeme (l : Lexeme)
  | ending
  deriving DecidableEq, Repr

namespace Piece

def source : Piece → List Char
  | .lexeme l => l.source
  | .ending => []

end Piece

def source (ps : List Piece) : List Char := ps.flatMap Piece.source

@[simp] theorem source_nil : source [] = [] := rfl

@[simp] theorem source_cons (p : Piece) (ps : List Piece) : source (p :: ps) = p.source ++ source ps :=
  rfl

@[simp] theorem source_append (ps qs : List Piece) : source (ps ++ qs) = source ps ++ source qs := by
  simp [source]

def left (e : Expectation) : List Piece := if e.endsStatement then [.ending] else []

@[simp] theorem source_left (e : Expectation) : source (left e) = [] := by
  unfold left
  split <;> rfl

/-- What was read, the shape of the expression that was read last, and the rest of the text. -/
structure Passage where
  pieces : List Piece
  shape : Shape
  rest : List Char
  deriving DecidableEq, Repr

/-- A reading with more in front of it. -/
def Passage.behind (ps : List Piece) (r : Passage) : Passage := { r with pieces := ps ++ r.pieces }

@[simp] theorem Passage.behind_nil (r : Passage) : r.behind [] = r := rfl

@[simp] theorem Passage.behind_behind (ps qs : List Piece) (r : Passage) :
    (r.behind qs).behind ps = r.behind (ps ++ qs) := by
  simp [Passage.behind]

/-- Reads until every expectation is met. The end of the text is no token that one may take. -/
def read : List Expectation → Shape → List Char → Option Passage
  | [], shape, s => some ⟨[], shape, s⟩
  | e :: stack, shape, s =>
    match h : next (e.goal (lineEnds s)) s with
    | none => none
    | some (l, r) =>
      match e.move shape l.broken l.token with
      | .moveOn more shape =>
        if ht : l.token = .finish then none
        else
          have := next_length h ht
          (read (more ++ stack) shape r).map (·.behind [.lexeme l])
      | .leave shape => (read stack shape s).map (·.behind (left e))
      | .fail => none
  termination_by stack _ s => (s.length, stack.length)

@[simp] theorem read_nil (shape : Shape) (s : List Char) : read [] shape s = some ⟨[], shape, s⟩ := by
  rw [read]

theorem read_of_take {e : Expectation} {shape shape' : Shape} {s r : List Char} {l : Lexeme}
    {more : List Expectation} (hn : next (e.goal (lineEnds s)) s = some (l, r))
    (hm : e.move shape l.broken l.token = .moveOn more shape') (ht : l.token ≠ .finish)
    (stack : List Expectation) :
    read (e :: stack) shape s = (read (more ++ stack) shape' r).map (·.behind [.lexeme l]) := by
  rw [read]
  split
  · simp_all
  · next l' r' h =>
    rw [hn] at h
    cases h
    simp [hm, ht]

theorem read_of_leave {e : Expectation} {shape shape' : Shape} {s r : List Char} {l : Lexeme}
    (hn : next (e.goal (lineEnds s)) s = some (l, r)) (hm : e.move shape l.broken l.token = .leave shape')
    (stack : List Expectation) :
    read (e :: stack) shape s = (read stack shape' s).map (·.behind (left e)) := by
  rw [read]
  split
  · simp_all
  · next l' r' h =>
    rw [hn] at h
    cases h
    simp [hm]

theorem read_source {stack : List Expectation} {shape : Shape} {s : List Char} {d : Passage}
    (h : read stack shape s = some d) : source d.pieces ++ d.rest = s := by
  fun_induction read stack shape s generalizing d with
  | case1 shape s => cases h; rfl
  | case2 => simp at h
  | case3 => simp at h
  | case4 e stack shape s l t hn more shape' hm ht _ ih =>
    obtain ⟨d', hd, rfl⟩ := Option.map_eq_some_iff.1 h
    have := ih hd
    simp only [Passage.behind, source_append, source_cons, source_nil, List.append_nil,
      List.append_assoc, this]
    exact next_source hn
  | case5 e stack shape s l t hn shape' hm ih =>
    obtain ⟨d', hd, rfl⟩ := Option.map_eq_some_iff.1 h
    simpa [Passage.behind] using ih hd
  | case6 => simp at h

theorem read_append (stack below : List Expectation) (shape : Shape) (s : List Char) :
    read (stack ++ below) shape s =
      (read stack shape s).bind fun d => (read below d.shape d.rest).map (·.behind d.pieces) := by
  fun_induction read stack shape s with
  | case1 shape s => simp
  | case2 e stack shape s h =>
    rw [List.cons_append, read]
    split <;> simp_all
  | case3 e stack shape s l r hn more shape' hm ht =>
    rw [List.cons_append, read]
    split <;> simp_all
  | case4 e stack shape s l r hn more shape' hm ht _ ih =>
    rw [List.cons_append, read_of_take hn hm ht, ← List.append_assoc, ih]
    simp [Option.map_bind, Option.bind_map, Function.comp_def, Passage.behind]
  | case5 e stack shape s l r hn shape' hm ih =>
    rw [List.cons_append, read_of_leave hn hm, ih]
    simp [Option.map_bind, Option.bind_map, Function.comp_def, Passage.behind]
  | case6 e stack shape s l r hn hm =>
    rw [List.cons_append, read]
    split <;> simp_all

end SiteBuild.Script
