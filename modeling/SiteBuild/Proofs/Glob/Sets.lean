import SiteBuild.Glob.Match

/-! Several patterns together. They can be read if each of them can, and match what one of them does. -/

namespace SiteBuild.Glob

/-- A text reads as a pattern that matches a path. -/
def Matches (w path : String) : Prop := ∃ p, Pattern.parse w = .ok p ∧ p.isMatch path = true

namespace PatternSet

variable {w path : String} {texts : List String} {f : Fault}

theorem parse_cons (w : String) (texts : List String) :
    parse (w :: texts) = do
      let p ← Pattern.parse w
      let ps ← parse texts
      return ⟨p :: ps.patterns⟩ := by
  simp only [parse, List.mapM_cons, bind_assoc, pure_bind]

/-- Texts that each read as a pattern read as a set of them. -/
theorem exists_parse (h : ∀ w ∈ texts, ∃ p, Pattern.parse w = .ok p) :
    ∃ ps, parse texts = .ok ps ∧ ∀ path, ps.isMatch path = true ↔ ∃ w ∈ texts, Matches w path := by
  induction texts with
  | nil => exact ⟨⟨[]⟩, rfl, fun path => by simp [isMatch]⟩
  | cons w texts ih =>
    obtain ⟨⟨p, hp⟩, htexts⟩ := List.forall_mem_cons.1 h
    obtain ⟨ps, hps, hmatch⟩ := ih htexts
    refine ⟨⟨p :: ps.patterns⟩, by rw [parse_cons, hp, hps]; rfl, fun path => ?_⟩
    have hfirst : Matches w path ↔ p.isMatch path = true := by
      simp [Matches, hp]
    simp only [List.mem_cons, exists_eq_or_imp, hfirst, ← hmatch]
    simp [isMatch]

/-- One text that reads as no pattern has them all refused, for it or for an earlier one. -/
theorem exists_parse_eq_error (hw : w ∈ texts) (h : Pattern.parse w = .error f) :
    ∃ g, parse texts = .error g ∧ ∃ v ∈ texts, Pattern.parse v = .error g := by
  induction texts with
  | nil => cases hw
  | cons v texts ih =>
    rw [parse_cons]
    cases hv : Pattern.parse v with
    | error g => exact ⟨g, rfl, v, List.mem_cons_self, hv⟩
    | ok p =>
      have hw : w ∈ texts := by
        rcases List.mem_cons.1 hw with rfl | hw
        · rw [h] at hv
          cases hv
        · exact hw
      obtain ⟨g, hg, u, hu, hf⟩ := ih hw
      exact ⟨g, by rw [hg]; rfl, u, List.mem_cons_of_mem v hu, hf⟩

end PatternSet

end SiteBuild.Glob
