import SiteBuild.Stylesheet.Rule

/-!
Rules joined to fewer. A rule is joined to the one in front of it if both choose the same elements or
declare the same. A rule that sets all that an earlier one does leaves nothing of that one.
-/
namespace SiteBuild.Stylesheet

/-- What a rule sets, and where. -/
structure Aim where
  selectors : List (List Char)
  names : List String
  deriving DecidableEq, Repr

def Rule.aim? : Rule → Option Aim
  | .style selectors ds => some ⟨selectors, ds.map Declaration.name⟩
  | _ => none

/-- How deep blocks are nested. -/
def Rule.depth : Rule → Nat
  | .media _ rules => depthAll rules + 1
  | _ => 0
where
  depthAll : List Rule → Nat
    | [] => 0
    | r :: rules => max r.depth (depthAll rules)

/-- Rules that have been joined. -/
structure Joining where
  /-- In reverse. -/
  rules : List Rule
  /-- What rules set when they were added, and how many rules stood in front. -/
  seen : List (Aim × Nat)

namespace Joining

/-- One rule of style for two, if there is one that does what both do. -/
def join? : Rule → Rule → Option Rule
  | .style selectors ds, .style selectors' ds' =>
    if selectors = selectors' then some (.style selectors (arrange (ds ++ ds')))
    else if ds = ds' then some (.style (selectors ++ selectors') ds)
    else none
  | _, _ => none

/-- Joins the last rules for as long as they can be. -/
def settle : List Rule → List Rule
  | last :: previous :: rules =>
    match join? previous last with
    | some r => settle (r :: rules)
    | none => last :: previous :: rules
  | rules => rules
termination_by rules => rules.length

/-- The rule with a number of others in front. -/
def get? (j : Joining) (place : Nat) : Option Rule := j.rules.reverse[place]?

def void (j : Joining) (place : Nat) : List Rule := (j.rules.reverse.set place .void).reverse

/-- Adds a rule behind all others. One that has set the same is void, unless it has changed. -/
def push (j : Joining) (rule : Rule) (aim : Aim) : Joining :=
  let place := j.rules.length
  let j := { j with rules := rule :: j.rules }
  let same := fun (entry : Aim × Nat) =>
    entry.1 = aim && ((j.get? entry.2).bind Rule.aim?) = some aim
  match j.seen.find? same with
  | some entry => ⟨j.void entry.2, (aim, place) :: j.seen.filter (!same ·)⟩
  | none => { j with seen := (aim, place) :: j.seen }

def addStyle (j : Joining) (selectors : List (List Char)) (ds : List Declaration) : Joining :=
  let rule := Rule.style selectors ds
  match j.rules with
  | [] => j.push rule ⟨selectors, ds.map Declaration.name⟩
  | last :: rules =>
    match join? last rule with
    | some r => { j with rules := settle (r :: rules) }
    | none => j.push rule ⟨selectors, ds.map Declaration.name⟩

/-- Adds a block for media, unless there is nothing in it or nothing it is for. -/
def addBlock (j : Joining) (query : List Char) (rules : List Rule) : Joining :=
  if rules.isEmpty || query = "not all".toList then j
  else { j with rules := .media query rules :: j.rules }

/-- Adds a rule. `inner` joins the rules within a block; blocks for the same media are one. -/
def add (inner : List Rule → List Rule) (j : Joining) : Rule → Joining
  | .style selectors ds => if ds.isEmpty then j else j.addStyle selectors (arrange ds)
  | .media query rules =>
    match j.rules with
    | .media query' rules' :: before =>
      if query = query' then { j with rules := .media query (inner (rules' ++ rules)) :: before }
      else j.addBlock query (inner rules)
    | _ => j.addBlock query (inner rules)
  | r => { j with rules := r :: j.rules }

end Joining

/-- Joins rules with blocks of some depth. -/
def joinNested : Nat → List Rule → List Rule
  | 0, rules => (rules.foldl (Joining.add id) ⟨[], []⟩).rules.reverse
  | depth + 1, rules => (rules.foldl (Joining.add (joinNested depth)) ⟨[], []⟩).rules.reverse

def joinRules (rules : List Rule) : List Rule := joinNested (Rule.depth.depthAll rules) rules

end SiteBuild.Stylesheet
