/-
The agent's categorizer (`categorize.go`): an app has the category of the rule
whose pattern is its name, else of the first rule whose glob matches it.
-/
import ScrewLogger.Lib.Lower
import ScrewLogger.Lib.PathMatch

namespace ScrewLogger
open Lib

namespace Agent

/-- The category when no rule matches. -/
def uncategorized : Bytes := str "Uncategorized"

structure Rule where
  pattern : Bytes
  category : Bytes
  deriving DecidableEq

/-- The pattern is the app's name, but for case. -/
def Rule.exact (rule : Rule) (app : Bytes) : Bool := lower rule.pattern == lower app

/-- The pattern, as a glob, matches the app's name. -/
def Rule.globs (rule : Rule) (app : Bytes) : Bool := pathMatch (lower rule.pattern) (lower app) == some true

/-- `Rules.Categorize`. -/
def categorize (rules : List Rule) (app : Bytes) : Bytes :=
  match rules.find? (·.exact app) with
  | some rule => rule.category
  | none =>
    match rules.find? (·.globs app) with
    | some rule => rule.category
    | none => uncategorized

/-- A rule matches an app, by its name or as a glob. -/
def Rule.matches (rule : Rule) (app : Bytes) : Bool := rule.exact app || rule.globs app

/-- What a set of one rule makes of an app. -/
theorem categorize_one {rule : Rule} {app : Bytes} :
    categorize [rule] app = if rule.matches app then rule.category else uncategorized := by
  unfold categorize Rule.matches
  by_cases hexact : rule.exact app
  · simp [hexact]
  · by_cases hglobs : rule.globs app <;> simp [hexact, hglobs]

end Agent

end ScrewLogger
