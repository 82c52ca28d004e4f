import HeapWalk.Journal.Basic

/-!
# Filters

A filter is a list of rules, and it says which events a journal keeps. A rule concerns the events of
some components that have certain fields. The first rule that concerns an event decides on it by the
event's level; an event that no rule concerns is not kept.
-/

set_option autoImplicit false

namespace HeapWalk

/-- The gravity from which on events are kept; none is kept by `off`. -/
inductive Verbosity where
  | off
  | upTo (l : Level)
deriving DecidableEq, Repr, Inhabited

def Verbosity.admits : Verbosity → Level → Bool
  | off, _ => false
  | upTo most, l => l.rank ≤ most.rank

structure Rule where
  components : List Component := Component.all
  /-- The fields that an event must have. -/
  fields : List String := []
  verbosity : Verbosity
deriving DecidableEq, Repr, Inhabited

def Rule.concerns (r : Rule) (e : Event) : Bool :=
  r.components.contains e.component && r.fields.all e.fieldNames.contains

abbrev Filter := List Rule

namespace Filter

def admits (f : Filter) (e : Event) : Bool :=
  match f.find? (·.concerns e) with
  | some r => r.verbosity.admits e.level
  | none => false

/-- Keeps no event. -/
def off : Filter := []

/-- Keeps the events of level `l` and of graver ones. -/
def upTo (l : Level) : Filter := [{ verbosity := .upTo l }]

end Filter

end HeapWalk
