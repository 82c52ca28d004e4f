import HeapWalk.Command.Directive

/-!
# Log filters

A log filter is a list of directives with commas between them. Directives on spans and on values of
fields concern no event of this program. Each other directive is a rule for the components whose
names start with its target; the more a directive says, the earlier its rule, and of two directives
with the same target and field the later counts.
-/

set_option autoImplicit false

namespace HeapWalk.Command

namespace Directive

/-- Whether a directive concerns events at all. -/
def onEvents (d : Directive) : Bool := d.span.isNone && !(d.field.any FieldTest.valued)

/-- How much the target of a directive says. -/
def targetWeight (d : Directive) : Nat :=
  match d.target with
  | some target => target.utf8ByteSize + 1
  | none => 0

/-- What the place of a directive among others depends on. -/
def key (d : Directive) : Nat × Nat × String × String :=
  (d.targetWeight, if d.field.isSome then 1 else 0, d.target.getD "",
    (d.field.map FieldTest.name).getD "")

/-- Whether the rule of `d` comes before that of `e`. -/
def precedes (d e : Directive) : Bool :=
  match compare d.key.1 e.key.1, compare d.key.2.1 e.key.2.1, compare d.key.2.2.1 e.key.2.2.1 with
  | .eq, .eq, .eq => e.key.2.2.2 < d.key.2.2.2
  | .eq, .eq, o | .eq, o, _ | o, _, _ => o == .gt

/-- Puts a directive in its place, instead of one with the same target and field. -/
def insert (d : Directive) : List Directive → List Directive
  | [] => [d]
  | e :: rest =>
    if d.precedes e then d :: e :: rest
    else if e.precedes d then e :: insert d rest
    else d :: rest

/-- The rule of a directive, where components have the names that `nameOf` gives. -/
def rule (nameOf : Component → String) (d : Directive) : Rule where
  components := Component.all.filter fun c => (nameOf c).startsWith (d.target.getD "")
  fields := (d.field.map FieldTest.name).toList
  verbosity := d.verbosity

end Directive

/-- The filter that a list of directives makes; without any, errors are kept. -/
def filterOf (nameOf : Component → String) (directives : List Directive) : Filter :=
  match directives with
  | [] => .upTo .error
  | _ =>
    let ordered := (directives.filter Directive.onEvents).foldl (fun ds d => d.insert ds) []
    ordered.map (Directive.rule nameOf)

/-- The filter that `text` writes, unless one of its directives is ill-formed. -/
def filter? (nameOf : Component → String) (text : String) : Option Filter :=
  (((text.splitOn ",").filter (· != "")).mapM directive?).map (filterOf nameOf)

end HeapWalk.Command
