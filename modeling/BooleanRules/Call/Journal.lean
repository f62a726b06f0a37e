import BooleanRules.Call.Output

/-!
# The journal of an evaluation

What happens during an evaluation, in order: a position of the tree is entered,
a callable is called there and gives a result, a promise is polled for the first
time, a promise gives its value.  The journal is what evaluations are compared
by; its log keeps what a person reads.

* `Position` — the child indices from the root to a place of the tree.
* `Callee`, `Call` — what is called, and where.
* `Event`, `Journal` — the happenings.
* `Journal.lines` — the log of a journal, in which entering a position leaves no
  line and the result of a call is not shown.
-/

namespace BooleanRules

/-- The child indices that lead from the root to a place of the tree. -/
abbrev Position := List Nat

/-- What is called. -/
inductive Callee where
  /-- A predicate. -/
  | predicate (name : String)
  /-- A registered function with its arguments. -/
  | function (name : String) (args : List Value)

namespace Callee

/-- The name of what is called. -/
def name : Callee → String
  | .predicate name => name
  | .function name _ => name

/-- The kind of what is called. -/
def kind : Callee → CallKind
  | .predicate _ => .callback
  | .function _ _ => .function

/-- The name, and the arguments that a function receives. -/
def text : Callee → String
  | .predicate name => name
  | .function name args => name ++ " " ++ (Value.array args).text

end Callee

/-- A call at a place of the tree. -/
structure Call where
  /-- Where the call is made. -/
  position : Position
  /-- What is called. -/
  callee : Callee

/-- The kind of what is called. -/
def Call.kind (c : Call) : CallKind := c.callee.kind

/-- A happening during an evaluation. -/
inductive Event where
  /-- A position is entered. -/
  | visited (position : Position)
  /-- A call is made and gives a result. -/
  | called (call : Call) (output : Output)
  /-- The promise that a call gave is polled for the first time. -/
  | started (call : Call)
  /-- The promise that a call gave gives its value. -/
  | finished (call : Call)

/-- The line of a log for an event, if it leaves one. -/
def Event.line? : Event → Option String
  | .visited _ => none
  | .called c _ => some ("call " ++ c.callee.text)
  | .started c => some ("start " ++ c.callee.name)
  | .finished c => some ("end " ++ c.callee.name)

/-- The happenings of an evaluation, in order. -/
abbrev Journal := List Event

/-- The log of a journal. -/
def Journal.lines (j : Journal) : List String := j.filterMap Event.line?

@[simp] theorem Journal.lines_append (j k : Journal) :
    Journal.lines (j ++ k) = Journal.lines j ++ Journal.lines k :=
  List.filterMap_append

end BooleanRules
