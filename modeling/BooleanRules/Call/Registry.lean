import BooleanRules.Call.Output
import BooleanRules.Entries

/-!
# Registered functions

Callables read and change a state of a type `σ` that nobody else looks into.  A
registry is a finite map from names to functions; registering a name again
replaces its function.

* `Function`, `AsyncFunction`, `Predicates`, `Registry`, `Callables` — functions,
  those that promise, predicates, the registry of functions, and all that an
  evaluation runs with.
* `Registry.register`, `Registry.get?`, `Registry.names` — the finite map, with
  `get?_register` and `mem_names_register` saying what registration does.
* `Registry.registerAsync`, `Registry.withFunction`, `Registry.withAsyncFunction` —
  the other ways to register.
-/

namespace BooleanRules

/-- A function takes its positional arguments, and gives a result while it may
change the state of the callables. -/
abbrev Function (σ : Type) := List Value → σ → Output × σ

/-- A function that promises its value whatever the arguments are. -/
abbrev AsyncFunction (σ : Type) := List Value → σ → Promise × σ

/-- A call gives the promise. -/
def AsyncFunction.function {σ : Type} (f : AsyncFunction σ) : Function σ := fun args s =>
  let (promise, s') := f args s
  (.deferred promise, s')

/-- A finite map from names to functions. -/
structure Registry (σ : Type) where
  /-- The functions under their names, in name order. -/
  entries : List (String × Function σ)
  /-- The names ascend strictly. -/
  ascending : Ascending entries

namespace Registry

variable {σ : Type}

/-- The registry without functions. -/
def empty : Registry σ := ⟨[], ascending_nil⟩

instance : Inhabited (Registry σ) := ⟨empty⟩

/-- The registry with `f` under `name`, in place of what was there. -/
def register (r : Registry σ) (name : String) (f : Function σ) : Registry σ :=
  ⟨insertEntry name f r.entries, ascending_insertEntry r.ascending⟩

/-- The registry with a function that promises under `name`. -/
def registerAsync (r : Registry σ) (name : String) (f : AsyncFunction σ) : Registry σ :=
  r.register name f.function

/-- Registration as a step in building a registry. -/
def withFunction (r : Registry σ) (name : String) (f : Function σ) : Registry σ :=
  r.register name f

/-- Registration of a function that promises, as a step in building a registry. -/
def withAsyncFunction (r : Registry σ) (name : String) (f : AsyncFunction σ) : Registry σ :=
  r.registerAsync name f

/-- The function under a name. -/
def get? (r : Registry σ) (name : String) : Option (Function σ) := valueOf? name r.entries

/-- A function is registered under the name. -/
def contains (r : Registry σ) (name : String) : Bool := (r.get? name).isSome

/-- The names, in ascending order. -/
def names (r : Registry σ) : List String := r.entries.map Prod.fst

/-- The number of functions. -/
def size (r : Registry σ) : Nat := r.entries.length

/-- Nothing is registered. -/
def isEmpty (r : Registry σ) : Bool := r.entries.isEmpty

/-- The registry for people: its names. -/
def inspect (r : Registry σ) : String :=
  enclosed "FunctionRegistry \x7b functions: [" (commaSeparated (r.names.map inspected)) "] \x7d"

@[simp] theorem get?_empty (name : String) : (empty : Registry σ).get? name = none := rfl

/-- The last registration under a name counts. -/
theorem get?_register (r : Registry σ) (name name' : String) (f : Function σ) :
    (r.register name f).get? name' = if name' = name then some f else r.get? name' :=
  valueOf?_insertEntry

/-- Registration adds its name and no other. -/
theorem mem_names_register {r : Registry σ} {name name' : String} {f : Function σ} :
    name' ∈ (r.register name f).names ↔ name' = name ∨ name' ∈ r.names :=
  mem_keys_insertEntry

end Registry

/-- What calling the predicate of a name does. -/
abbrev Predicates (σ : Type) := String → σ → Output × σ

/-- The callables that an evaluation runs with. -/
structure Callables (σ : Type) where
  /-- The predicates. -/
  predicate : Predicates σ
  /-- The registered functions. -/
  functions : Registry σ

/-- The function that an expression names; there has to be one. -/
def Callables.function {σ : Type} (env : Callables σ) (name : String) :
    Except EvalError (Function σ) :=
  match env.functions.get? name with
  | some f => .ok f
  | none => .error (.undefinedFunction name)

end BooleanRules
