import KeyRemap.Statement

/-!
# Fragments

The statements a rule has gathered for each hook, in order of evaluation.
-/

namespace KeyRemap

/-- The statements of a rule, hook by hook. -/
structure Fragments where
  perHook : PerHook (List Statement)
  deriving DecidableEq

namespace Fragments

def get (fragments : Fragments) (hook : Hook) : List Statement :=
  fragments.perHook.get hook

/-- The fragments with the statements that a function gives. -/
def ofFn (statements : Hook → List Statement) : Fragments :=
  ⟨PerHook.ofFn statements⟩

@[simp]
theorem get_ofFn (statements : Hook → List Statement) (hook : Hook) :
    (ofFn statements).get hook = statements hook :=
  PerHook.get_ofFn statements hook

@[ext]
theorem ext_get {a b : Fragments} (h : ∀ hook, a.get hook = b.get hook) : a = b := by
  cases a
  cases b
  exact congrArg Fragments.mk (PerHook.ext_get h)

def empty : Fragments :=
  ofFn fun _ => []

@[simp]
theorem get_empty (hook : Hook) : empty.get hook = [] :=
  get_ofFn _ hook

/-- One more statement at the end of a hook. -/
def push (fragments : Fragments) (hook : Hook) (statement : Statement) : Fragments :=
  ofFn fun other =>
    if other = hook then fragments.get other ++ [statement] else fragments.get other

@[simp]
theorem get_push (fragments : Fragments) (hook other : Hook) (statement : Statement) :
    (fragments.push hook statement).get other =
      if other = hook then fragments.get other ++ [statement] else fragments.get other :=
  get_ofFn _ other

/-- Several statements, each at the end of its hook. -/
def pushAll (fragments : Fragments) (statements : List (Hook × Statement)) : Fragments :=
  statements.foldl (fun fragments (hook, statement) => fragments.push hook statement) fragments

theorem get_pushAll (fragments : Fragments) (statements : List (Hook × Statement)) (hook : Hook) :
    (fragments.pushAll statements).get hook =
      fragments.get hook ++ (statements.filter fun pushed => pushed.1 = hook).map Prod.snd := by
  induction statements generalizing fragments with
  | nil => simp [pushAll]
  | cons pushed statements ih =>
    have h := ih (fragments.push pushed.1 pushed.2)
    rw [get_push] at h
    by_cases hHook : pushed.1 = hook
    · simpa [pushAll, hHook] using h
    · simpa [pushAll, hHook, Ne.symm hHook] using h

/-- The statements of a second rule after those of the first, hook by hook. -/
def append (first second : Fragments) : Fragments :=
  ofFn fun hook => first.get hook ++ second.get hook

@[simp]
theorem get_append (first second : Fragments) (hook : Hook) :
    (first.append second).get hook = first.get hook ++ second.get hook :=
  get_ofFn _ hook

theorem append_empty (fragments : Fragments) : fragments.append empty = fragments := by
  ext1 hook
  simp

theorem append_push (first second : Fragments) (hook : Hook) (statement : Statement) :
    first.append (second.push hook statement) = (first.append second).push hook statement := by
  ext1 other
  by_cases h : other = hook <;> simp [h]

theorem append_pushAll (first second : Fragments) (statements : List (Hook × Statement)) :
    first.append (second.pushAll statements) = (first.append second).pushAll statements := by
  induction statements generalizing second with
  | nil => rfl
  | cons pushed statements ih =>
    have h := ih (second.push pushed.1 pushed.2)
    rw [append_push] at h
    exact h

def isEmpty (fragments : Fragments) : Bool :=
  Hook.all.all fun hook => (fragments.get hook).isEmpty

/-- The statements of each first-match hook put into one block that begins with guard code; hooks
without statements stay without. -/
def wrapFirstMatch (fragments : Fragments) (guard : String) : Fragments :=
  ofFn fun hook =>
    if hook.isFirstMatch && !(fragments.get hook).isEmpty then
      [.firstMatch guard (fragments.get hook)]
    else fragments.get hook

@[simp]
theorem get_wrapFirstMatch (fragments : Fragments) (guard : String) (hook : Hook) :
    (fragments.wrapFirstMatch guard).get hook =
      if hook.isFirstMatch && !(fragments.get hook).isEmpty then
        [.firstMatch guard (fragments.get hook)]
      else fragments.get hook :=
  get_ofFn _ hook

def text (fragments : Fragments) (hook : Hook) : String :=
  Statement.textAll (fragments.get hook)

end Fragments

end KeyRemap
