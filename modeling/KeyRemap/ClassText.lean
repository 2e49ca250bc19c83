import KeyRemap.Registry
import KeyRemap.Rule

/-!
# Class text

A rule with statements is written as a class: the hooks that have code, the enable predicate and the
value array. The same step gives the rule's registry entry. A rule without statements is written as
nothing and has an absent entry.
-/

namespace KeyRemap

/-- The rule whose enable predicate reads the passthrough switch. -/
def passthroughRule : String :=
  "notsave_passthrough"

/-- What the names of rules begin with that stay active while passthrough is on. -/
def passthroughStem : String :=
  "passthrough_"

/-- When a rule is active. -/
inductive Enabled where
  | passthroughSwitch
  | flag (index : UInt32)
  | flagUnlessPassthrough (index : UInt32)
  deriving DecidableEq, Repr

namespace Enabled

/-- The predicate of a rule, which its name decides. -/
def ofRule (resolver : Resolver) (name : String) : Except CompileError Enabled :=
  if name = passthroughRule then .ok passthroughSwitch
  else
    match resolver.flag? name with
    | none => .error (.noFlag name)
    | some index =>
      if passthroughStem.toList.isPrefixOf name.toList then .ok (flag index)
      else .ok (flagUnlessPassthrough index)

/-- The position of the flag that the predicate reads. -/
def index? : Enabled → Option UInt32
  | passthroughSwitch => none
  | flag index => some index
  | flagUnlessPassthrough index => some index

def code : Enabled → String
  | passthroughSwitch => "return config.notsave_passthrough;\n"
  | flag index => "return config.enabled_flags[" ++ index.toNat.repr ++ "];\n"
  | flagUnlessPassthrough index =>
    "return config.enabled_flags[" ++ index.toNat.repr ++ "] && ! config.notsave_passthrough;\n"

end Enabled

namespace Rule

/-- The hooks that the class defines: those with code, and the two that every class has. -/
def definedHooks (rule : Rule) : List Hook :=
  Hook.all.filter fun hook => !hook.isOptional || !(rule.fragments.get hook).isEmpty

/-- The size of the value array; an array has at least one element. -/
def arraySize (rule : Rule) : Nat :=
  max rule.slotCount 1

def hookBody (rule : Rule) : Hook → String
  | .teardown =>
    "  for (size_t i = 0; i < sizeof(value_) / sizeof(value_[0]); ++i) \x7b\n" ++
      "    value_[i].terminate();\n  \x7d\n"
  | .dropKey =>
    "if (! enabled()) return false;\n" ++ rule.fragments.text .dropKey ++ "return false;\n"
  | hook => rule.fragments.text hook

def hookText (rule : Rule) (hook : Hook) : String :=
  hook.signature ++ " \x7b\n" ++ rule.hookBody hook ++ "\x7d\n"

def openingText (rule : Rule) : String :=
  "class " ++ rule.className ++ " \x7b\npublic:\n"

/-- The function that tells whether the rule is active. -/
def enabledText (enabled : Enabled) : String :=
  "static bool enabled(void) \x7b\n" ++ enabled.code ++ "\x7d\n"

/-- The value array and the end of the class. -/
def storageText (rule : Rule) : String :=
  "\nprivate:\nstatic RemapClass::Item value_[" ++ rule.arraySize.repr ++ "];\n\x7d;\n" ++
    "RemapClass::Item " ++ rule.className ++ "::value_[" ++ rule.arraySize.repr ++ "];\n\n\n"

def classText (rule : Rule) (enabled : Enabled) : String :=
  rule.openingText ++ String.join (rule.definedHooks.map rule.hookText) ++ enabledText enabled ++
    rule.storageText

/-- The registry entry of a rule that is written as a class. -/
def entry (rule : Rule) : Registry.Entry where
  name := rule.name
  hooks := PerHook.ofFn fun hook =>
    if hook ∈ rule.definedHooks then some (rule.className ++ "::" ++ hook.name) else none
  enabled := some (rule.className ++ "::enabled")

/-- A rule written out: its text, its entry and what is reported about it. -/
structure Rendered where
  code : String
  entry : Registry.Entry
  events : List Event
  deriving DecidableEq, Repr

def render (resolver : Resolver) (rule : Rule) : Except CompileError Rendered :=
  if rule.isEmpty then .ok { code := "", entry := .absent rule.name, events := [] }
  else
    match Enabled.ofRule resolver rule.name with
    | .error e => .error e
    | .ok enabled =>
      .ok
        { code := rule.classText enabled
          entry := rule.entry
          events := [.rendered rule.className rule.tableCount rule.arraySize] }

end Rule

end KeyRemap
