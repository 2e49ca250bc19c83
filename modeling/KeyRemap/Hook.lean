/-!
# Hooks

A generated class offers up to nine entry points, the hooks. `PerHook` holds one value for each of
them; its view is the function `PerHook.get`.
-/

namespace KeyRemap

/-- The entry points of a generated class, in the order in which they are written. -/
inductive Hook where
  | setup
  | teardown
  | keyboardType
  | key
  | consumer
  | pointing
  | simultaneous
  | statusMessage
  | dropKey
  deriving DecidableEq, Repr

namespace Hook

/-- All hooks, in the order in which they are written. -/
def all : List Hook :=
  [setup, teardown, keyboardType, key, consumer, pointing, simultaneous, statusMessage, dropKey]

theorem mem_all (hook : Hook) : hook ∈ all := by
  cases hook <;> decide

/-- The name of the generated function. -/
def name : Hook → String
  | setup => "initialize"
  | teardown => "terminate"
  | keyboardType => "remap_setkeyboardtype"
  | key => "remap_key"
  | consumer => "remap_consumer"
  | pointing => "remap_pointing"
  | simultaneous => "remap_simultaneouskeypresses"
  | statusMessage => "get_statusmessage"
  | dropKey => "remap_dropkeyafterremap"

def ofName? (name : String) : Option Hook :=
  all.find? (fun hook => hook.name == name)

/-- Whether the hook tries its entries in order and stops at the first that matches. -/
def isFirstMatch : Hook → Bool
  | key | consumer | pointing | simultaneous => true
  | _ => false

/-- Whether the hook is left out of a class that has no code for it. -/
def isOptional : Hook → Bool
  | setup | teardown => false
  | _ => true

/-- The declaration of the generated function. -/
def signature : Hook → String
  | setup => "static void initialize(void)"
  | teardown => "static void terminate(void)"
  | keyboardType => "static void remap_setkeyboardtype(KeyboardType& keyboardType)"
  | key => "static void remap_key(RemapParams& remapParams)"
  | consumer => "static void remap_consumer(RemapConsumerParams& remapParams)"
  | pointing => "static void remap_pointing(RemapPointingParams_relative& remapParams)"
  | simultaneous => "static void remap_simultaneouskeypresses(void)"
  | statusMessage => "static const char* get_statusmessage(void)"
  | dropKey => "static bool remap_dropkeyafterremap(const Params_KeyboardEventCallBack& params)"

end Hook

/-- One value for each hook. -/
structure PerHook (α : Type) where
  setup : α
  teardown : α
  keyboardType : α
  key : α
  consumer : α
  pointing : α
  simultaneous : α
  statusMessage : α
  dropKey : α
  deriving DecidableEq, Repr

namespace PerHook

variable {α : Type}

def get (values : PerHook α) : Hook → α
  | .setup => values.setup
  | .teardown => values.teardown
  | .keyboardType => values.keyboardType
  | .key => values.key
  | .consumer => values.consumer
  | .pointing => values.pointing
  | .simultaneous => values.simultaneous
  | .statusMessage => values.statusMessage
  | .dropKey => values.dropKey

def ofFn (value : Hook → α) : PerHook α where
  setup := value .setup
  teardown := value .teardown
  keyboardType := value .keyboardType
  key := value .key
  consumer := value .consumer
  pointing := value .pointing
  simultaneous := value .simultaneous
  statusMessage := value .statusMessage
  dropKey := value .dropKey

@[simp]
theorem get_ofFn (value : Hook → α) (hook : Hook) : (ofFn value).get hook = value hook := by
  cases hook <;> rfl

@[ext]
theorem ext_get {a b : PerHook α} (h : ∀ hook, a.get hook = b.get hook) : a = b := by
  cases a
  cases b
  have hs := h .setup
  have ht := h .teardown
  have hk := h .keyboardType
  have hy := h .key
  have hc := h .consumer
  have hp := h .pointing
  have hm := h .simultaneous
  have hg := h .statusMessage
  have hd := h .dropKey
  simp only [get] at hs ht hk hy hc hp hm hg hd
  subst_vars
  rfl

/-- The values with the one at a hook replaced. -/
def set (values : PerHook α) (hook : Hook) (value : α) : PerHook α :=
  ofFn fun other => if other = hook then value else values.get other

@[simp]
theorem get_set (values : PerHook α) (hook other : Hook) (value : α) :
    (values.set hook value).get other = if other = hook then value else values.get other :=
  get_ofFn _ other

/-- The values in hook order. -/
def toList (values : PerHook α) : List α :=
  Hook.all.map values.get

end PerHook

end KeyRemap
