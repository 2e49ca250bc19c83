import KeyRemap.Operand.Table

/-!
# Statements

The statements of generated hooks and their text. A statement ends with a newline. First-match
blocks hold statements, so the text is given by a pair of mutually recursive functions.
-/

namespace KeyRemap

inductive Statement where
  /-- Builds an operand array and registers it in a slot. -/
  | setUpTable (slot : Nat) (table : OperandTable)
  /-- Sets the keyboard type to that of an expression. -/
  | assignKeyboardType (expr : String)
  /-- Tries the entry in a slot and leaves the block if it matches. -/
  | remap (slot : Nat)
  /-- Runs the simultaneous presses of the entry in a slot. -/
  | remapSimultaneous (slot : Nat)
  /-- Drops the key event if the entry in a slot matches. -/
  | dropKey (slot : Nat)
  /-- Answers with an expression as status message. -/
  | returnStatusMessage (expr : String)
  /-- A block that its entries, and the guard code before them, can leave. -/
  | firstMatch (guard : String) (body : List Statement)

namespace Statement

mutual

def beq : Statement → Statement → Bool
  | setUpTable slot table, setUpTable slot' table' => slot == slot' && table == table'
  | assignKeyboardType expr, assignKeyboardType expr' => expr == expr'
  | remap slot, remap slot' => slot == slot'
  | remapSimultaneous slot, remapSimultaneous slot' => slot == slot'
  | dropKey slot, dropKey slot' => slot == slot'
  | returnStatusMessage expr, returnStatusMessage expr' => expr == expr'
  | firstMatch guard body, firstMatch guard' body' => guard == guard' && beqAll body body'
  | _, _ => false

def beqAll : List Statement → List Statement → Bool
  | [], [] => true
  | a :: as, b :: bs => beq a b && beqAll as bs
  | _, _ => false

end

mutual

theorem eq_of_beq : ∀ {a b : Statement}, beq a b = true → a = b
  | setUpTable .., setUpTable .., h => by simpa [beq] using h
  | assignKeyboardType _, assignKeyboardType _, h => by simpa [beq] using h
  | remap _, remap _, h => by simpa [beq] using h
  | remapSimultaneous _, remapSimultaneous _, h => by simpa [beq] using h
  | dropKey _, dropKey _, h => by simpa [beq] using h
  | returnStatusMessage _, returnStatusMessage _, h => by simpa [beq] using h
  | firstMatch guard body, firstMatch guard' body', h => by
    simp only [beq, Bool.and_eq_true, beq_iff_eq] at h
    rw [h.1, eq_of_beqAll h.2]

theorem eq_of_beqAll : ∀ {as bs : List Statement}, beqAll as bs = true → as = bs
  | [], [], _ => rfl
  | a :: as, b :: bs, h => by
    simp only [beqAll, Bool.and_eq_true] at h
    rw [eq_of_beq h.1, eq_of_beqAll h.2]

end

mutual

theorem beq_refl : ∀ a : Statement, beq a a = true
  | setUpTable .. => by simp [beq]
  | assignKeyboardType _ => by simp [beq]
  | remap _ => by simp [beq]
  | remapSimultaneous _ => by simp [beq]
  | dropKey _ => by simp [beq]
  | returnStatusMessage _ => by simp [beq]
  | firstMatch _ body => by simp [beq, beqAll_refl body]

theorem beqAll_refl : ∀ as : List Statement, beqAll as as = true
  | [] => rfl
  | a :: as => by simp [beqAll, beq_refl a, beqAll_refl as]

end

instance : DecidableEq Statement := fun a b =>
  decidable_of_iff (beq a b = true) ⟨eq_of_beq, fun h => h ▸ beq_refl a⟩

/-- The slot as an element of the value array. -/
def slotText (slot : Nat) : String :=
  "value_[" ++ slot.repr ++ "]"

mutual

def text : Statement → String
  | setUpTable slot table =>
    "\x7b\n  const unsigned int vec[] = \x7b " ++ String.intercalate "," table.elements ++
      " \x7d;\n  " ++ slotText slot ++
      ".initialize_remap(vec, sizeof(vec) / sizeof(vec[0]));\n\x7d\n"
  | assignKeyboardType expr => "keyboardType = " ++ expr ++ ".get();\n"
  | remap slot => "if (" ++ slotText slot ++ ".remap(remapParams)) break;\n"
  | remapSimultaneous slot => slotText slot ++ ".remap_SimultaneousKeyPresses();\n"
  | dropKey slot => "if (" ++ slotText slot ++ ".drop(params)) return true;\n"
  | returnStatusMessage expr => "return " ++ expr ++ ";\n"
  | firstMatch guard body => "do \x7b\n" ++ guard ++ textAll body ++ "\x7d while (false);\n"

def textAll : List Statement → String
  | [] => ""
  | statement :: statements => text statement ++ textAll statements

end

/-! The text of each statement holds by definition. -/

theorem text_setUpTable (slot : Nat) (table : OperandTable) :
    text (setUpTable slot table) =
      "\x7b\n  const unsigned int vec[] = \x7b " ++ String.intercalate "," table.elements ++
        " \x7d;\n  " ++ slotText slot ++
        ".initialize_remap(vec, sizeof(vec) / sizeof(vec[0]));\n\x7d\n" :=
  rfl

theorem text_assignKeyboardType (expr : String) :
    text (assignKeyboardType expr) = "keyboardType = " ++ expr ++ ".get();\n" :=
  rfl

theorem text_remap (slot : Nat) :
    text (remap slot) = "if (" ++ slotText slot ++ ".remap(remapParams)) break;\n" :=
  rfl

theorem text_remapSimultaneous (slot : Nat) :
    text (remapSimultaneous slot) = slotText slot ++ ".remap_SimultaneousKeyPresses();\n" :=
  rfl

theorem text_dropKey (slot : Nat) :
    text (dropKey slot) = "if (" ++ slotText slot ++ ".drop(params)) return true;\n" :=
  rfl

theorem text_returnStatusMessage (expr : String) :
    text (returnStatusMessage expr) = "return " ++ expr ++ ";\n" :=
  rfl

theorem text_firstMatch (guard : String) (body : List Statement) :
    text (firstMatch guard body) =
      "do \x7b\n" ++ guard ++ textAll body ++ "\x7d while (false);\n" :=
  rfl

@[simp]
theorem textAll_nil : textAll [] = "" :=
  rfl

@[simp]
theorem textAll_cons (statement : Statement) (statements : List Statement) :
    textAll (statement :: statements) = text statement ++ textAll statements :=
  rfl

end Statement

end KeyRemap
