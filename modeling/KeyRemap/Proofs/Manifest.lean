import KeyRemap.Proofs.QuotedText
import KeyRemap.Registry.Manifest
import KeyRemap.Toml.Document
import Mathlib.Data.List.Forall2
import Mathlib.Data.List.Nodup

/-!
# Reading the manifest back

The manifest of a registry is a document that the reader of files takes: a list of tables, one for
each entry, that hold the entry's name and the references that are there. An entry is determined by
its table, so the text of a manifest determines the registry.

* `Toml.blocks?_line`: what the reader of a document makes of a line with a key and a string.
* `Toml.assignAll_strings`: assignments to different keys make a table that holds them in order.
* `Registry.Entry.eq_of_presentFields_eq`: an entry is determined by its fields that are there.
* `Registry.read?_manifest`: the document that is read from a manifest.
* `Registry.manifest_eq_iff`: registries have the same manifest exactly if they agree position by
  position.
-/

namespace KeyRemap

namespace Toml

/-! ## Lines -/

/-- A key that needs no quotes. -/
def IsBareKey (key : String) : Prop :=
  key.toList ≠ [] ∧ key.toList.all isBareKeyChar = true

instance (key : String) : Decidable (IsBareKey key) :=
  inferInstanceAs (Decidable (_ ∧ _))

theorem IsBareKey.bare {key : String} (h : IsBareKey key) :
    ∀ c ∈ key.toList, isBareKeyChar c = true :=
  List.all_eq_true.mp h.2

theorem ne_of_isBareKeyChar {c d : Char} (hc : isBareKeyChar c = true)
    (hd : isBareKeyChar d = false) : c ≠ d := by
  rintro rfl
  rw [hc] at hd
  cases hd

theorem skipSpaces_of_isBareKeyChar {c : Char} (h : isBareKeyChar c = true) (rest : List Char) :
    skipSpaces (c :: rest) = c :: rest := by
  have hBlank : c ≠ ' ' := ne_of_isBareKeyChar h (by decide)
  have hTab : c ≠ '\t' := ne_of_isBareKeyChar h (by decide)
  simp [skipSpaces, isSpace, hBlank, hTab]

theorem IsBareKey.exists_cons {key : String} (h : IsBareKey key) :
    ∃ c cs, key.toList = c :: cs ∧ isBareKeyChar c = true := by
  obtain ⟨c, cs, hKey⟩ := List.exists_cons_of_ne_nil h.1
  exact ⟨c, cs, hKey, h.bare c (hKey ▸ List.mem_cons_self)⟩

theorem keyPart?_of_isBareKey {key : String} (h : IsBareKey key) (rest : List Char) :
    keyPart? (key.toList ++ (" = ".toList ++ rest)) = some (key, '=' :: ' ' :: rest) := by
  obtain ⟨c, cs, hKey, hc⟩ := h.exists_cons
  have hDouble : c ≠ '"' := ne_of_isBareKeyChar hc (by decide)
  have hSingle : c ≠ '\'' := ne_of_isBareKeyChar hc (by decide)
  have hTake : (key.toList ++ (" = ".toList ++ rest)).takeWhile isBareKeyChar = key.toList := by
    rw [List.takeWhile_append_of_pos h.bare]
    exact List.append_nil _
  have hDrop : skipSpaces ((key.toList ++ (" = ".toList ++ rest)).dropWhile isBareKeyChar) =
      '=' :: ' ' :: rest := by
    rw [List.dropWhile_append_of_pos h.bare]
    rfl
  rw [hKey, List.cons_append] at hTake hDrop ⊢
  rw [keyPart?, skipSpaces_of_isBareKeyChar hc]
  simp only [hDouble, hSingle, hc, hTake, hDrop, decide_false, Bool.or_self, Bool.false_eq_true,
    if_false, if_true]
  rw [← hKey, String.ofList_toList]

theorem key?_of_isBareKey {key : String} (h : IsBareKey key) (rest : List Char) :
    key? (key.toList ++ (" = ".toList ++ rest)) =
      some ({ path := [], name := key }, '=' :: ' ' :: rest) := by
  unfold key? depthLimit
  rw [keyUpTo?, keyPart?_of_isBareKey h]
  rfl

/-- A quoted string begins with a quote, so the reader takes it for a string. -/
theorem valueUpTo?_quoted (depth : Nat) (s : String) (rest : List Char) :
    valueUpTo? depth ((quoted s).toList ++ '\n' :: rest) = some (.string s, '\n' :: rest) := by
  have hRead : string? ((quoted s).toList ++ '\n' :: rest) = some (s.toList, '\n' :: rest) :=
    string?_quoted s (by simp) (by simp)
  have hScalar : valueUpTo? depth ((quoted s).toList ++ '\n' :: rest) =
      (string? ((quoted s).toList ++ '\n' :: rest)).map fun read =>
        (.string (String.ofList read.1), read.2) := by
    rw [quoted, String.toList_ofList]
    cases Quoting.of s.toList <;> cases depth <;> rfl
  rw [hScalar, hRead]
  simp

/-- The assignment of a string to a key without a path. -/
def stringAssignment (field : String × String) : Key × Value :=
  ({ path := [], name := field.1 }, .string field.2)

theorem assignment?_line {key : String} (h : IsBareKey key) (value : String) (rest : List Char) :
    assignment? (valueUpTo? depthLimit)
        (key.toList ++ (" = ".toList ++ ((quoted value).toList ++ '\n' :: rest))) =
      some (stringAssignment (key, value), '\n' :: rest) := by
  have hSpace : skipSpaces (' ' :: ((quoted value).toList ++ '\n' :: rest)) =
      (quoted value).toList ++ '\n' :: rest := by
    rw [quoted, String.toList_ofList]
    cases Quoting.of value.toList <;> rfl
  rw [assignment?, key?_of_isBareKey h]
  simp only [hSpace, valueUpTo?_quoted]
  rfl

theorem blocks?_line {key : String} (h : IsBareKey key) (value : String) (steps : Nat)
    (rest : List Char) :
    blocks? (steps + 1)
        (key.toList ++ (" = ".toList ++ ((quoted value).toList ++ '\n' :: rest))) =
      (blocks? steps rest).map fun (assignments, blocks) =>
        (stringAssignment (key, value) :: assignments, blocks) := by
  have hRead := assignment?_line h value rest
  obtain ⟨c, cs, hKey, hc⟩ := h.exists_cons
  have hBracket : c ≠ '[' := ne_of_isBareKeyChar hc (by decide)
  have hComment : c ≠ '#' := ne_of_isBareKeyChar hc (by decide)
  have hNewline : c ≠ '\n' := ne_of_isBareKeyChar hc (by decide)
  have hReturn : c ≠ '\r' := ne_of_isBareKeyChar hc (by decide)
  rw [hKey, List.cons_append] at hRead ⊢
  rw [blocks?, skipSpaces_of_isBareKeyChar hc]
  split
  · contradiction
  · rename_i heq
    exact absurd (List.cons.inj heq).1 hBracket
  · rename_i heq
    cases heq
    simp only [hComment, hNewline, hReturn, hRead]
    rfl

/-- With more steps than the text has characters the reader gives these assignments and blocks. -/
def ReadsBlocks (cs : List Char) (result : List (Key × Value) × List Block) : Prop :=
  ∀ steps, cs.length < steps → blocks? steps cs = some result

theorem readsBlocks_nil : ReadsBlocks [] ([], []) := by
  intro steps hSteps
  obtain ⟨steps, rfl⟩ : ∃ fewer, steps = fewer + 1 := ⟨steps - 1, by omega⟩
  rfl

/-- One more line before a text. -/
theorem ReadsBlocks.cons {rest : List Char} {result : List (Key × Value) × List Block}
    (h : ReadsBlocks rest result) {text : List Char} (hLength : rest.length < text.length)
    {change : List (Key × Value) × List Block → List (Key × Value) × List Block}
    (hStep : ∀ steps, blocks? (steps + 1) text = (blocks? steps rest).map change) :
    ReadsBlocks text (change result) := by
  intro steps hSteps
  obtain ⟨steps, rfl⟩ : ∃ fewer, steps = fewer + 1 := ⟨steps - 1, by omega⟩
  rw [hStep, h steps (by omega), Option.map_some]

/-! ## Tables -/

/-- A key and a string in a table. -/
def stringEntry (field : String × String) : String × Value :=
  (field.1, .string field.2)

theorem stringEntry_injective : Function.Injective stringEntry := by
  rintro ⟨key, value⟩ ⟨otherKey, otherValue⟩ h
  simpa [stringEntry] using h

theorem lookup_map_stringEntry {fields : List (String × String)} {key : String}
    (h : key ∉ fields.map Prod.fst) : (fields.map stringEntry).lookup key = none := by
  rw [List.lookup_eq_none_iff]
  intro entry hEntry
  obtain ⟨field, hField, rfl⟩ := List.mem_map.mp hEntry
  have hNe : key ≠ field.1 := fun hKey => h (hKey ▸ List.mem_map_of_mem hField)
  simpa [stringEntry] using hNe

/-- Assignments to different keys make a table that holds them in order. -/
theorem assignAll_strings {done fields : List (String × String)}
    (h : ((done ++ fields).map Prod.fst).Nodup) :
    assignAll (fields.map stringAssignment) (done.map stringEntry) =
      some ((done ++ fields).map stringEntry) := by
  induction fields generalizing done with
  | nil => simp [assignAll]
  | cons field fields ih =>
    have hNew : field.1 ∉ done.map Prod.fst := by
      intro hOld
      rw [List.map_append, List.nodup_append] at h
      exact h.2.2 _ hOld _ List.mem_cons_self rfl
    have hAssign : assign { path := [], name := field.1 } (.string field.2) (done.map stringEntry) =
        some ((done ++ [field]).map stringEntry) := by
      simp [assign, descend, lookup_map_stringEntry hNew, stringEntry]
    rw [List.map_cons, stringAssignment, assignAll, hAssign]
    have hMore := @ih (done ++ [field]) (by simpa using h)
    simpa using hMore

end Toml

namespace Registry

/-! ## The fields of an entry -/

/-- The fields that are there, of fields that may be missing. -/
def presentFields (slots : List (String × Option String)) : List (String × String) :=
  slots.filterMap fun (key, value) => value.map fun value => (key, value)

@[simp]
theorem presentFields_none (key : String) (slots : List (String × Option String)) :
    presentFields ((key, none) :: slots) = presentFields slots :=
  rfl

@[simp]
theorem presentFields_some (key value : String) (slots : List (String × Option String)) :
    presentFields ((key, some value) :: slots) = (key, value) :: presentFields slots :=
  rfl

theorem keys_presentFields (slots : List (String × Option String)) :
    ((presentFields slots).map Prod.fst).Sublist (slots.map Prod.fst) := by
  induction slots with
  | nil => exact List.Sublist.refl _
  | cons slot slots ih =>
    obtain ⟨key, value⟩ := slot
    cases value with
    | none => exact ih.cons key
    | some value => exact ih.cons_cons key

theorem not_mem_presentFields {slots : List (String × Option String)} {key : String}
    (h : key ∉ slots.map Prod.fst) (value : String) : (key, value) ∉ presentFields slots := by
  intro hMem
  have hKey : key ∈ (presentFields slots).map Prod.fst := List.mem_map_of_mem hMem
  exact h ((keys_presentFields slots).subset hKey)

/-- Where the keys are given and differ, a field that is missing shows in what is there. -/
theorem slots_eq_of_presentFields_eq {slots others : List (String × Option String)}
    (hKeys : slots.map Prod.fst = others.map Prod.fst) (hNodup : (slots.map Prod.fst).Nodup)
    (h : presentFields slots = presentFields others) : slots = others := by
  induction slots generalizing others with
  | nil =>
    rw [List.map_nil] at hKeys
    exact (List.map_eq_nil_iff.mp hKeys.symm).symm
  | cons slot slots ih =>
    obtain ⟨key, value⟩ := slot
    cases others with
    | nil => cases hKeys
    | cons other others =>
      obtain ⟨otherKey, otherValue⟩ := other
      rw [List.map_cons, List.map_cons, List.cons.injEq] at hKeys
      obtain ⟨rfl, hKeys⟩ := hKeys
      rw [List.map_cons, List.nodup_cons] at hNodup
      obtain ⟨hNew, hNodup⟩ := hNodup
      -- If only one side has the field, its key leads a list that is made from the other keys.
      cases value with
      | none =>
        cases otherValue with
        | none => rw [ih hKeys hNodup h]
        | some otherValue =>
          rw [presentFields_none, presentFields_some] at h
          exact absurd (h ▸ List.mem_cons_self) (not_mem_presentFields hNew otherValue)
      | some value =>
        cases otherValue with
        | none =>
          rw [presentFields_none, presentFields_some] at h
          rw [hKeys] at hNew
          exact absurd (h ▸ List.mem_cons_self) (not_mem_presentFields hNew value)
        | some otherValue =>
          rw [presentFields_some, presentFields_some, List.cons.injEq, Prod.mk.injEq] at h
          rw [h.1.2, ih hKeys hNodup h.2]

namespace Entry

theorem eq_iff {first second : Entry} :
    first = second ↔ first.name = second.name ∧ (∀ hook, first.hook hook = second.hook hook) ∧
      first.enabled = second.enabled := by
  constructor
  · rintro rfl
    exact ⟨rfl, fun _ => rfl, rfl⟩
  · rintro ⟨hName, hHook, hEnabled⟩
    have hHooks : first.hooks = second.hooks := PerHook.ext_get hHook
    cases first
    cases second
    rw [mk.injEq]
    exact ⟨hName, hHooks, hEnabled⟩

/-- The fields of an entry, in the order in which they are written. -/
def slots (entry : Entry) : List (String × Option String) :=
  ("name", some entry.name) :: Hook.all.map (fun hook => (hook.name, entry.hook hook)) ++
    [("enabled", entry.enabled)]

/-- The keys of the fields are the same for all entries. -/
theorem keys_slots (entry : Entry) :
    entry.slots.map Prod.fst = "name" :: Hook.all.map Hook.name ++ ["enabled"] :=
  rfl

theorem nodup_keys_slots (entry : Entry) : (entry.slots.map Prod.fst).Nodup := by
  rw [keys_slots]
  decide

theorem isBareKey_of_mem_slots {entry : Entry} {key : String}
    (h : key ∈ entry.slots.map Prod.fst) : Toml.IsBareKey key := by
  have hHook : ∀ hook : Hook, Toml.IsBareKey hook.name := by
    intro hook
    cases hook <;> decide
  rw [keys_slots, List.mem_append, List.mem_cons, List.mem_map, List.mem_singleton] at h
  rcases h with (rfl | ⟨hook, _, rfl⟩) | rfl
  · decide
  · exact hHook hook
  · decide

/-- An entry is determined by its fields that are there. -/
theorem eq_of_presentFields_eq {first second : Entry}
    (h : presentFields first.slots = presentFields second.slots) : first = second := by
  have hSlots := slots_eq_of_presentFields_eq
    ((keys_slots first).trans (keys_slots second).symm) (nodup_keys_slots first) h
  obtain ⟨hFields, hLast⟩ := List.append_inj' hSlots rfl
  obtain ⟨hName, hHooks⟩ := List.cons.inj hFields
  refine eq_iff.mpr ⟨?_, ?_, ?_⟩
  · simpa using hName
  · intro hook
    have hField := List.map_inj_left.mp hHooks hook (Hook.mem_all hook)
    exact congrArg Prod.snd hField
  · simpa using hLast

end Entry

/-! ## The text of the tables -/

/-- The line of a field. -/
def fieldLine (field : String × String) : List Char :=
  (manifestLine field.1 field.2).toList

theorem fieldLine_append (field : String × String) (rest : List Char) :
    fieldLine field ++ rest =
      field.1.toList ++ (" = ".toList ++ ((Toml.quoted field.2).toList ++ '\n' :: rest)) := by
  simp [fieldLine, manifestLine]

theorem flatMap_optionalLine (slots : List (String × Option String)) :
    slots.flatMap (fun (key, value) => (optionalLine key value).toList) =
      (presentFields slots).flatMap fieldLine := by
  induction slots with
  | nil => rfl
  | cons slot slots ih =>
    obtain ⟨key, value⟩ := slot
    rw [List.flatMap_cons, ih]
    cases value with
    | none => rfl
    | some value => rfl

theorem Entry.toList_manifestTable (entry : Entry) :
    entry.manifestTable.toList =
      "[[rule]]\n".toList ++ (presentFields entry.slots).flatMap fieldLine := by
  rw [← flatMap_optionalLine]
  simp [manifestTable, slots, optionalLine, String.toList_join, List.flatMap_map]

theorem readsBlocks_fieldLines {fields : List (String × String)}
    (hBare : ∀ field ∈ fields, Toml.IsBareKey field.1) {rest : List Char}
    {assignments : List (Toml.Key × Toml.Value)} {blocks : List Toml.Block}
    (h : Toml.ReadsBlocks rest (assignments, blocks)) :
    Toml.ReadsBlocks (fields.flatMap fieldLine ++ rest)
      (fields.map Toml.stringAssignment ++ assignments, blocks) := by
  induction fields with
  | nil => exact h
  | cons field fields ih =>
    have hRest := ih (fun field hField => hBare field (List.mem_cons_of_mem _ hField))
    rw [List.flatMap_cons, List.append_assoc]
    rw [fieldLine_append]
    refine hRest.cons ?_ (Toml.blocks?_line (hBare field List.mem_cons_self) field.2 · _)
    simp only [List.length_append, List.length_cons]
    omega

theorem toList_intercalate_newline (table : String) (tables : List String) :
    (String.intercalate "\n" (table :: tables)).toList =
      table.toList ++ tables.flatMap fun table => '\n' :: table.toList := by
  induction tables generalizing table with
  | nil => simp
  | cons next tables ih =>
    rw [String.intercalate_cons_cons, String.toList_append, ih]
    simp

/-! ## The document of a manifest -/

namespace Entry

/-- The header and the assignments of an entry. -/
def block (entry : Entry) : Toml.Block where
  heading := .element { path := [], name := "rule" }
  assignments := (presentFields entry.slots).map Toml.stringAssignment

/-- The table of an entry in the document. -/
def document (entry : Entry) : Toml.Value :=
  .table .header ((presentFields entry.slots).map Toml.stringEntry)

theorem document_injective : Function.Injective document := by
  intro first second h
  refine eq_of_presentFields_eq ?_
  rw [document, document, Toml.Value.table.injEq] at h
  exact List.map_injective_iff.mpr Toml.stringEntry_injective h.2

theorem readsBlocks_manifestTable (entry : Entry) {rest : List Char} {blocks : List Toml.Block}
    (h : Toml.ReadsBlocks rest ([], blocks)) :
    Toml.ReadsBlocks (entry.manifestTable.toList ++ rest) ([], entry.block :: blocks) := by
  have hBare : ∀ field ∈ presentFields entry.slots, Toml.IsBareKey field.1 := by
    intro field hField
    exact isBareKey_of_mem_slots ((keys_presentFields _).subset (List.mem_map_of_mem hField))
  have hLines := readsBlocks_fieldLines hBare h
  rw [List.append_nil] at hLines
  rw [toList_manifestTable, List.append_assoc]
  have hStep : ∀ steps rest, Toml.blocks? (steps + 1) ("[[rule]]\n".toList ++ rest) =
      (Toml.blocks? steps rest).map fun (assignments, blocks) =>
        ([], ⟨.element ⟨[], "rule"⟩, assignments⟩ :: blocks) := fun _ _ => rfl
  refine hLines.cons ?_ (hStep · _)
  have hPos : 0 < "[[rule]]\n".toList.length := by decide
  simp only [List.length_append]
  omega

/-- The assignments of an entry make its table. -/
theorem assignAll_block (entry : Entry) :
    Toml.assignAll entry.block.assignments [] =
      some ((presentFields entry.slots).map Toml.stringEntry) := by
  have hNodup := (keys_presentFields entry.slots).nodup (nodup_keys_slots entry)
  exact @Toml.assignAll_strings [] _ hNodup

theorem addTo_nil (entry : Entry) :
    entry.block.addTo [] = some [("rule", .array true [entry.document])] := by
  have hTable := assignAll_block entry
  have hAdd : entry.block.addTo [] = (Toml.assignAll entry.block.assignments []).map fun inner =>
      [("rule", .array true [.table .header inner])] := rfl
  rw [hAdd, hTable]
  rfl

theorem addTo_rule (entry : Entry) (items : List Toml.Value) :
    entry.block.addTo [("rule", .array true items)] =
      some [("rule", .array true (items ++ [entry.document]))] := by
  have hTable := assignAll_block entry
  have hAdd : entry.block.addTo [("rule", .array true items)] =
      (Toml.assignAll entry.block.assignments []).map fun inner =>
        [("rule", .array true (items ++ [.table .header inner]))] := rfl
  rw [hAdd, hTable]
  rfl

end Entry

theorem foldlM_addTo (entries : List Entry) (items : List Toml.Value) :
    (entries.map Entry.block).foldlM (fun root block => block.addTo root)
        [("rule", .array true items)] =
      some [("rule", .array true (items ++ entries.map Entry.document))] := by
  induction entries generalizing items with
  | nil => simp
  | cons entry entries ih =>
    rw [List.map_cons, List.foldlM_cons, Entry.addTo_rule, Option.bind_eq_bind, Option.bind_some,
      ih]
    simp

theorem build_blocks (entry : Entry) (entries : List Entry) :
    Toml.build [] ((entry :: entries).map Entry.block) =
      some [("rule", .array true ((entry :: entries).map Entry.document))] := by
  have hFirst : Toml.build [] ((entry :: entries).map Entry.block) =
      (entry.block.addTo []).bind fun root =>
        (entries.map Entry.block).foldlM (fun root block => block.addTo root) root := rfl
  rw [hFirst, Entry.addTo_nil, Option.bind_some, foldlM_addTo]
  rfl

theorem readsBlocks_manifestTables (entries : List Entry) :
    Toml.ReadsBlocks (entries.flatMap fun entry => '\n' :: entry.manifestTable.toList)
      ([], entries.map Entry.block) := by
  induction entries with
  | nil => exact Toml.readsBlocks_nil
  | cons entry entries ih =>
    have hTable := entry.readsBlocks_manifestTable ih
    have hBlank : ∀ steps rest, Toml.blocks? (steps + 1) ('\n' :: rest) =
        (Toml.blocks? steps rest).map id := by
      intro steps rest
      rw [Option.map_id_fun, id]
      rfl
    rw [List.flatMap_cons, List.cons_append]
    exact hTable.cons (Nat.lt_succ_self _) (hBlank · _)

/-- The manifest is read as a list of tables, one for each entry. -/
theorem read?_manifest (registry : Registry) :
    Toml.read? registry.manifest =
      some [("rule", .array (!registry.entries.isEmpty)
        (registry.entries.map Entry.document))] := by
  obtain ⟨entries⟩ := registry
  cases entries with
  | nil => rfl
  | cons entry entries =>
    have hText : (manifest ⟨entry :: entries⟩).toList = entry.manifestTable.toList ++
        entries.flatMap fun entry => '\n' :: entry.manifestTable.toList := by
      have hManifest : manifest ⟨entry :: entries⟩ =
          String.intercalate "\n" (entry.manifestTable :: entries.map Entry.manifestTable) := rfl
      rw [hManifest, toList_intercalate_newline, List.flatMap_map]
    have hMark : Toml.dropMark (manifest ⟨entry :: entries⟩).toList =
        (manifest ⟨entry :: entries⟩).toList := by
      rw [hText, Entry.toList_manifestTable]
      rfl
    have hBlocks := entry.readsBlocks_manifestTable (readsBlocks_manifestTables entries)
    rw [← hText] at hBlocks
    simp only [Toml.read?]
    rw [hMark, hBlocks _ (Nat.lt_succ_self _), Option.bind_some]
    exact build_blocks entry entries

/-- Registries have the same manifest exactly if they have equally many entries that agree, position
by position, on the name, on the reference at each hook and on the reference to the enable
predicate. -/
theorem manifest_eq_iff (first second : Registry) :
    first.manifest = second.manifest ↔
      List.Forall₂
        (fun entry other => entry.name = other.name ∧
          (∀ hook, entry.hook hook = other.hook hook) ∧ entry.enabled = other.enabled)
        first.entries second.entries := by
  simp only [← Entry.eq_iff, List.forall₂_eq_eq_eq]
  constructor
  · intro h
    have hRead := (read?_manifest first).symm.trans ((congrArg Toml.read? h).trans
      (read?_manifest second))
    simp only [Option.some.injEq, List.cons.injEq, Prod.mk.injEq, Toml.Value.array.injEq] at hRead
    exact List.map_injective_iff.mpr Entry.document_injective hRead.1.2.2
  · intro h
    rw [manifest, manifest, h]

end Registry

end KeyRemap
