import KeyRemap.Run

/-!
# Writing files

Files are written one after the other, each after the directories it lies in. On the way directories
are only made and never lost, so a path that leads to a place leads there for good. What a place
holds at the end is what the last of the files written there has brought, and a place where none has
been written holds what it held.

* `FileTree.Extends`, `FileTree.place_of_extends`: directories stay, and so does the place of a path.
* `FileTree.writeFile_access`: what one written file changes.
* `FileTree.Written`: what some written files have changed, and nothing else.
* `FileTree.exists_written`: writing stops at the first failure, with the files before it written.
-/

namespace KeyRemap

/-! ## Actions on a tree -/

theorem StateM.bind_apply {S A B : Type} (action : StateM S A) (next : A → StateM S B) (state : S) :
    (action >>= next) state = next (action state).1 (action state).2 :=
  rfl

theorem StateM.pure_apply {S A : Type} (a : A) (state : S) :
    (pure a : StateM S A) state = (a, state) :=
  rfl

/-! ## Nodes of a tree -/

/-- The content of a file. -/
def Node.content? : Node → Option ByteArray
  | directory => none
  | file bytes => some bytes

namespace FileTree

/-- The content of the file at a place, if there is one. -/
def content? (tree : FileTree) (place : Place) : Option ByteArray :=
  (tree.node? place).bind Node.content?

theorem lookup_putNode (place other : Place) (node : Node) (nodes : List (Place × Node)) :
    (putNode place node nodes).lookup other =
      if other = place then some node else nodes.lookup other := by
  induction nodes with
  | nil =>
    by_cases h : other = place
    · simp [putNode, h]
    · simp [putNode, List.lookup_cons, h, beq_eq_false_iff_ne.mpr h]
  | cons entry nodes ih =>
    obtain ⟨first, old⟩ := entry
    by_cases hFirst : first = place
    · by_cases h : other = place
      · simp [putNode, hFirst, h]
      · simp [putNode, List.lookup_cons, hFirst, h, beq_eq_false_iff_ne.mpr h]
    · by_cases h : other = first
      · simp [putNode, hFirst, h]
      · simp [putNode, List.lookup_cons, hFirst, beq_eq_false_iff_ne.mpr h, ih]

/-- A node put at a place that holds no directory is there, and all other places are as before. -/
theorem node?_put {tree : FileTree} {place : Place} (h : tree.node? place ≠ some .directory)
    (node : Node) (other : Place) :
    (tree.put place node).node? other = if other = place then some node else tree.node? other := by
  have hPlace : place ≠ [] := by
    rintro rfl
    exact h rfl
  by_cases hOther : other = []
  · simp [node?, hOther, hPlace.symm]
  · simp [node?, hOther, put, lookup_putNode]

theorem content?_put {tree : FileTree} {place : Place} (h : tree.node? place ≠ some .directory)
    (node : Node) (other : Place) :
    (tree.put place node).content? other =
      if other = place then node.content? else tree.content? other := by
  rw [content?, node?_put h]
  split <;> rfl

/-! ## Directories stay -/

/-- Every directory is still there, and relative paths still start where they did. -/
structure Extends (before after : FileTree) : Prop where
  current : after.current = before.current
  directory {place : Place} (h : before.node? place = some .directory) :
    after.node? place = some .directory

/-- Some directories have been made, and nothing else has changed. -/
structure Grows (before after : FileTree) : Prop extends Extends before after where
  content (place : Place) : after.content? place = before.content? place

theorem Extends.refl (tree : FileTree) : tree.Extends tree :=
  ⟨rfl, id⟩

theorem Extends.trans {first second third : FileTree} (h₁ : first.Extends second)
    (h₂ : second.Extends third) : first.Extends third :=
  ⟨h₂.current.trans h₁.current, fun h => h₂.directory (h₁.directory h)⟩

theorem Grows.refl (tree : FileTree) : tree.Grows tree :=
  ⟨.refl tree, fun _ => rfl⟩

theorem Grows.trans {first second third : FileTree} (h₁ : first.Grows second)
    (h₂ : second.Grows third) : first.Grows third :=
  ⟨h₁.toExtends.trans h₂.toExtends, fun place => (h₂.content place).trans (h₁.content place)⟩

theorem extends_put {tree : FileTree} {place : Place} (h : tree.node? place ≠ some .directory)
    (node : Node) : tree.Extends (tree.put place node) := by
  refine ⟨rfl, ?_⟩
  intro other hOther
  rw [node?_put h, if_neg]
  · exact hOther
  · rintro rfl
    exact h hOther

theorem grows_put_directory {tree : FileTree} {place : Place} (h : tree.node? place = none) :
    tree.Grows (tree.put place .directory) := by
  have hPlace : tree.node? place ≠ some .directory := by simp [h]
  refine ⟨extends_put hPlace .directory, ?_⟩
  intro other
  rw [content?_put hPlace]
  split
  · rename_i hOther
    rw [hOther, content?, h]
    rfl
  · rfl

/-- The place to which a part of a path leads from a directory. -/
def next (place : Place) (part : String) : Place :=
  if part = "" || part = "." then place
  else if part = ".." then place.dropLast
  else place ++ [part]

theorem walk_cons {tree : FileTree} {place : Place} (h : tree.node? place = some .directory)
    (part : String) (parts : List String) :
    tree.walk place (part :: parts) = tree.walk (next place part) parts := by
  simp only [walk, h, next]
  split
  · rfl
  · split <;> rfl

theorem directory_of_walk_cons {tree : FileTree} {place target : Place} {part : String}
    {parts : List String} (h : tree.walk place (part :: parts) = .ok target) :
    tree.node? place = some .directory := by
  unfold walk at h
  split at h
  · cases h
  · cases h
  · assumption

/-- The parts of a path lead to the same place as long as no directory is lost. -/
theorem walk_of_extends {before after : FileTree} (h : before.Extends after) {start place : Place}
    {parts : List String} (hWalk : before.walk start parts = .ok place) :
    after.walk start parts = .ok place := by
  induction parts generalizing start with
  | nil => exact hWalk
  | cons part parts ih =>
    have hStart := directory_of_walk_cons hWalk
    rw [walk_cons hStart] at hWalk
    rw [walk_cons (h.directory hStart)]
    exact ih hWalk

theorem place_of_extends {before after : FileTree} (h : before.Extends after) {path : Path}
    {place : Place} (hPlace : before.place path = .ok place) : after.place path = .ok place := by
  unfold FileTree.place at hPlace ⊢
  split at hPlace
  · cases hPlace
  · rw [if_neg ‹_›]
    have hStart : after.start path = before.start path := by simp only [start, h.current]
    rw [hStart]
    exact walk_of_extends h hPlace

/-! ## Making directories -/

theorem grows_of_makeDirectory {before after : FileTree} {path : Path}
    (h : before.makeDirectory path = .ok after) : before.Grows after := by
  unfold makeDirectory at h
  split at h
  · cases h
  · split at h
    · cases h
    · rename_i place _ hFree
      cases h
      simp only [Bool.or_eq_true, not_or, Bool.not_eq_true, Option.isSome_eq_false_iff,
        Option.isNone_iff_eq_none] at hFree
      exact grows_put_directory hFree.2

/-- Making a directory and its ancestors does nothing else, whether it succeeds or not. -/
theorem grows_makeDirectories (tree : FileTree) (paths : List Path) :
    tree.Grows (tree.makeDirectories paths).2 := by
  induction paths generalizing tree with
  | nil => exact .refl tree
  | cons path ancestors ih =>
    have hAncestors := ih tree
    unfold makeDirectories
    split
    · exact .refl tree
    · split
      · rename_i hMade
        exact grows_of_makeDirectory hMade
      · split
        · rename_i hRest
          rwa [hRest] at hAncestors
        · rename_i hRest
          rw [hRest] at hAncestors
          split
          · rename_i hMade
            exact hAncestors.trans (grows_of_makeDirectory hMade)
          · split <;> exact hAncestors
      · split <;> exact .refl tree

/-! ## Writing one file -/

theorem exists_of_splitOn {separator : Char} {cs : List Char} (hText : cs ≠ [])
    (hEnd : cs.getLast? ≠ some separator) :
    ∃ parts part, cs.splitOn separator = parts ++ [part] ∧ part ≠ [] := by
  induction cs with
  | nil => exact absurd rfl hText
  | cons c cs ih =>
    rw [List.splitOn_cons_eq_if_modifyHead]
    cases cs with
    | nil =>
      have hFirst : c ≠ separator := by simpa using hEnd
      exact ⟨[], [c], by simp [hFirst], by simp⟩
    | cons d cs =>
      obtain ⟨parts, part, hParts, hPart⟩ := ih (by simp) (by simpa using hEnd)
      rw [hParts]
      split
      · exact ⟨[] :: parts, part, rfl, hPart⟩
      · cases parts with
        | nil => exact ⟨[], c :: part, rfl, by simp⟩
        | cons first parts => exact ⟨(c :: first) :: parts, part, rfl, hPart⟩

/-- A path that does not end in a slash has no empty part at its end. -/
theorem partsBeforeSlashes_eq {path : Path} (hText : path.text ≠ "")
    (hEnd : path.text.toList.getLast? ≠ some '/') : partsBeforeSlashes path = partsOf path := by
  have hChars : path.text.toList ≠ [] := by simpa using hText
  obtain ⟨parts, part, hParts, hPart⟩ := exists_of_splitOn hChars hEnd
  have hName : String.ofList part ≠ "" := by simpa using hPart
  simp [partsBeforeSlashes, partsOf, Path.parts, hParts, hName]

/-- A written file is where its path leads, and no other file has changed. -/
theorem write_spec {before after : FileTree} {path : Path} {text : String}
    (h : before.write path text = .ok after) :
    before.Extends after ∧ ∃ place, before.place path = .ok place ∧ ∀ other,
      after.content? other = if other = place then some text.toUTF8 else before.content? other := by
  unfold write at h
  split at h
  · cases h
  · rename_i place hPlace
    split at h
    · cases h
    · rename_i hFree
      cases h
      simp only [Bool.or_eq_true, not_or, beq_iff_eq] at hFree
      obtain ⟨⟨hEnd, _⟩, hNode⟩ := hFree
      refine ⟨extends_put hNode _, place, ?_, fun other => content?_put hNode _ other⟩
      unfold placeBeforeSlashes at hPlace
      split at hPlace
      · cases hPlace
      · rename_i hText
        rw [partsBeforeSlashes_eq hText hEnd] at hPlace
        rw [FileTree.place, if_neg hText, hPlace]

/-- Makes the directory that a path lies in, if the path names one. -/
def makeParent (tree : FileTree) (path : Path) : Option Failure × FileTree :=
  match path.parent?.filter (fun parent => !parent.text.isEmpty) with
  | none => (none, tree)
  | some parent =>
    match tree.makeDirectories parent.ancestors with
    | (.error cause, tree) => (some (.creating parent cause), tree)
    | (.ok (), tree) => (none, tree)

theorem grows_makeParent (tree : FileTree) (path : Path) :
    tree.Grows (tree.makeParent path).2 := by
  unfold makeParent
  split
  · exact .refl tree
  · rename_i parent _
    have hMade := tree.grows_makeDirectories parent.ancestors
    split <;> simp_all

/-- Writing a file makes its directory and then writes. -/
theorem writeFile_access (tree : FileTree) (path : Path) (text : String) :
    access.writeFile path text tree =
      match tree.makeParent path with
      | (some failure, middle) => (some failure, middle)
      | (none, middle) =>
        match middle.write path text with
        | .error cause => (some (.writing path cause), middle)
        | .ok after => (none, after) := by
  have hWrite : ∀ middle : FileTree, (access.write path text : StateM FileTree _) middle =
      match middle.write path text with
      | .error cause => (.error cause, middle)
      | .ok after => (.ok (), after) := fun _ => rfl
  have hMake : ∀ parent, (access.makeDirectories parent : StateM FileTree _) tree =
      tree.makeDirectories parent.ancestors := fun _ => rfl
  unfold FileAccess.writeFile makeParent
  cases path.parent?.filter (fun parent => !parent.text.isEmpty) with
  | none =>
    simp only [StateM.bind_apply, StateM.pure_apply, hWrite]
    cases tree.write path text <;> rfl
  | some parent =>
    simp only [StateM.bind_apply, hMake]
    rcases tree.makeDirectories parent.ancestors with ⟨cause | _, middle⟩
    · rfl
    · simp only [StateM.bind_apply, StateM.pure_apply, hWrite]
      cases middle.write path text <;> rfl

theorem grows_of_writeFile {before after : FileTree} {path : Path} {text : String}
    {failure : Failure} (h : access.writeFile path text before = (some failure, after)) :
    before.Grows after := by
  have hMade := before.grows_makeParent path
  rw [writeFile_access] at h
  split at h
  · rename_i hParent
    cases h
    rwa [hParent] at hMade
  · rename_i hParent
    split at h
    · cases h
      rwa [hParent] at hMade
    · cases h

theorem writeFile_spec {before after : FileTree} {path : Path} {text : String}
    (h : access.writeFile path text before = (none, after)) :
    before.Extends after ∧ ∃ place, after.place path = .ok place ∧ ∀ other,
      after.content? other = if other = place then some text.toUTF8 else before.content? other := by
  have hMade := before.grows_makeParent path
  rw [writeFile_access] at h
  split at h
  · cases h
  · rename_i middle hParent
    rw [hParent] at hMade
    split at h
    · cases h
    · rename_i hWrite
      cases h
      obtain ⟨hExtends, place, hPlace, hContent⟩ := write_spec hWrite
      refine ⟨hMade.toExtends.trans hExtends, place, place_of_extends hExtends hPlace, ?_⟩
      intro other
      rw [hContent other, hMade.content other]

/-! ## Writing several files -/

/-- The jobs whose paths lead to a place. -/
def jobsAt (tree : FileTree) (jobs : List OutputJob) (place : Place) : List OutputJob :=
  jobs.filter fun job => (tree.place job.path).toOption == some place

theorem mem_jobsAt {tree : FileTree} {jobs : List OutputJob} {place : Place} {job : OutputJob} :
    job ∈ tree.jobsAt jobs place ↔ job ∈ jobs ∧ tree.place job.path = .ok place := by
  rw [jobsAt, List.mem_filter]
  cases tree.place job.path <;> simp [Except.toOption]

theorem jobsAt_cons {tree : FileTree} {job : OutputJob} {found : Place}
    (h : tree.place job.path = .ok found) (jobs : List OutputJob) (place : Place) :
    tree.jobsAt (job :: jobs) place =
      if found = place then job :: tree.jobsAt jobs place else tree.jobsAt jobs place := by
  simp [jobsAt, List.filter_cons, h, Except.toOption]

/-- Some jobs are done and nothing else: their paths lead somewhere, and a place holds what the last
of the jobs whose paths lead there has written, or else what it held. -/
structure Written (before : FileTree) (jobs : List OutputJob) (after : FileTree) : Prop
    extends Extends before after where
  place {job : OutputJob} (h : job ∈ jobs) : ∃ place, after.place job.path = .ok place
  content (place : Place) : after.content? place =
    ((after.jobsAt jobs place).getLast?.map fun job => job.text.toUTF8).or (before.content? place)

theorem Written.of_grows {before after : FileTree} (h : before.Grows after) :
    before.Written [] after where
  toExtends := h.toExtends
  place hJob := by cases hJob
  content place := h.content place

/-- One more job in front of those that are done. -/
theorem Written.cons {before middle after : FileTree} {job : OutputJob} {jobs : List OutputJob}
    (hFirst : access.writeFile job.path job.text before = (none, middle))
    (h : middle.Written jobs after) : before.Written (job :: jobs) after := by
  obtain ⟨hExtends, place, hPlace, hContent⟩ := writeFile_spec hFirst
  -- `jobsAt` asks where a path leads at the end; for the first job this is where it was written.
  have hLater := place_of_extends h.toExtends hPlace
  refine ⟨hExtends.trans h.toExtends, ?_, ?_⟩
  · intro other hOther
    rcases List.mem_cons.mp hOther with rfl | hOther
    · exact ⟨place, hLater⟩
    · exact h.place hOther
  · intro other
    rw [h.content other, hContent other, jobsAt_cons hLater]
    by_cases hSame : place = other
    · rw [if_pos hSame, if_pos hSame.symm, List.getLast?_cons]
      cases (after.jobsAt jobs other).getLast? <;> rfl
    · rw [if_neg hSame, if_neg (Ne.symm hSame)]

/-- Jobs are done in order up to the first that fails, and all of them if none fails. -/
theorem exists_written {before after : FileTree} {jobs : List OutputJob} {events : List Event}
    {failure : Option Failure}
    (h : access.writeJobs jobs before = ((events, failure), after)) :
    ∃ done rest, jobs = done ++ rest ∧ (failure = none → rest = []) ∧
      before.Written done after := by
  induction jobs generalizing before events with
  | nil =>
    cases h
    exact ⟨[], [], rfl, fun _ => rfl, .of_grows (.refl _)⟩
  | cons job jobs ih =>
    simp only [FileAccess.writeJobs, StateM.bind_apply] at h
    rcases hFirst : access.writeFile job.path job.text before with ⟨_ | cause, middle⟩
    · rw [hFirst] at h
      rcases hRest : access.writeJobs jobs middle with ⟨⟨later, fault⟩, last⟩
      simp only [StateM.bind_apply, hRest, StateM.pure_apply] at h
      cases h
      obtain ⟨done, rest, rfl, hNone, hDone⟩ := ih hRest
      exact ⟨job :: done, rest, rfl, hNone, .cons hFirst hDone⟩
    · rw [hFirst] at h
      cases h
      refine ⟨[], job :: jobs, rfl, ?_, .of_grows (grows_of_writeFile hFirst)⟩
      rintro ⟨⟩

/-! ## Reading what was written -/

theorem fromUTF8?_toUTF8 (text : String) : String.fromUTF8? text.toUTF8 = some text := by
  have hValid : text.toUTF8.IsValidUTF8 := text.isValidUTF8
  simp only [String.fromUTF8?, hValid, dif_pos]
  rfl

theorem read_of_content? {tree : FileTree} {path : Path} {place : Place} {text : String}
    (hPlace : tree.place path = .ok place) (hContent : tree.content? place = some text.toUTF8) :
    tree.read path = .ok text := by
  obtain ⟨node, hNode, hFile⟩ := Option.bind_eq_some_iff.mp hContent
  cases node with
  | directory => cases hFile
  | file bytes =>
    obtain rfl : bytes = text.toUTF8 := Option.some.inj hFile
    simp only [read, hPlace, hNode, fromUTF8?_toUTF8]

/-- After jobs are done, the file at the path of each holds the text of the last job whose path leads
to the same place. -/
theorem Written.read {before after : FileTree} {jobs : List OutputJob}
    (h : before.Written jobs after) {job : OutputJob} (hJob : job ∈ jobs) :
    ∃ place last, after.place job.path = .ok place ∧
      (after.jobsAt jobs place).getLast? = some last ∧ after.read job.path = .ok last.text := by
  obtain ⟨place, hPlace⟩ := h.place hJob
  have hMem : job ∈ after.jobsAt jobs place := mem_jobsAt.mpr ⟨hJob, hPlace⟩
  have hLast := List.getLast?_eq_some_getLast (List.ne_nil_of_mem hMem)
  refine ⟨place, _, hPlace, hLast, read_of_content? hPlace ?_⟩
  rw [h.content place, hLast]
  rfl

/-- The job that is done last is not undone by another. -/
theorem Written.read_last {before after : FileTree} {jobs : List OutputJob} {job : OutputJob}
    (h : before.Written (jobs ++ [job]) after) : after.read job.path = .ok job.text := by
  obtain ⟨place, last, hPlace, hLast, hRead⟩ := h.read (List.mem_append_right jobs (.head _))
  have hJobs : after.jobsAt (jobs ++ [job]) place = after.jobsAt jobs place ++ [job] := by
    simp [jobsAt, hPlace, Except.toOption]
  rw [hJobs, List.getLast?_concat] at hLast
  rw [hRead, Option.some.inj hLast]

end FileTree

end KeyRemap
