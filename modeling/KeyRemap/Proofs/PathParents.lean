import KeyRemap.Proofs.Writing
import Mathlib.Data.List.Induction

/-!
# Parents of paths

The parent of a path is its text up to the last part, less the parts that name no component. What it
is for is seen when other paths are joined to it: if a path leads to a file, a path joined to its
parent leads where it leads from the directory in which the file is looked up.

* `Path.leading`: the parts that a path puts in front of the paths joined to it.
* `Path.exists_parent`: what the parent of a path puts in front.
* `FileTree.exists_base_of_read`: a file that can be read has a parent, which stands for the
  directory of the file.
-/

namespace KeyRemap

/-! ## Parts of a path -/

theorem not_mem_of_mem_splitOn {separator : Char} {part cs : List Char}
    (h : part ∈ cs.splitOn separator) : separator ∉ part := by
  induction cs generalizing part with
  | nil =>
    rw [List.splitOn_nil, List.mem_singleton] at h
    simp [h]
  | cons c cs ih =>
    rw [List.splitOn_cons_eq_if_modifyHead] at h
    cases hParts : cs.splitOn separator with
    | nil => exact absurd hParts (List.splitOn_ne_nil _ _)
    | cons first rest =>
      rw [hParts] at h ih
      split at h
      · rcases List.mem_cons.mp h with rfl | h
        · exact List.not_mem_nil
        · exact ih h
      · rename_i hChar
        rw [List.modifyHead_cons] at h
        rcases List.mem_cons.mp h with rfl | h
        · have hNe : separator ≠ c := by
            rintro rfl
            exact hChar (by simp)
          exact List.not_mem_cons_of_ne_of_not_mem hNe (ih List.mem_cons_self)
        · exact ih (List.mem_cons_of_mem _ h)

namespace Path

theorem dropInert_concat (parts : List (List Char)) (part : List Char) :
    dropInert (parts ++ [part]) = if isInert part then dropInert parts else parts ++ [part] := by
  cases h : isInert part <;> simp [dropInert, h]

theorem dropInert_cons_nil (parts : List (List Char)) :
    dropInert ([] :: parts) = if dropInert parts = [] then [] else [] :: dropInert parts := by
  have hInert : isInert [] = true := rfl
  by_cases hKept : parts.reverse.dropWhile isInert = []
  · simp [dropInert, List.dropWhile_append, hKept, hInert]
  · simp [dropInert, List.dropWhile_append, hKept]

theorem isPrefix_dropInert (parts : List (List Char)) : dropInert parts <+: parts := by
  rw [dropInert, ← List.reverse_suffix, List.reverse_reverse]
  exact List.dropWhile_suffix _

theorem head?_of_dropInert {parts : List (List Char)} {part : List Char}
    (h : (dropInert parts).head? = some part) : parts.head? = some part := by
  obtain ⟨rest, hRest⟩ := isPrefix_dropInert parts
  rw [← hRest, List.head?_append, h, Option.some_or]

/-- The last part that is left is not inert. -/
theorem getLast?_dropInert {parts : List (List Char)} {part : List Char}
    (h : (dropInert parts).getLast? = some part) : isInert part = false := by
  rw [dropInert, List.getLast?_reverse] at h
  have hHead := List.head?_dropWhile_not isInert parts.reverse
  rw [h] at hHead
  exact hHead

/-! ## Joining paths -/

/-- The parts that a path puts in front of a path joined to it: all but an empty one at its end. -/
def leading (path : Path) : List (List Char) :=
  if path.parts.getLast? = some [] then path.parts.dropLast else path.parts

theorem leading_eq_parts {path : Path} (h : path.parts.getLast? ≠ some []) :
    path.leading = path.parts :=
  if_neg h

theorem parts_join {base path : Path} (hPath : path.isAbsolute = false) :
    (base.join path).parts = base.leading ++ path.parts := by
  rw [join, if_neg (by simp [hPath])]
  by_cases hText : base.text.toList = []
  · have hEmpty : base.text = "" := by simpa using hText
    simp [hEmpty, leading, parts]
  · have hIsEmpty : base.text.isEmpty = false := by simpa using hText
    by_cases hEnd : base.text.toList.getLast? = some '/'
    · obtain ⟨before, hBefore⟩ := List.getLast?_eq_some_iff.mp hEnd
      have hParts : base.parts = before.splitOn '/' ++ [[]] := by
        rw [parts, hBefore, List.splitOn_append_cons_self, List.splitOn_nil]
      rw [if_pos (by simp [hEnd]), leading, hParts, List.getLast?_concat, if_pos rfl,
        List.dropLast_concat, parts, parts, String.toList_append, hBefore, List.append_assoc,
        List.singleton_append, List.splitOn_append_cons_self]
    · obtain ⟨before, part, hParts, hPart⟩ := FileTree.exists_of_splitOn hText hEnd
      have hLast : base.parts.getLast? ≠ some [] := by
        rw [parts, hParts, List.getLast?_concat]
        simpa using hPart
      have hSlash : "/".toList = ['/'] := rfl
      rw [if_neg (by simp [hEnd, hIsEmpty]), leading_eq_parts hLast, parts, parts, parts,
        String.toList_append, String.toList_append, hSlash, List.append_assoc,
        List.singleton_append, List.splitOn_append_cons_self]

/-- Parts joined by slashes, the last of which is not empty, lead a path joined to them. -/
theorem leading_intercalate {kept : List (List Char)} (hSlash : ∀ part ∈ kept, '/' ∉ part)
    (hLast : kept.getLast? ≠ some []) :
    (Path.mk (String.ofList (['/'].intercalate kept))).leading = kept := by
  by_cases hKept : kept = []
  · subst hKept
    rfl
  · have hParts : (Path.mk (String.ofList (['/'].intercalate kept))).parts = kept := by
      rw [parts, String.toList_ofList, List.splitOn_intercalate _ hSlash hKept]
    rw [leading_eq_parts, hParts]
    rwa [hParts]

/-- The root puts an empty part in front. -/
theorem leading_build_root {kept : List (List Char)} (hSlash : ∀ part ∈ kept, '/' ∉ part)
    (hLast : kept.getLast? ≠ some []) : (build ['/'] kept).leading = [] :: kept := by
  by_cases hKept : kept = []
  · rw [hKept]
    rfl
  · have hText : ['/'] ++ ['/'].intercalate kept = ['/'].intercalate ([] :: kept) := by
      rw [List.intercalate_cons_of_ne_nil hKept, List.nil_append]
    rw [build, hText]
    apply leading_intercalate
    · simpa using hSlash
    · rwa [List.getLast?_cons_of_ne_nil hKept]

/-- A dot at the start is a part of its own. -/
theorem leading_build_dot {kept : List (List Char)} (hSlash : ∀ part ∈ kept, '/' ∉ part)
    (hLast : kept.getLast? ≠ some []) :
    (build ['.'] (if kept = [] then [] else [] :: kept)).leading = ['.'] :: kept := by
  by_cases hKept : kept = []
  · rw [hKept]
    rfl
  · have hText : ['.'] ++ ['/'].intercalate ([] :: kept) = ['/'].intercalate (['.'] :: kept) := by
      rw [List.intercalate_cons_of_ne_nil hKept, List.intercalate_cons_of_ne_nil hKept,
        List.nil_append, List.append_assoc]
    rw [if_neg hKept, build, hText]
    apply leading_intercalate
    · simpa using hSlash
    · rwa [List.getLast?_cons_of_ne_nil hKept]

/-- The first part of an absolute path is empty. -/
theorem isAbsolute_iff {path : Path} (h : path.text ≠ "") :
    path.isAbsolute = true ↔ path.parts.head? = some [] := by
  have hText : path.text.toList ≠ [] := by simpa using h
  unfold isAbsolute parts
  cases hChars : path.text.toList with
  | nil => exact absurd hChars hText
  | cons c cs =>
    rw [List.splitOn_cons_eq_if_modifyHead]
    by_cases hSlash : c = '/'
    · simp [hSlash]
    · cases hParts : cs.splitOn '/' with
      | nil => exact absurd hParts (List.splitOn_ne_nil _ _)
      | cons first rest => simp [hSlash]

theorem text_eq_empty_of_parts {path : Path} (h : path.parts = [[]]) : path.text = "" := by
  have hChars : path.text.toList = ['/'].intercalate path.parts :=
    (List.intercalate_splitOn '/').symm
  rw [h] at hChars
  simpa using hChars

theorem isAbsolute_iff_leading (path : Path) :
    path.isAbsolute = true ↔ path.leading.head? = some [] := by
  by_cases hText : path.text = ""
  · simp [isAbsolute, leading, parts, hText]
  · rw [isAbsolute_iff hText, leading]
    split
    · rename_i hEnd
      obtain ⟨before, hBefore⟩ := List.getLast?_eq_some_iff.mp hEnd
      cases before with
      | nil => exact absurd (text_eq_empty_of_parts hBefore) hText
      | cons first before =>
        rw [hBefore, List.dropLast_concat]
        rfl
    · rfl

theorem isAbsolute_eq_of_leading {base path : Path}
    (h : base.leading.head? = some [] ↔ path.leading.head? = some []) :
    base.isAbsolute = path.isAbsolute := by
  rw [Bool.eq_iff_iff, isAbsolute_iff_leading, isAbsolute_iff_leading, h]

theorem isAbsolute_join {base path : Path} (hPath : path.isAbsolute = false) :
    (base.join path).isAbsolute = base.isAbsolute := by
  rw [join, if_neg (by simp [hPath])]
  cases hChars : base.text.toList with
  | nil =>
    have hBase : base.text = "" := by simpa using hChars
    simpa [hBase, isAbsolute] using hPath
  | cons c cs => split <;> simp [isAbsolute, hChars]

theorem text_join_ne_empty {path : Path} (h : path.text ≠ "") (base : Path) :
    (base.join path).text ≠ "" := by
  rw [join]
  split
  · exact h
  · split <;> simp [h]

/-! ## Parents -/

/-- How a path starts decides its anatomy. -/
inductive AnatomyCase (path : Path) : Prop
  | absolute {rest : List (List Char)} (hAnatomy : path.anatomy = (['/'], rest))
      (hParts : path.parts = [] :: rest)
  | dot (hAnatomy : path.anatomy = (['.'], [])) (hParts : path.parts = [['.']])
  | dotted {rest : List (List Char)} (hAnatomy : path.anatomy = (['.'], [] :: rest))
      (hParts : path.parts = ['.'] :: rest)
  | plain (hAnatomy : path.anatomy = ([], path.parts)) (hRelative : path.isAbsolute = false)

theorem anatomy_case (path : Path) : path.AnatomyCase := by
  have hAnatomy := anatomy.eq_def path
  split at hAnatomy
  · rename_i rest hChars
    refine .absolute hAnatomy ?_
    rw [parts, hChars]
    exact List.splitOn_append_cons_self [] rest
  · rename_i hChars
    refine .dot hAnatomy ?_
    rw [parts, hChars]
    rfl
  · rename_i rest hChars
    refine .dotted hAnatomy ?_
    rw [parts, hChars]
    exact List.splitOn_append_cons_self ['.'] rest
  · rename_i hAbsolute _ _
    refine .plain hAnatomy ?_
    cases hChars : path.text.toList with
    | nil => simp [isAbsolute, hChars]
    | cons c cs =>
      have hSlash : c ≠ '/' := by
        rintro rfl
        exact hAbsolute cs hChars
      simp [isAbsolute, hChars, hSlash]

theorem exists_of_cons_eq_concat {first part : List Char} {rest before : List (List Char)}
    (h : first :: rest = before ++ [part]) (hNe : first ≠ part) :
    ∃ front, before = first :: front ∧ rest = front ++ [part] := by
  rcases List.cons_eq_append_iff.mp h with ⟨-, hOnly⟩ | hFront
  · exact absurd (List.head_eq_of_cons_eq hOnly).symm hNe
  · exact hFront

/-- The parent of a path whose last part names something leads the paths joined to it through all
other parts of the path, less the inert ones in front of the last. -/
theorem exists_parent {path : Path} {before : List (List Char)} {part : List Char}
    (hParts : path.parts = before ++ [part]) (hPart : isInert part = false) :
    ∃ base head front, path.parent? = some base ∧ before = head ++ front ∧
      base.leading = head ++ dropInert front ∧ base.isAbsolute = path.isAbsolute := by
  have hNotEmpty : [] ≠ part := by
    rintro rfl
    cases hPart
  have hNotDot : ['.'] ≠ part := by
    rintro rfl
    cases hPart
  have hSlash : ∀ front, front <:+ before → ∀ other ∈ dropInert front, '/' ∉ other := by
    intro front hFront other hOther
    have hMem := hFront.mem ((isPrefix_dropInert front).mem hOther)
    exact not_mem_of_mem_splitOn (hParts ▸ List.mem_append_left [part] hMem)
  have hLast : ∀ front, (dropInert front).getLast? ≠ some [] := by
    intro front hEmpty
    cases getLast?_dropInert hEmpty
  have hLeading : path.leading = before ++ [part] := by
    rw [leading_eq_parts, hParts]
    rw [hParts, List.getLast?_concat]
    simpa using hNotEmpty.symm
  -- The parts of the parent are those of the anatomy, less the last and the inert ones before it.
  cases path.anatomy_case with
  | @absolute rest hAnatomy hRest =>
    obtain ⟨front, rfl, rfl⟩ := exists_of_cons_eq_concat (hRest.symm.trans hParts) hNotEmpty
    have hBase := leading_build_root (hSlash front (List.suffix_cons _ _)) (hLast front)
    refine ⟨_, [[]], front, ?_, rfl, hBase, isAbsolute_eq_of_leading (by simp [hBase, hLeading])⟩
    simp [parent?, hAnatomy, dropInert_concat, hPart]
  | dot hAnatomy hDot =>
    obtain ⟨front, -, hFront⟩ := exists_of_cons_eq_concat (hDot.symm.trans hParts) hNotDot
    simp at hFront
  | @dotted rest hAnatomy hRest =>
    obtain ⟨front, rfl, rfl⟩ := exists_of_cons_eq_concat (hRest.symm.trans hParts) hNotDot
    have hBase := leading_build_dot (hSlash front (List.suffix_cons _ _)) (hLast front)
    have hKept : dropInert ([] :: (front ++ [part])) = [] :: (front ++ [part]) := by
      rw [← List.cons_append, dropInert_concat, hPart]
      rfl
    refine ⟨_, [['.']], front, ?_, rfl, hBase, isAbsolute_eq_of_leading (by simp [hBase, hLeading])⟩
    rw [parent?, hAnatomy, ← dropInert_cons_nil]
    simp [hKept, List.dropLast_cons_of_ne_nil]
  | plain hAnatomy hRelative =>
    have hBase := leading_intercalate (hSlash before (List.suffix_refl _)) (hLast before)
    refine ⟨_, [], before, ?_, rfl, hBase, isAbsolute_eq_of_leading ?_⟩
    · simp [parent?, hAnatomy, hParts, dropInert_concat, hPart, build]
    · have hFirst : path.leading.head? ≠ some [] := by
        rw [ne_eq, ← isAbsolute_iff_leading, hRelative]
        simp
      refine iff_of_false ?_ hFirst
      intro hHead
      rw [hBase] at hHead
      apply hFirst
      rw [hLeading, List.head?_append, head?_of_dropInert hHead, Option.some_or]

end Path

/-! ## Places -/

namespace FileTree

/-- The place to which a path leads from a directory. -/
def placeFrom (tree : FileTree) (directory : Place) (path : Path) : Except OsError Place :=
  tree.walk (if path.isAbsolute then [] else directory) (partsOf path)

theorem walk_append {tree : FileTree} {place middle : Place} {before : List String}
    (h : tree.walk place before = .ok middle) (after : List String) :
    tree.walk place (before ++ after) = tree.walk middle after := by
  induction before generalizing place with
  | nil =>
    cases h
    rfl
  | cons part before ih =>
    have hPlace := directory_of_walk_cons h
    rw [walk_cons hPlace] at h
    rw [List.cons_append, walk_cons hPlace, ih h]

theorem exists_of_walk_append {tree : FileTree} {place target : Place} {before after : List String}
    (h : tree.walk place (before ++ after) = .ok target) :
    ∃ middle, tree.walk place before = .ok middle ∧ tree.walk middle after = .ok target := by
  induction before generalizing place with
  | nil => exact ⟨place, rfl, h⟩
  | cons part before ih =>
    rw [List.cons_append] at h
    have hPlace := directory_of_walk_cons h
    rw [walk_cons hPlace] at h
    rw [walk_cons hPlace]
    exact ih h

theorem next_of_isInert {part : List Char} (h : Path.isInert part = true) (place : Place) :
    next place (String.ofList part) = place := by
  rw [next, if_pos]
  rcases Bool.or_eq_true _ _ ▸ h with hEmpty | hDot
  · simp [List.isEmpty_iff.mp hEmpty]
  · simp [eq_of_beq hDot]

/-- Inert parts at the end of a path do not change where it leads. -/
theorem walk_dropInert {tree : FileTree} {place target : Place} {parts : List (List Char)}
    (h : tree.walk place (parts.map String.ofList) = .ok target) :
    tree.walk place ((Path.dropInert parts).map String.ofList) = .ok target := by
  induction parts using List.reverseRecOn generalizing target with
  | nil => exact h
  | append_singleton parts part ih =>
    rw [Path.dropInert_concat]
    cases hPart : Path.isInert part with
    | false => exact h
    | true =>
      rw [List.map_append] at h
      obtain ⟨middle, hMiddle, hLast⟩ := exists_of_walk_append h
      have hPlace := directory_of_walk_cons hLast
      rw [List.map_singleton, walk_cons hPlace, next_of_isInert hPart] at hLast
      cases hLast
      exact ih hMiddle

/-- Paths joined to the base lead where they lead from the directory in which the last part of the
path is looked up; the base is the parent of the path. -/
structure IsBaseOf (tree : FileTree) (base path : Path) : Prop where
  parent : path.parent? = some base
  leads : ∃ directory part, tree.node? directory = some .directory ∧
    (partsOf path).getLast? = some part ∧ tree.place path = .ok (next directory part) ∧
    ∀ other : Path, other.text ≠ "" →
      tree.place (base.join other) = tree.placeFrom directory other

/-- A path that leads to a file ends in a part that is not inert, looked up in some directory. -/
theorem exists_of_place_file {tree : FileTree} {path : Path} {place : Place} {bytes : ByteArray}
    (hPlace : tree.place path = .ok place) (hFile : tree.node? place = some (.file bytes)) :
    ∃ before part directory, path.parts = before ++ [part] ∧ Path.isInert part = false ∧
      tree.walk (tree.start path) (before.map String.ofList) = .ok directory ∧
      tree.node? directory = some .directory ∧ place = next directory (String.ofList part) := by
  have hNe : path.parts ≠ [] := List.splitOn_ne_nil _ _
  obtain ⟨before, part, hParts⟩ : ∃ before part, path.parts = before ++ [part] :=
    ⟨_, _, (List.dropLast_concat_getLast hNe).symm⟩
  unfold FileTree.place partsOf at hPlace
  split at hPlace
  · cases hPlace
  · rw [hParts, List.map_append] at hPlace
    obtain ⟨directory, hBefore, hLast⟩ := exists_of_walk_append hPlace
    have hDirectory := directory_of_walk_cons hLast
    rw [List.map_singleton, walk_cons hDirectory] at hLast
    cases hLast
    refine ⟨before, part, directory, hParts, ?_, hBefore, hDirectory, rfl⟩
    by_contra hInert
    rw [next_of_isInert (by simpa using hInert)] at hFile
    cases hDirectory.symm.trans hFile

theorem exists_file_of_read {tree : FileTree} {path : Path} {text : String}
    (h : tree.read path = .ok text) :
    ∃ place bytes, tree.place path = .ok place ∧ tree.node? place = some (.file bytes) := by
  unfold read at h
  split at h
  · cases h
  · rename_i place hPlace
    split at h
    · cases h
    · cases h
    · rename_i bytes hFile
      exact ⟨place, bytes, hPlace, hFile⟩

/-- A file that can be read lies in the directory at the parent of its path. -/
theorem exists_base_of_read {tree : FileTree} {path : Path} {text : String}
    (h : tree.read path = .ok text) : ∃ base, tree.IsBaseOf base path := by
  obtain ⟨place, bytes, hPlace, hFile⟩ := exists_file_of_read h
  obtain ⟨before, part, directory, hParts, hPart, hWalk, hDirectory, rfl⟩ :=
    exists_of_place_file hPlace hFile
  obtain ⟨base, head, front, hParent, rfl, hLeading, hAbsolute⟩ := Path.exists_parent hParts hPart
  have hBase : tree.walk (tree.start path) (base.leading.map String.ofList) = .ok directory := by
    rw [List.map_append] at hWalk
    obtain ⟨middle, hHead, hFront⟩ := exists_of_walk_append hWalk
    rw [hLeading, List.map_append, walk_append hHead]
    exact walk_dropInert hFront
  refine ⟨base, hParent, directory, String.ofList part, hDirectory, ?_, hPlace, ?_⟩
  · simp [partsOf, hParts]
  · intro other hOther
    cases hKind : other.isAbsolute with
    | true =>
      rw [Path.join, if_pos hKind, FileTree.place, if_neg hOther, placeFrom, start, if_pos hKind,
        if_pos hKind]
    | false =>
      have hStart : tree.start (base.join other) = tree.start path := by
        rw [start, start, Path.isAbsolute_join hKind, hAbsolute]
      rw [FileTree.place, if_neg (Path.text_join_ne_empty hOther base), partsOf,
        Path.parts_join hKind, List.map_append, hStart, walk_append hBase, placeFrom, hKind]
      rfl

end FileTree

end KeyRemap
