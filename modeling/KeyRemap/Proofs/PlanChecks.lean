import KeyRemap.Proofs.PathParents
import Mathlib.Data.List.Forall2
import Mathlib.Data.List.Nodup
import Mathlib.Order.Bounds.Basic
import Mathlib.Order.Fin.Basic
import Mathlib.Order.WellFounded

/-!
# Checks of a plan

A plan file is read, its units are checked one after the other against the names of those before,
and its relative paths are then seen from the directory of the file. The check stops at the first
unit with a fault, and a unit with two faults is refused for its name.

* `Plan.IsSound`, `Plan.IsRefusedFor`: what a plan has to be, and what it is refused for.
* `Plan.validate_eq_ok_iff`, `Plan.validate_eq_error_iff`: the check finds exactly that.
* `Plan.ResolvesFrom`, `Plan.resolvesFrom_iff`: every path of a plan is resolved, in its place.
* `Plan.outcome_of_text`: what becomes of a text, and of the file that holds it.
-/

namespace KeyRemap

namespace Plan

/-! ## What is wrong with a plan -/

/-- The unit at a position has the name of a unit before it. -/
def RepeatsName (units : List UnitPlan) (i : Fin units.length) : Prop :=
  ∃ j < i, units[j].name = units[i].name

/-- The unit at a position repeats a name or has no sources. -/
def IsFaulty (units : List UnitPlan) (i : Fin units.length) : Prop :=
  RepeatsName units i ∨ units[i].sources = []

instance (units : List UnitPlan) : DecidablePred (RepeatsName units) := fun i =>
  inferInstanceAs (Decidable (∃ j < i, units[j].name = units[i].name))

instance (units : List UnitPlan) : DecidablePred (IsFaulty units) := fun i =>
  inferInstanceAs (Decidable (RepeatsName units i ∨ units[i].sources = []))

/-- The plan has units, their names are distinct, and each has sources. -/
structure IsSound (plan : Plan) : Prop where
  units : plan.units ≠ []
  names : (plan.units.map UnitPlan.name).Nodup
  sources : ∀ unit ∈ plan.units, unit.sources ≠ []

/-- What a plan is refused for: it has no units, or the first faulty unit repeats a name, or that
unit has a name of its own and no sources. -/
inductive IsRefusedFor (plan : Plan) : PlanError → Prop
  | noUnits (hUnits : plan.units = []) : IsRefusedFor plan .noUnits
  | duplicateUnit {i : Fin plan.units.length} (hFirst : IsLeast {i | IsFaulty plan.units i} i)
      (hName : RepeatsName plan.units i) : IsRefusedFor plan (.duplicateUnit plan.units[i].name)
  | emptyUnit {i : Fin plan.units.length} (hFirst : IsLeast {i | IsFaulty plan.units i} i)
      (hName : ¬ RepeatsName plan.units i) : IsRefusedFor plan (.emptyUnit plan.units[i].name)

/-- The names that a unit must not repeat are those of the units before it. -/
theorem repeatsName_iff {units : List UnitPlan} {i : Fin units.length} :
    RepeatsName units i ↔ units[i].name ∈ (units.take i).map UnitPlan.name := by
  simp only [RepeatsName, List.mem_map, List.mem_take_iff_getElem]
  constructor
  · rintro ⟨j, hLt, hName⟩
    exact ⟨_, ⟨j, by omega, rfl⟩, hName⟩
  · rintro ⟨_, ⟨j, hLt, rfl⟩, hName⟩
    exact ⟨⟨j, by omega⟩, by simp only [Fin.lt_def]; omega, hName⟩

/-- Units up to a position that are not faulty have distinct names, and all have sources. -/
theorem faultless_take {units : List UnitPlan} {n : Nat}
    (h : ∀ i : Fin units.length, i < n → ¬ IsFaulty units i) :
    ((units.take n).map UnitPlan.name).Nodup ∧ ∀ unit ∈ units.take n, unit.sources ≠ [] := by
  constructor
  · rw [List.Nodup, List.pairwise_map, List.pairwise_iff_getElem]
    intro j i hj hi hLt hName
    rw [List.length_take] at hi
    rw [List.getElem_take, List.getElem_take] at hName
    exact h ⟨i, by omega⟩ (by simp only; omega) (.inl ⟨⟨j, by omega⟩, hLt, hName⟩)
  · intro unit hUnit hSources
    obtain ⟨i, hi, rfl⟩ := List.mem_take_iff_getElem.mp hUnit
    exact h ⟨i, by omega⟩ (by simp only; omega) (.inr hSources)

/-! ## Checking units -/

theorem checkUnits_eq_ok_iff (seen : List String) (units : List UnitPlan) :
    checkUnits seen units = .ok () ↔
      (units.map UnitPlan.name).Nodup ∧
        ∀ unit ∈ units, unit.name ∉ seen ∧ unit.sources ≠ [] := by
  induction units generalizing seen with
  | nil => simp [checkUnits]
  | cons unit units ih =>
    rw [checkUnits]
    by_cases hName : unit.name ∈ seen
    · simp [hName]
    · by_cases hSources : unit.sources = []
      · simp [hName, hSources]
      · rw [if_neg hName, if_neg hSources, ih]
        grind

/-- Units that pass add their names to those that are taken. -/
theorem checkUnits_append {seen : List String} {before : List UnitPlan}
    (h : checkUnits seen before = .ok ()) (rest : List UnitPlan) :
    checkUnits seen (before ++ rest) =
      checkUnits ((before.map UnitPlan.name).reverse ++ seen) rest := by
  induction before generalizing seen with
  | nil => rfl
  | cons unit before ih =>
    obtain ⟨-, hUnits⟩ := (checkUnits_eq_ok_iff _ _).mp h
    obtain ⟨hName, hSources⟩ := hUnits unit List.mem_cons_self
    rw [checkUnits, if_neg hName, if_neg hSources] at h
    rw [List.cons_append, checkUnits, if_neg hName, if_neg hSources, ih h]
    simp

/-- The check comes to the first faulty unit with the names of those before it. -/
theorem checkUnits_of_first {units : List UnitPlan} {i : Fin units.length}
    (hFirst : IsLeast {i | IsFaulty units i} i) :
    checkUnits [] units =
      checkUnits ((units.take i).map UnitPlan.name).reverse (units[i] :: units.drop (i + 1)) := by
  have hFaultless : ∀ j : Fin units.length, j < (i : Nat) → ¬ IsFaulty units j := by
    intro j hj hFaulty
    exact absurd (hFirst.2 hFaulty) (not_le_of_gt hj)
  obtain ⟨hNames, hSources⟩ := faultless_take hFaultless
  have hTake : checkUnits [] (units.take i) = .ok () := by
    rw [checkUnits_eq_ok_iff]
    exact ⟨hNames, fun unit hUnit => ⟨List.not_mem_nil, hSources unit hUnit⟩⟩
  have hRest := checkUnits_append hTake (units.drop i)
  rw [List.take_append_drop, List.append_nil] at hRest
  rw [hRest, ← List.getElem_cons_drop i.isLt]
  rfl

theorem validate_eq_ok_iff (plan result : Plan) :
    plan.validate = .ok result ↔ plan.IsSound ∧ result = plan := by
  have hCheck := checkUnits_eq_ok_iff [] plan.units
  unfold validate
  constructor
  · intro h
    split at h
    · cases h
    · split at h
      · cases h
      · rename_i hUnits _ hOk
        obtain ⟨hNames, hEach⟩ := hCheck.mp hOk
        exact ⟨⟨hUnits, hNames, fun unit hUnit => (hEach unit hUnit).2⟩, (Except.ok.inj h).symm⟩
  · rintro ⟨hSound, rfl⟩
    have hOk := hCheck.mpr
      ⟨hSound.names, fun unit hUnit => ⟨List.not_mem_nil, hSound.sources unit hUnit⟩⟩
    rw [if_neg hSound.units, hOk]

theorem validate_of_isRefusedFor {plan : Plan} {cause : PlanError} (h : plan.IsRefusedFor cause) :
    plan.validate = .error cause := by
  cases h with
  | noUnits hUnits => rw [validate, if_pos hUnits]
  | @duplicateUnit i hFirst hName =>
    have hUnits : plan.units ≠ [] := List.ne_nil_of_length_pos i.pos
    have hTaken := List.mem_reverse.mpr (repeatsName_iff.mp hName)
    rw [validate, if_neg hUnits, checkUnits_of_first hFirst, checkUnits, if_pos hTaken]
  | @emptyUnit i hFirst hName =>
    have hUnits : plan.units ≠ [] := List.ne_nil_of_length_pos i.pos
    have hFree := mt List.mem_reverse.mp (mt repeatsName_iff.mpr hName)
    have hSources : plan.units[i].sources = [] := hFirst.1.resolve_left hName
    rw [validate, if_neg hUnits, checkUnits_of_first hFirst, checkUnits, if_neg hFree,
      if_pos hSources]

/-- A plan that is not sound is refused for something. -/
theorem exists_isRefusedFor {plan : Plan} (h : ¬ plan.IsSound) :
    ∃ cause, plan.IsRefusedFor cause := by
  by_cases hUnits : plan.units = []
  · exact ⟨_, .noUnits hUnits⟩
  · have hFaulty : {i | IsFaulty plan.units i}.Nonempty := by
      by_contra hNone
      rw [Set.not_nonempty_iff_eq_empty, Set.eq_empty_iff_forall_notMem] at hNone
      have hFaultless := faultless_take (fun i (_ : i < plan.units.length) => hNone i)
      rw [List.take_length] at hFaultless
      exact h ⟨hUnits, hFaultless.1, hFaultless.2⟩
    obtain ⟨i, hFaulty, hLeast⟩ := WellFounded.has_min wellFounded_lt _ hFaulty
    have hFirst : IsLeast {i | IsFaulty plan.units i} i :=
      ⟨hFaulty, fun j hj => not_lt.mp (hLeast j hj)⟩
    by_cases hName : RepeatsName plan.units i
    · exact ⟨_, .duplicateUnit hFirst hName⟩
    · exact ⟨_, .emptyUnit hFirst hName⟩

theorem validate_eq_error_iff (plan : Plan) (cause : PlanError) :
    plan.validate = .error cause ↔ plan.IsRefusedFor cause := by
  constructor
  · intro h
    have hSound : ¬ plan.IsSound := by
      intro hSound
      rw [(validate_eq_ok_iff plan plan).mpr ⟨hSound, rfl⟩] at h
      cases h
    obtain ⟨other, hOther⟩ := exists_isRefusedFor hSound
    rw [validate_of_isRefusedFor hOther] at h
    cases h
    exact hOther
  · exact validate_of_isRefusedFor

end Plan

/-! ## Resolving paths -/

/-- A written path stands for itself if it is absolute, and else for the base joined with it. -/
structure Path.Resolves (base written resolved : Path) : Prop where
  absolute (h : written.isAbsolute = true) : resolved = written
  relative (h : written.isAbsolute = false) : resolved = base.join written

/-- The unit has the same name, and all its paths are resolved in their order. -/
structure UnitPlan.ResolvesFrom (base : Path) (written resolved : UnitPlan) : Prop where
  name : resolved.name = written.name
  sources : List.Forall₂ base.Resolves written.sources resolved.sources
  output : base.Resolves written.output resolved.output

/-- All paths of the plan are resolved, and nothing else is changed. -/
structure Plan.ResolvesFrom (base : Path) (written resolved : Plan) : Prop where
  symbols : base.Resolves written.symbols resolved.symbols
  registry : Option.Rel base.Resolves written.registry resolved.registry
  units : List.Forall₂ (UnitPlan.ResolvesFrom base) written.units resolved.units

theorem Path.resolves_iff (base written resolved : Path) :
    base.Resolves written resolved ↔ base.join written = resolved := by
  constructor
  · intro hResolves
    cases h : written.isAbsolute with
    | true => rw [join, if_pos h, hResolves.absolute h]
    | false => exact (hResolves.relative h).symm
  · rintro rfl
    exact ⟨fun h => by rw [join, if_pos h], fun _ => rfl⟩

/-- Lists are related by a function, item by item, exactly if it maps one to the other. -/
theorem forall₂_iff_map_eq {A B : Type} {R : A → B → Prop} {f : A → B}
    (h : ∀ a b, R a b ↔ f a = b) (as : List A) (bs : List B) :
    List.Forall₂ R as bs ↔ as.map f = bs := by
  have hR : R = fun a b => f a = b := by
    funext a b
    exact propext (h a b)
  rw [hR, ← List.forall₂_map_left_iff, List.forall₂_eq_eq_eq]

theorem optionRel_iff_map_eq {A B : Type} {R : A → B → Prop} {f : A → B}
    (h : ∀ a b, R a b ↔ f a = b) (a : Option A) (b : Option B) :
    Option.Rel R a b ↔ a.map f = b := by
  cases a <;> cases b <;> simp [h]

theorem UnitPlan.resolvesFrom_iff (base : Path) (written resolved : UnitPlan) :
    written.ResolvesFrom base resolved ↔
      { written with
        sources := written.sources.map base.join
        output := base.join written.output } = resolved := by
  obtain ⟨name, sources, output⟩ := resolved
  simp only [UnitPlan.mk.injEq, ← base.resolves_iff, ← forall₂_iff_map_eq base.resolves_iff]
  constructor
  · intro h
    exact ⟨h.name.symm, h.sources, h.output⟩
  · rintro ⟨hName, hSources, hOutput⟩
    exact ⟨hName.symm, hSources, hOutput⟩

namespace Plan

theorem resolvesFrom_iff (base : Path) (written resolved : Plan) :
    written.ResolvesFrom base resolved ↔ written.rebase base = resolved := by
  have hUnit := UnitPlan.resolvesFrom_iff base
  obtain ⟨symbols, registry, units⟩ := resolved
  simp only [rebase, Plan.mk.injEq, ← base.resolves_iff, ← optionRel_iff_map_eq base.resolves_iff,
    ← forall₂_iff_map_eq hUnit]
  constructor
  · intro h
    exact ⟨h.symbols, h.registry, h.units⟩
  · rintro ⟨hSymbols, hRegistry, hUnits⟩
    exact ⟨hSymbols, hRegistry, hUnits⟩

/-! ## Plan files -/

theorem parse_of_text {text : String} {plan : Plan}
    (hText : (Toml.read? text).bind ofEntries? = some plan) : parse text = plan.validate := by
  simp only [parse, hText]

end Plan

theorem except_map_eq_ok_iff {E A B : Type} (x : Except E A) (f : A → B) (b : B) :
    x.map f = .ok b ↔ ∃ a, x = .ok a ∧ f a = b := by
  cases x <;> simp [Except.map]

theorem except_map_eq_error_iff {E A B : Type} (x : Except E A) (f : A → B) (e : E) :
    x.map f = .error e ↔ x = .error e := by
  cases x <;> simp [Except.map]

/-- The plan in the file at a path. -/
def FileTree.planAt (tree : FileTree) (path : Path) : Except PlanError Plan :=
  (access.loadPlan path tree).1

/-- The plan in a file is the plan of its text, seen from the parent of its path. -/
theorem FileTree.planAt_eq {tree : FileTree} {base path : Path} {text : String}
    (hRead : tree.read path = .ok text) (hParent : path.parent? = some base) :
    tree.planAt path = (Plan.parse text).map (Plan.rebase base) := by
  have hAccess : access.read path tree = (tree.read path, tree) := rfl
  rw [planAt, FileAccess.loadPlan, StateM.bind_apply, hAccess, hRead]
  show Plan.parseAt path text = _
  rw [Plan.parseAt, hParent]
  cases Plan.parse text <;> rfl

namespace Plan

/-- **A plan file is accepted exactly if it is sound, and refused for the first thing wrong with
it.** The plan of a text is taken as it is if it has units, their names are distinct and each has
sources. If it has no units, this is the error; else the first unit that repeats a name or has no
sources is named, for its name if it repeats one. The same goes for a file with that text, and the
paths in its plan are resolved: each stands for itself if it is absolute, and else for the parent of
the file's path joined with it, so that it leads where it leads from the directory of the file. -/
theorem outcome_of_text {text : String} {plan : Plan}
    (hText : (Toml.read? text).bind ofEntries? = some plan) :
    (∀ result, parse text = .ok result ↔ plan.IsSound ∧ result = plan) ∧
    (∀ cause, parse text = .error cause ↔ plan.IsRefusedFor cause) ∧
    ∀ (tree : FileTree) (path : Path), tree.read path = .ok text →
      ∃ base, tree.IsBaseOf base path ∧
        (∀ result, tree.planAt path = .ok result ↔
          plan.IsSound ∧ plan.ResolvesFrom base result) ∧
        ∀ cause, tree.planAt path = .error cause ↔ plan.IsRefusedFor cause := by
  rw [parse_of_text hText]
  refine ⟨plan.validate_eq_ok_iff, plan.validate_eq_error_iff, ?_⟩
  intro tree path hRead
  obtain ⟨base, hBase⟩ := FileTree.exists_base_of_read hRead
  have hPlan := FileTree.planAt_eq hRead hBase.parent
  rw [parse_of_text hText] at hPlan
  refine ⟨base, hBase, ?_, ?_⟩
  · intro result
    rw [hPlan, resolvesFrom_iff, except_map_eq_ok_iff]
    constructor
    · rintro ⟨accepted, hValid, hRebased⟩
      obtain ⟨hSound, rfl⟩ := (validate_eq_ok_iff _ _).mp hValid
      exact ⟨hSound, hRebased⟩
    · rintro ⟨hSound, hRebased⟩
      exact ⟨plan, (validate_eq_ok_iff _ _).mpr ⟨hSound, rfl⟩, hRebased⟩
  · intro cause
    rw [hPlan, except_map_eq_error_iff, validate_eq_error_iff]

/-- A unit that repeats a name and has no sources, in front of one without sources: the name is
refused. The paths of a sound plan, of which two are absolute, are resolved from `d`. -/
theorem outcome_of_text_two_faults :
    ∃ (refused accepted : String) (tree : FileTree),
      refused =
        "symbols = \"s\"\n[[unit]]\nname = \"a\"\nsources = [\"x\"]\noutput = \"o\"\n" ++
          "[[unit]]\nname = \"a\"\nsources = []\noutput = \"p\"\n" ++
          "[[unit]]\nname = \"b\"\nsources = []\noutput = \"q\"\n" ∧
      accepted =
        "symbols = \"s\"\nregistry = \"/r\"\n[[unit]]\nname = \"a\"\n" ++
          "sources = [\"x\", \"/y\"]\noutput = \"o\"\n" ∧
      tree = { nodes := [(["d"], .directory), (["d", "p"], .file accepted.toUTF8)] } ∧
      parse refused = .error (.duplicateUnit "a") ∧
      tree.planAt ⟨"d/./p"⟩ =
        .ok
          { symbols := ⟨"d/s"⟩
            registry := some ⟨"/r"⟩
            units := [{ name := "a", sources := [⟨"d/x"⟩, ⟨"/y"⟩], output := ⟨"d/o"⟩ }] } := by
  obtain ⟨refused, hRefused⟩ : ∃ text : String, text =
      "symbols = \"s\"\n[[unit]]\nname = \"a\"\nsources = [\"x\"]\noutput = \"o\"\n" ++
        "[[unit]]\nname = \"a\"\nsources = []\noutput = \"p\"\n" ++
        "[[unit]]\nname = \"b\"\nsources = []\noutput = \"q\"\n" := ⟨_, rfl⟩
  obtain ⟨accepted, hAccepted⟩ : ∃ text : String, text =
      "symbols = \"s\"\nregistry = \"/r\"\n[[unit]]\nname = \"a\"\n" ++
        "sources = [\"x\", \"/y\"]\noutput = \"o\"\n" := ⟨_, rfl⟩
  obtain ⟨units, hUnits⟩ : ∃ units : List UnitPlan, units =
      [{ name := "a", sources := [⟨"x"⟩], output := ⟨"o"⟩ },
        { name := "a", sources := [], output := ⟨"p"⟩ },
        { name := "b", sources := [], output := ⟨"q"⟩ }] := ⟨_, rfl⟩
  obtain ⟨hFaulty, hSound⟩ :
      (Toml.read? refused).bind ofEntries? =
        some { symbols := ⟨"s"⟩, registry := none, units } ∧
      (Toml.read? accepted).bind ofEntries? =
        some
          { symbols := ⟨"s"⟩
            registry := some ⟨"/r"⟩
            units := [{ name := "a", sources := [⟨"x"⟩, ⟨"/y"⟩], output := ⟨"o"⟩ }] } := by
    subst hRefused hAccepted hUnits
    decide +kernel
  obtain ⟨tree, hTree⟩ : ∃ tree : FileTree, tree =
      { nodes := [(["d"], .directory), (["d", "p"], .file accepted.toUTF8)] } := ⟨_, rfl⟩
  have hRead : tree.read ⟨"d/./p"⟩ = .ok accepted := by
    have hPlace : tree.place ⟨"d/./p"⟩ = .ok ["d", "p"] := by
      subst hTree
      rfl
    apply FileTree.read_of_content? hPlace
    subst hTree
    rfl
  refine ⟨refused, accepted, tree, hRefused, hAccepted, hTree, ?_, ?_⟩
  · obtain ⟨i, hFirst, hName, hTwice⟩ : ∃ i : Fin units.length,
        IsLeast {i | IsFaulty units i} i ∧ RepeatsName units i ∧ units[i].name = "a" := by
      subst hUnits
      refine ⟨⟨1, by decide⟩, ⟨by decide, ?_⟩, by decide, rfl⟩
      intro j hFault
      revert j
      decide
    have hOutcome := ((outcome_of_text hFaulty).2.1 _).mpr (.duplicateUnit hFirst hName)
    rwa [hTwice] at hOutcome
  · obtain ⟨base, hBase, hOk, -⟩ := (outcome_of_text hSound).2.2 tree _ hRead
    have hParent : Path.parent? ⟨"d/./p"⟩ = some ⟨"d"⟩ := by decide
    cases hParent.symm.trans hBase.parent
    refine (hOk _).mpr ⟨⟨by decide, by decide, by decide⟩, ?_⟩
    rw [resolvesFrom_iff]
    rfl

end Plan

end KeyRemap
