import CostlyCalls.Project
import CostlyCalls.Proofs.Visits

/-!
# Stopped and complete analyses of files

The host is asked once before a file and once before every node of it. Without an answer of yes the
analysis of a file among many is that of the file on its own; with one it is stopped. The results of
files are put together to everything or nothing.
-/

set_option autoImplicit false

namespace CostlyCalls.Project

def loads (tree : FileTree) (path : Path) : Bool := (loadSnapshot tree path).isOk

def findingsOf : Except Error (List Finding) → List Finding
  | .ok findings => findings
  | .error _ => []

/-- What the analysis of a file on its own finds if nobody stops it. -/
def alone (engine : Engine) (tree : FileTree) (path : Path) : List Finding :=
  findingsOf (analyzeFile engine tree path fun _ => false).value

def complete (engine : Engine) (tree : FileTree) (files : List Path) : List Finding :=
  (files.filter (loads tree)).flatMap (alone engine tree)

def questions (tree : FileTree) (path : Path) : Nat :=
  match loadSnapshot tree path with
  | .error _ => 1
  | .ok (arena, _) => arena.nodes.length + 1

theorem questions_pos (tree : FileTree) (path : Path) : 0 < questions tree path := by
  unfold questions
  split <;> exact Nat.succ_pos _

theorem mapError_ne {ε δ α : Type} {f : ε → δ} {error : δ} (hError : ∀ fault, f fault ≠ error)
    {result : Except ε α} : result.mapError f ≠ .error error := by
  cases result with
  | error fault =>
    intro hEq
    exact hError fault (Except.error.inj hEq)
  | ok value => rintro ⟨⟩

theorem loadSnapshot_ne_cancelled (tree : FileTree) (path : Path) :
    loadSnapshot tree path ≠ .error .cancelled := by
  intro hLoad
  rw [loadSnapshot] at hLoad
  cases hText : read tree path with
  | error error =>
    rw [hText] at hLoad
    cases hLoad
    exact mapError_ne (by rintro fault ⟨⟩) hText
  | ok text =>
    rw [hText] at hLoad
    cases hParse : Snapshot.parse? text with
    | none =>
      simp only [bind, Except.bind, hParse] at hLoad
      cases hLoad
    | some snapshot =>
      simp only [bind, Except.bind, hParse] at hLoad
      exact mapError_ne (by rintro fault ⟨⟩) hLoad

section

variable {engine : Engine} (hEngine : engine.NeverStops)
include hEngine

theorem value_analyzeFile_never {tree : FileTree} {path : Path} {arena : Arena} {model : Model}
    (hLoad : loadSnapshot tree path = .ok (arena, model)) :
    (analyzeFile engine tree path fun _ => false).value =
      .ok (arena.nodes.flatMap fun node =>
        (engine.visit (engine.context arena model) node).findings) := by
  simp only [analyzeFile, hLoad, hEngine.findings_analyze_never]

theorem value_analyzeFile {tree : FileTree} {path : Path} {arena : Arena} {model : Model}
    (hLoad : loadSnapshot tree path = .ok (arena, model)) (halt : Nat → Bool) :
    (analyzeFile engine tree path halt).value =
      if (List.range arena.nodes.length).any halt then .error .cancelled
      else (analyzeFile engine tree path fun _ => false).value := by
  rw [value_analyzeFile_never hEngine hLoad]
  simp only [analyzeFile, hLoad, hEngine.findings_analyze]
  by_cases hAny : (List.range arena.nodes.length).any halt = true
  · rw [if_pos hAny, if_pos hAny]
  · rw [if_neg hAny, if_neg hAny]

theorem value_analyzeFile_of_loads {tree : FileTree} {path : Path} (hLoads : loads tree path = true) :
    (analyzeFile engine tree path fun _ => false).value = .ok (alone engine tree path) := by
  unfold alone
  cases hLoad : loadSnapshot tree path with
  | error error =>
    rw [loads, hLoad] at hLoads
    cases hLoads
  | ok parts =>
    rw [value_analyzeFile_never hEngine hLoad]
    rfl

theorem value_analyzeFile_never_ne (tree : FileTree) (path : Path) :
    (analyzeFile engine tree path fun _ => false).value ≠ .error .cancelled := by
  cases hLoad : loadSnapshot tree path with
  | error error =>
    have hOther := loadSnapshot_ne_cancelled tree path
    rw [hLoad] at hOther
    simpa [analyzeFile, hLoad] using hOther
  | ok parts =>
    rw [value_analyzeFile_never hEngine hLoad]
    rintro ⟨⟩

theorem value_analyzeOne (tree : FileTree) (path : Path) (halt : Nat → Bool) :
    (analyzeOne engine tree path halt).value =
      if (List.range (questions tree path)).any halt then .error .cancelled
      else (analyzeFile engine tree path fun _ => false).value := by
  have hQuestions : (List.range (questions tree path)).any halt =
      (halt 0 || (List.range (questions tree path - 1)).any fun i => halt (i + 1)) := by
    have hCount : questions tree path - 1 + 1 = questions tree path :=
      Nat.sub_add_cancel (questions_pos tree path)
    rw [← hCount, List.range_succ_eq_map, List.any_cons, List.any_map]
    rfl
  rw [hQuestions, analyzeOne]
  by_cases hFirst : halt 0 = true
  · rw [if_pos hFirst, hFirst, Bool.true_or, if_pos rfl]
  · rw [if_neg hFirst, Bool.eq_false_iff.2 hFirst, Bool.false_or]
    cases hLoad : loadSnapshot tree path with
    | error error => simp [questions, analyzeFile, hLoad]
    | ok parts =>
      have hCount : questions tree path - 1 = parts.1.nodes.length := by simp [questions, hLoad]
      rw [hCount, value_analyzeFile hEngine hLoad]

end

theorem alone_of_not_loads {engine : Engine} {tree : FileTree} {path : Path}
    (hLoads : loads tree path = false) : alone engine tree path = [] := by
  unfold loads at hLoads
  cases hLoad : loadSnapshot tree path with
  | error error => simp [alone, analyzeFile, hLoad, findingsOf]
  | ok parts =>
    rw [hLoad] at hLoads
    cases hLoads

theorem value_collect_of_cancelled {results : List (Path × Except Error (List Finding))}
    (hCancelled : ∃ r ∈ results, r.2 = .error .cancelled) :
    (collect results).value = .error .cancelled := by
  fun_induction collect results with
  | case1 => simp at hCancelled
  | case2 path findings rest ih =>
    have hRest : ∃ r ∈ rest, r.2 = .error .cancelled := by simpa using hCancelled
    simp [Logged.map, ih hRest, Except.map]
  | case3 => rfl
  | case4 path error rest hError ih =>
    obtain ⟨r, hr, hValue⟩ := hCancelled
    rcases List.mem_cons.1 hr with rfl | hr
    · exact absurd (Except.error.inj hValue) hError
    · exact ih ⟨r, hr, hValue⟩

theorem value_collect_of_not_cancelled {results : List (Path × Except Error (List Finding))}
    (hResults : ∀ r ∈ results, r.2 ≠ .error .cancelled) :
    (collect results).value = .ok (results.flatMap fun r => findingsOf r.2) := by
  fun_induction collect results with
  | case1 => rfl
  | case2 path findings rest ih =>
    rw [List.forall_mem_cons] at hResults
    simp [Logged.map, ih hResults.2, Except.map, findingsOf]
  | case3 => simp at hResults
  | case4 path error rest hError ih =>
    rw [List.forall_mem_cons] at hResults
    simp [ih hResults.2, findingsOf]

theorem complete_eq_flatMap (engine : Engine) (tree : FileTree) (files : List Path) :
    complete engine tree files = files.flatMap (alone engine tree) := by
  unfold complete
  induction files with
  | nil => rfl
  | cons path rest ih =>
    rw [List.filter_cons, List.flatMap_cons]
    by_cases hLoads : loads tree path = true
    · rw [if_pos hLoads, List.flatMap_cons, ih]
    · rw [if_neg hLoads, alone_of_not_loads (Bool.eq_false_iff.2 hLoads), List.nil_append, ih]

theorem value_collect_mapIdx {engine : Engine} {tree : FileTree} {files : List Path}
    {outcome : Nat → Path → Except Error (List Finding)}
    (hOutcome : ∀ n path, files[n]? = some path → outcome n path = .error .cancelled ∨
      outcome n path = (analyzeFile engine tree path fun _ => false).value) :
    (∃ n path, files[n]? = some path ∧ outcome n path = .error .cancelled) ∧
      (collect (files.mapIdx fun n path => (path, outcome n path))).value = .error .cancelled ∨
    (∀ n path, files[n]? = some path → outcome n path ≠ .error .cancelled) ∧
      (collect (files.mapIdx fun n path => (path, outcome n path))).value =
        .ok (complete engine tree files) := by
  have hMem : ∀ r, r ∈ (files.mapIdx fun n path => (path, outcome n path)) ↔
      ∃ n path, files[n]? = some path ∧ (path, outcome n path) = r := by
    intro r
    simp only [List.mem_iff_getElem?, List.getElem?_mapIdx, Option.map_eq_some_iff]
  by_cases hCancelled : ∃ n path, files[n]? = some path ∧ outcome n path = .error .cancelled
  · refine .inl ⟨hCancelled, value_collect_of_cancelled ?_⟩
    obtain ⟨n, path, hPath, hValue⟩ := hCancelled
    exact ⟨(path, outcome n path), (hMem _).2 ⟨n, path, hPath, rfl⟩, hValue⟩
  · have hNone : ∀ n path, files[n]? = some path → outcome n path ≠ .error .cancelled :=
      fun n path hPath hValue => hCancelled ⟨n, path, hPath, hValue⟩
    refine .inr ⟨hNone, ?_⟩
    have hAlone : (files.mapIdx fun n path => (path, outcome n path)) =
        files.map fun path => (path, (analyzeFile engine tree path fun _ => false).value) := by
      apply List.ext_getElem?
      intro n
      rw [List.getElem?_mapIdx, List.getElem?_map]
      cases hPath : files[n]? with
      | none => rfl
      | some path =>
        rw [Option.map_some, Option.map_some,
          (hOutcome n path hPath).resolve_left (hNone n path hPath)]
    rw [value_collect_of_not_cancelled, hAlone, complete_eq_flatMap, List.flatMap_map]
    · rfl
    · intro r hr
      obtain ⟨n, path, hPath, rfl⟩ := (hMem r).1 hr
      exact hNone n path hPath

/-- A question that is asked about a file: all questions before it were answered with no. -/
def Asked (tree : FileTree) (path : Path) (halt : Nat → Bool) (i : Nat) : Prop :=
  i < questions tree path ∧ ∀ j < i, halt j = false

theorem exists_asked_iff {tree : FileTree} {path : Path} {halt : Nat → Bool} :
    (∃ i, Asked tree path halt i ∧ halt i = true) ↔
      (List.range (questions tree path)).any halt = true := by
  constructor
  · rintro ⟨i, ⟨hi, -⟩, hHalt⟩
    exact List.any_eq_true.2 ⟨i, List.mem_range.2 hi, hHalt⟩
  · intro hAny
    obtain ⟨i, hFind⟩ := Option.isSome_iff_exists.1 (List.find?_isSome.2 (List.any_eq_true.1 hAny))
    obtain ⟨hHalt, hi, hBefore⟩ := List.find?_range_eq_some.1 hFind
    exact ⟨i, ⟨List.mem_range.1 hi, by simpa using hBefore⟩, hHalt⟩

def Stopped (tree : FileTree) (files : List Path) (halt : Nat → Nat → Bool) : Prop :=
  ∃ n path i, files[n]? = some path ∧ Asked tree path (halt n) i ∧ halt n i = true

theorem value_analyzeFiles (engine : Engine) (tree : FileTree) (halt : Nat → Nat → Bool)
    (files : List Path) :
    (analyzeFiles engine tree halt files).value =
      (collect (files.mapIdx fun n path =>
        (path, (analyzeOne engine tree path (halt n)).value))).value := by
  have hResults : ((files.mapIdx fun n path => (path, analyzeOne engine tree path (halt n))).map
      fun r => (r.1, r.2.value)) =
        files.mapIdx fun n path => (path, (analyzeOne engine tree path (halt n)).value) := by
    apply List.ext_getElem?
    intro n
    simp [Function.comp_def]
  rw [analyzeFiles, hResults]

theorem value_analyzeOne_eq_cancelled_iff {engine : Engine} (hEngine : engine.NeverStops)
    {tree : FileTree} {path : Path} {halt : Nat → Bool} :
    (analyzeOne engine tree path halt).value = .error .cancelled ↔
      ∃ i, Asked tree path halt i ∧ halt i = true := by
  rw [exists_asked_iff, value_analyzeOne hEngine]
  split
  · next hAny => exact iff_of_true rfl hAny
  · next hNone => exact iff_of_false (value_analyzeFile_never_ne hEngine tree path) hNone

/-- The analysis of files finds everything, or it is stopped; it is stopped if and only if some
question is answered with yes. -/
theorem value_analyzeFiles_cases {engine : Engine} (hEngine : engine.NeverStops) (tree : FileTree)
    (halt : Nat → Nat → Bool) (files : List Path) :
    Stopped tree files halt ∧ (analyzeFiles engine tree halt files).value = .error .cancelled ∨
    ¬Stopped tree files halt ∧
      (analyzeFiles engine tree halt files).value = .ok (complete engine tree files) := by
  have hOutcome : ∀ n path, files[n]? = some path →
      (analyzeOne engine tree path (halt n)).value = .error .cancelled ∨
      (analyzeOne engine tree path (halt n)).value =
        (analyzeFile engine tree path fun _ => false).value := by
    intro n path _
    rw [value_analyzeOne hEngine]
    split
    · exact .inl rfl
    · exact .inr rfl
  rw [value_analyzeFiles]
  rcases value_collect_mapIdx hOutcome with ⟨⟨n, path, hPath, hOne⟩, hValue⟩ | ⟨hNone, hValue⟩
  · obtain ⟨i, hAsked, hHalt⟩ := (value_analyzeOne_eq_cancelled_iff hEngine).1 hOne
    exact .inl ⟨⟨n, path, i, hPath, hAsked, hHalt⟩, hValue⟩
  · refine .inr ⟨?_, hValue⟩
    rintro ⟨n, path, i, hPath, hAsked, hHalt⟩
    exact hNone n path hPath ((value_analyzeOne_eq_cancelled_iff hEngine).2 ⟨i, hAsked, hHalt⟩)

end CostlyCalls.Project
