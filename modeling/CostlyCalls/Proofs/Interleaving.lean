import Mathlib.Algebra.GroupWithZero.Nat
import CostlyCalls.Proofs.Cancellation
import CostlyCalls.Proofs.Construction
import CostlyCalls.Proofs.DiscoveryOrder

/-!
# Interleaved analyses

The analyses of several files as tasks that take turns in any order. A turn is one question of a
task to the host and the work up to its next question. What a task becomes depends only on the answers to
its own questions, so every order of turns gives the result of analysing one file after the other.
-/

set_option autoImplicit false

namespace CostlyCalls.Project

inductive Task
  | waiting
  | visiting (ctx : Context) (found : List Finding) (node : Node) (rest : List Node)
  | finished (result : Except Error (List Finding))

namespace Task

def resume (ctx : Context) (found : List Finding) : List Node → Task
  | [] => .finished (.ok found)
  | node :: rest => .visiting ctx found node rest

def answer (engine : Engine) (tree : FileTree) (path : Path) (stop : Bool) : Task → Option Task
  | .waiting =>
    if stop then some (.finished (.error .cancelled))
    else
      match loadSnapshot tree path with
      | .error error => some (.finished (.error error))
      | .ok (arena, model) => some (resume (engine.context arena model) [] arena.nodes)
  | .visiting ctx found node rest =>
    if stop then some (.finished (.error .cancelled))
    else some (resume ctx (found ++ (engine.visit ctx node).findings) rest)
  | .finished _ => none

def run (engine : Engine) (tree : FileTree) (path : Path) : Task → List Bool → Option Task
  | task, [] => some task
  | task, stop :: answers =>
    (task.answer engine tree path stop).bind fun next => next.run engine tree path answers

def left (tree : FileTree) (path : Path) : Task → Nat
  | .waiting => questions tree path
  | .visiting _ _ _ rest => rest.length + 1
  | .finished _ => 0

variable {engine : Engine} {tree : FileTree} {path : Path}

theorem left_resume (ctx : Context) (found : List Finding) (nodes : List Node) :
    (resume ctx found nodes).left tree path = nodes.length := by
  cases nodes <;> rfl

theorem left_answer_lt {task next : Task} {stop : Bool}
    (hAnswer : task.answer engine tree path stop = some next) :
    next.left tree path < task.left tree path := by
  cases task with
  | waiting =>
    rw [answer] at hAnswer
    split at hAnswer
    · cases hAnswer
      exact questions_pos tree path
    · split at hAnswer
      · next hLoad =>
        cases hAnswer
        simp [left, questions, hLoad]
      · next hLoad =>
        cases hAnswer
        rw [left_resume, left, questions, hLoad]
        exact Nat.lt_succ_self _
  | visiting ctx found node rest =>
    rw [answer] at hAnswer
    split at hAnswer
    · cases hAnswer
      exact Nat.succ_pos _
    · cases hAnswer
      rw [left_resume]
      exact Nat.lt_succ_self _
  | finished result => cases hAnswer

theorem exists_answer {task : Task} (hTask : ∀ result, task ≠ .finished result) (stop : Bool) :
    ∃ next, task.answer engine tree path stop = some next := by
  cases task with
  | waiting =>
    rw [answer]
    split
    · exact ⟨_, rfl⟩
    · split <;> exact ⟨_, rfl⟩
  | visiting ctx found node rest =>
    rw [answer]
    split <;> exact ⟨_, rfl⟩
  | finished result => exact absurd rfl (hTask result)

theorem length_le_left {task next : Task} {answers : List Bool}
    (hRun : task.run engine tree path answers = some next) :
    answers.length ≤ task.left tree path := by
  induction answers generalizing task with
  | nil => exact Nat.zero_le _
  | cons stop answers ih =>
    obtain ⟨middle, hAnswer, hRun⟩ := Option.bind_eq_some_iff.1 hRun
    exact Nat.lt_of_le_of_lt (ih hRun) (left_answer_lt hAnswer)

theorem run_finished {result result' : Except Error (List Finding)} {answers : List Bool}
    (hRun : (Task.finished result).run engine tree path answers = some (.finished result')) :
    answers = [] ∧ result' = result := by
  cases answers with
  | nil =>
    cases hRun
    exact ⟨rfl, rfl⟩
  | cons stop answers => cases hRun

theorem run_resume {ctx : Context} {found : List Finding} {nodes : List Node}
    {answers : List Bool} {result : Except Error (List Finding)}
    (hRun : (resume ctx found nodes).run engine tree path answers = some (.finished result)) :
    result = if answers.any id then .error .cancelled
      else .ok (found ++ nodes.flatMap fun node => (engine.visit ctx node).findings) := by
  induction nodes generalizing found answers with
  | nil =>
    obtain ⟨rfl, rfl⟩ := run_finished hRun
    simp
  | cons node rest ih =>
    cases answers with
    | nil => cases hRun
    | cons stop answers =>
      obtain ⟨next, hAnswer, hRest⟩ := Option.bind_eq_some_iff.1 hRun
      cases stop with
      | true =>
        cases hAnswer
        obtain ⟨rfl, rfl⟩ := run_finished hRest
        rfl
      | false =>
        cases hAnswer
        rw [ih hRest]
        simp

theorem run_waiting (hEngine : engine.NeverStops) {answers : List Bool}
    {result : Except Error (List Finding)}
    (hRun : Task.waiting.run engine tree path answers = some (.finished result)) :
    result = if answers.any id then .error .cancelled
      else (analyzeFile engine tree path fun _ => false).value := by
  cases answers with
  | nil => cases hRun
  | cons stop answers =>
    obtain ⟨next, hAnswer, hRest⟩ := Option.bind_eq_some_iff.1 hRun
    cases stop with
    | true =>
      cases hAnswer
      obtain ⟨rfl, rfl⟩ := run_finished hRest
      rfl
    | false =>
      rw [answer, if_neg Bool.false_ne_true] at hAnswer
      cases hLoad : loadSnapshot tree path with
      | error error =>
        rw [hLoad] at hAnswer
        cases hAnswer
        obtain ⟨rfl, rfl⟩ := run_finished hRest
        simp [analyzeFile, hLoad]
      | ok parts =>
        rw [hLoad] at hAnswer
        cases hAnswer
        rw [run_resume hRest, value_analyzeFile_never hEngine hLoad]
        simp

end Task

/-- One turn: the task at position `n` asks its next question, and `stop` is the answer. -/
inductive Turn (engine : Engine) (tree : FileTree) :
    List (Path × Task) → Nat × Bool → List (Path × Task) → Prop
  | intro {tasks : List (Path × Task)} {n : Nat} {path : Path} {task next : Task} {stop : Bool}
      (hTask : tasks[n]? = some (path, task))
      (hAnswer : task.answer engine tree path stop = some next) :
      Turn engine tree tasks (n, stop) (tasks.set n (path, next))

/-- Turns in any order, with the questions and answers in the order in which they happen. -/
inductive Schedule (engine : Engine) (tree : FileTree) :
    List (Path × Task) → List (Nat × Bool) → List (Path × Task) → Prop
  | rest (tasks : List (Path × Task)) : Schedule engine tree tasks [] tasks
  | turn {tasks middle last : List (Path × Task)} {poll : Nat × Bool} {polls : List (Nat × Bool)}
      (hTurn : Turn engine tree tasks poll middle)
      (hRest : Schedule engine tree middle polls last) :
      Schedule engine tree tasks (poll :: polls) last

def waitingTasks (files : List Path) : List (Path × Task) := files.map fun path => (path, .waiting)

def finishedTasks (results : List (Path × Except Error (List Finding))) : List (Path × Task) :=
  results.map fun r => (r.1, .finished r.2)

def answersTo (n : Nat) (polls : List (Nat × Bool)) : List Bool :=
  (polls.filter fun poll => poll.1 = n).map Prod.snd

section

variable {engine : Engine} {tree : FileTree}

theorem Turn.length_eq {tasks next : List (Path × Task)} {poll : Nat × Bool}
    (hTurn : Turn engine tree tasks poll next) : next.length = tasks.length := by
  cases hTurn
  exact List.length_set

theorem Turn.lt_length {tasks next : List (Path × Task)} {poll : Nat × Bool}
    (hTurn : Turn engine tree tasks poll next) : poll.1 < tasks.length := by
  cases hTurn with
  | intro hTask hAnswer => exact (List.getElem?_eq_some_iff.1 hTask).1

theorem Schedule.lt_length {tasks last : List (Path × Task)} {polls : List (Nat × Bool)}
    (hSchedule : Schedule engine tree tasks polls last) : ∀ poll ∈ polls, poll.1 < tasks.length := by
  induction hSchedule with
  | rest tasks => simp
  | turn hTurn hRest ih =>
    rw [List.forall_mem_cons]
    exact ⟨hTurn.lt_length, fun poll hPoll => hTurn.length_eq ▸ ih poll hPoll⟩

theorem Schedule.length_eq {tasks last : List (Path × Task)} {polls : List (Nat × Bool)}
    (hSchedule : Schedule engine tree tasks polls last) : last.length = tasks.length := by
  induction hSchedule with
  | rest tasks => rfl
  | turn hTurn hRest ih => rw [ih, hTurn.length_eq]

/-- A task does not notice the turns of others. -/
theorem Schedule.getElem?_eq {tasks last : List (Path × Task)} {polls : List (Nat × Bool)}
    (hSchedule : Schedule engine tree tasks polls last) (n : Nat) :
    last[n]? = tasks[n]?.bind fun t =>
      (t.2.run engine tree t.1 (answersTo n polls)).map fun next => (t.1, next) := by
  induction hSchedule with
  | rest tasks => cases tasks[n]? <;> rfl
  | @turn tasks middle last poll polls hTurn hRest ih =>
    cases hTurn with
    | @intro m path task next stop hTask hAnswer =>
      rw [ih]
      by_cases hPosition : m = n
      · subst hPosition
        have hLess := (List.getElem?_eq_some_iff.1 hTask).1
        have hAnswers : answersTo m ((m, stop) :: polls) = stop :: answersTo m polls := by
          simp [answersTo]
        rw [List.getElem?_set_self hLess, hTask, hAnswers]
        simp [Task.run, hAnswer]
      · have hAnswers : answersTo n ((m, stop) :: polls) = answersTo n polls := by
          simp [answersTo, hPosition]
        rw [List.getElem?_set_ne hPosition, hAnswers]

theorem Schedule.exists_run {files : List Path} {polls : List (Nat × Bool)}
    {results : List (Path × Except Error (List Finding))}
    (hSchedule : Schedule engine tree (waitingTasks files) polls (finishedTasks results)) {n : Nat}
    {path : Path} (hPath : files[n]? = some path) :
    ∃ result, results[n]? = some (path, result) ∧
      Task.waiting.run engine tree path (answersTo n polls) = some (.finished result) := by
  have hLength : results.length = files.length := by
    simpa [waitingTasks, finishedTasks] using hSchedule.length_eq
  have hLess : n < results.length := hLength ▸ (List.getElem?_eq_some_iff.1 hPath).1
  have hLast := hSchedule.getElem?_eq n
  simp only [waitingTasks, finishedTasks, List.getElem?_map, hPath, Option.map_some,
    Option.bind_some, List.getElem?_eq_getElem hLess] at hLast
  obtain ⟨next, hRun, hNext⟩ := Option.map_eq_some_iff.1 hLast.symm
  obtain ⟨hFirst, rfl⟩ := Prod.mk.inj hNext
  exact ⟨results[n].2, by rw [List.getElem?_eq_getElem hLess, hFirst], hRun⟩

def outcome (engine : Engine) (tree : FileTree) (answers : List Bool) (path : Path) :
    Except Error (List Finding) :=
  if answers.any id then .error .cancelled else (analyzeFile engine tree path fun _ => false).value

theorem Schedule.results_eq (hEngine : engine.NeverStops) {files : List Path}
    {polls : List (Nat × Bool)} {results : List (Path × Except Error (List Finding))}
    (hSchedule : Schedule engine tree (waitingTasks files) polls (finishedTasks results)) :
    results = files.mapIdx fun n path => (path, outcome engine tree (answersTo n polls) path) := by
  apply List.ext_getElem?
  intro n
  rw [List.getElem?_mapIdx]
  cases hPath : files[n]? with
  | none =>
    have hLast := hSchedule.getElem?_eq n
    simpa [waitingTasks, finishedTasks, hPath] using hLast
  | some path =>
    obtain ⟨result, hResult, hRun⟩ := hSchedule.exists_run hPath
    rw [hResult, Option.map_some, outcome, ← Task.run_waiting hEngine hRun]

theorem Schedule.any_iff {files : List Path} {polls : List (Nat × Bool)} {last : List (Path × Task)}
    (hSchedule : Schedule engine tree (waitingTasks files) polls last) :
    polls.any Prod.snd = true ↔
      ∃ n path, files[n]? = some path ∧ (answersTo n polls).any id = true := by
  constructor
  · intro hAny
    obtain ⟨poll, hPoll, hStop⟩ := List.any_eq_true.1 hAny
    have hLess : poll.1 < files.length := by
      simpa [waitingTasks] using hSchedule.lt_length poll hPoll
    refine ⟨poll.1, files[poll.1], List.getElem?_eq_getElem hLess, List.any_eq_true.2 ?_⟩
    exact ⟨poll.2, List.mem_map.2 ⟨poll, List.mem_filter.2 ⟨hPoll, by simp⟩, rfl⟩, hStop⟩
  · rintro ⟨n, path, -, hAny⟩
    obtain ⟨stop, hStop, hYes⟩ := List.any_eq_true.1 hAny
    obtain ⟨poll, hPoll, rfl⟩ := List.mem_map.1 hStop
    exact List.any_eq_true.2 ⟨poll, (List.mem_filter.1 hPoll).1, hYes⟩

theorem Schedule.value_collect (hEngine : engine.NeverStops) {files : List Path}
    {polls : List (Nat × Bool)} {results : List (Path × Except Error (List Finding))}
    (hSchedule : Schedule engine tree (waitingTasks files) polls (finishedTasks results)) :
    (collect results).value =
      if polls.any Prod.snd then .error .cancelled else .ok (complete engine tree files) := by
  have hCancelled : ∀ n path, outcome engine tree (answersTo n polls) path = .error .cancelled ↔
      (answersTo n polls).any id = true := by
    intro n path
    rw [outcome]
    split
    · next hAny => exact iff_of_true rfl hAny
    · next hNone => exact iff_of_false (value_analyzeFile_never_ne hEngine tree path) hNone
  have hOutcome : ∀ n path, files[n]? = some path →
      outcome engine tree (answersTo n polls) path = .error .cancelled ∨
      outcome engine tree (answersTo n polls) path =
        (analyzeFile engine tree path fun _ => false).value := by
    intro n path _
    rw [outcome]
    split
    · exact .inl rfl
    · exact .inr rfl
  rw [hSchedule.results_eq hEngine]
  rcases value_collect_mapIdx hOutcome with ⟨⟨n, path, hPath, hOne⟩, hValue⟩ | ⟨hNone, hValue⟩
  · rw [hValue, if_pos (hSchedule.any_iff.2 ⟨n, path, hPath, (hCancelled n path).1 hOne⟩)]
  · rw [hValue, if_neg]
    intro hAny
    obtain ⟨n, path, hPath, hYes⟩ := hSchedule.any_iff.1 hAny
    exact hNone n path hPath ((hCancelled n path).2 hYes)

theorem any_range_getD {answers : List Bool} {count : Nat} (hCount : answers.length ≤ count) :
    ((List.range count).any fun i => answers.getD i false) = answers.any id := by
  rw [Bool.eq_iff_iff, List.any_eq_true, List.any_eq_true]
  constructor
  · rintro ⟨i, -, hYes⟩
    have hGet : answers[i]? = some true := by
      rw [List.getD_eq_getElem?_getD] at hYes
      cases hAnswer : answers[i]? with
      | none =>
        rw [hAnswer] at hYes
        cases hYes
      | some answer =>
        rw [hAnswer, Option.getD_some] at hYes
        rw [hYes]
    exact ⟨true, List.mem_of_getElem? hGet, rfl⟩
  · rintro ⟨answer, hAnswer, hYes⟩
    obtain ⟨i, hi, rfl⟩ := List.mem_iff_getElem.1 hAnswer
    refine ⟨i, List.mem_range.2 (Nat.lt_of_lt_of_le hi hCount), ?_⟩
    rw [List.getD_eq_getElem?_getD, List.getElem?_eq_getElem hi]
    exact hYes

/-- The host that gives the same answers when the files are analysed one after the other. -/
def hostOf (polls : List (Nat × Bool)) (n i : Nat) : Bool := (answersTo n polls).getD i false

theorem Schedule.value_analyzeFiles (hEngine : engine.NeverStops) {files : List Path}
    {polls : List (Nat × Bool)} {results : List (Path × Except Error (List Finding))}
    (hSchedule : Schedule engine tree (waitingTasks files) polls (finishedTasks results)) :
    (analyzeFiles engine tree (hostOf polls) files).value = (collect results).value := by
  have hResults : (files.mapIdx fun n path =>
      (path, (analyzeOne engine tree path (hostOf polls n)).value)) = results := by
    rw [hSchedule.results_eq hEngine]
    apply List.ext_getElem?
    intro n
    rw [List.getElem?_mapIdx, List.getElem?_mapIdx]
    cases hPath : files[n]? with
    | none => rfl
    | some path =>
      obtain ⟨_, _, hRun⟩ := hSchedule.exists_run hPath
      have hAny : (List.range (questions tree path)).any (hostOf polls n) =
          (answersTo n polls).any id := any_range_getD (Task.length_le_left hRun)
      rw [Option.map_some, Option.map_some, value_analyzeOne hEngine, outcome, hAny]
  rw [Project.value_analyzeFiles, hResults]

def questionsLeft (tree : FileTree) (tasks : List (Path × Task)) : Nat :=
  (tasks.map fun t => t.2.left tree t.1).sum

theorem questionsLeft_set {tasks : List (Path × Task)} {n : Nat} {path : Path} {task next : Task}
    (hTask : tasks[n]? = some (path, task)) (hLess : next.left tree path < task.left tree path) :
    questionsLeft tree (tasks.set n (path, next)) < questionsLeft tree tasks := by
  induction tasks generalizing n with
  | nil => cases hTask
  | cons head rest ih =>
    cases n with
    | zero =>
      cases hTask
      simpa [questionsLeft] using hLess
    | succ n =>
      have hRest := ih hTask
      simpa [questionsLeft] using hRest

theorem Schedule.length_add_le {tasks last : List (Path × Task)} {polls : List (Nat × Bool)}
    (hSchedule : Schedule engine tree tasks polls last) :
    polls.length + questionsLeft tree last ≤ questionsLeft tree tasks := by
  induction hSchedule with
  | rest tasks => simp
  | turn hTurn hRest ih =>
    cases hTurn with
    | intro hTask hAnswer =>
      have hLess := questionsLeft_set hTask (Task.left_answer_lt hAnswer)
      rw [List.length_cons]
      omega

theorem ended_or_exists_turn (tasks : List (Path × Task)) :
    (∃ results, tasks = finishedTasks results) ∨
      ∀ stop, ∃ n next, Turn engine tree tasks (n, stop) next := by
  by_cases hOpen : ∃ t ∈ tasks, ∀ result, t.2 ≠ .finished result
  · obtain ⟨⟨path, task⟩, hMem, hTask⟩ := hOpen
    obtain ⟨n, hn⟩ := List.mem_iff_getElem?.1 hMem
    refine .inr fun stop => ?_
    obtain ⟨next, hAnswer⟩ := Task.exists_answer hTask stop
    exact ⟨n, _, .intro hn hAnswer⟩
  · refine .inl ?_
    induction tasks with
    | nil => exact ⟨[], rfl⟩
    | cons t rest ih =>
      have hRest : ¬∃ t ∈ rest, ∀ result, t.2 ≠ Task.finished result := by
        rintro ⟨u, hu, hTask⟩
        exact hOpen ⟨u, List.mem_cons_of_mem _ hu, hTask⟩
      obtain ⟨results, rfl⟩ := ih hRest
      obtain ⟨path, task⟩ := t
      cases task with
      | finished result => exact ⟨(path, result) :: results, rfl⟩
      | _ => exact absurd ⟨_, List.mem_cons_self, nofun⟩ hOpen

end

theorem questionsLeft_waitingTasks (tree : FileTree) (files : List Path) :
    questionsLeft tree (waitingTasks files) = (files.map (questions tree)).sum := by
  simp [questionsLeft, waitingTasks, Function.comp_def, Task.left]

/-- Whatever the order in which the files are worked on, the analysis finds what they have on their
own, in their order, or is stopped and finds nothing. -/
theorem analyze_all_or_nothing {engine : Engine} (hEngine : engine.NeverStops) (tree : FileTree)
    (files : List Path) :
    (∀ halt,
      Stopped tree files halt ∧
        (analyzeFiles engine tree halt files).value = .error .cancelled ∨
      ¬Stopped tree files halt ∧
        (analyzeFiles engine tree halt files).value = .ok (complete engine tree files)) ∧
    (∀ polls results,
      Schedule engine tree (waitingTasks files) polls (finishedTasks results) →
        (collect results).value =
          (if polls.any Prod.snd then .error .cancelled else .ok (complete engine tree files)) ∧
        (analyzeFiles engine tree (hostOf polls) files).value = (collect results).value) ∧
    (∀ polls tasks, Schedule engine tree (waitingTasks files) polls tasks →
      polls.length ≤ (files.map (questions tree)).sum ∧
      ((∃ results, tasks = finishedTasks results) ∨
        ∀ stop, ∃ n next, Turn engine tree tasks (n, stop) next)) ∧
    (∀ path, loads tree path = true →
      (analyzeFile engine tree path fun _ => false).value = .ok (alone engine tree path)) ∧
    ∀ root halt, files = (Discovery.discover tree root .secure).value →
      files.Pairwise (fun a b => a.le b = true) ∧
      (analyze engine tree root halt).value = (analyzeFiles engine tree halt files).value := by
  refine ⟨fun halt => value_analyzeFiles_cases hEngine tree halt files, ?_, ?_, ?_, ?_⟩
  · intro polls results hSchedule
    exact ⟨hSchedule.value_collect hEngine, hSchedule.value_analyzeFiles hEngine⟩
  · intro polls tasks hSchedule
    have hLength := hSchedule.length_add_le
    rw [questionsLeft_waitingTasks] at hLength
    exact ⟨by omega, ended_or_exists_turn tasks⟩
  · exact fun path hLoads => value_analyzeFile_of_loads hEngine hLoads
  · rintro root halt rfl
    exact ⟨Discovery.pairwise_discover tree root .secure, rfl⟩

def ordersTree : FileTree where
  root := .directory [
    ("Orders.semantic.json", .file (
      "[\"Orders.cs\",\x7b\x7d,[\x7b\"id\":1,\"kind\":\"field_declaration\",\"name\":\"a\","
        ++ "\"symbol\":[\"field\",\"a\",[\"array\",[\"dynamic\"]]]\x7d]]").toUTF8),
    ("Others.semantic.json", .file "".toUTF8)]

theorem analyze_all_or_nothing_ordersTree :
    ∃ engine findings, (Engine.ofConfig {}).value = .ok engine ∧ engine.NeverStops ∧
      loads ordersTree ⟨"Orders.semantic.json"⟩ = true ∧
      alone engine ordersTree ⟨"Orders.semantic.json"⟩ = findings ∧
      findings.map Finding.rule = [⟨2⟩] ∧
      (analyzeFiles engine ordersTree (fun _ _ => false)
          [⟨"Orders.semantic.json"⟩, ⟨"Others.semantic.json"⟩]).value = .ok findings ∧
      (analyzeFiles engine ordersTree (hostOf [(1, true), (0, true)])
          [⟨"Orders.semantic.json"⟩, ⟨"Others.semantic.json"⟩]).value = .error .cancelled := by
  obtain ⟨engine, hBuilt, hFound⟩ : ∃ engine, (Engine.ofConfig {}).value = .ok engine ∧
      (alone engine ordersTree ⟨"Orders.semantic.json"⟩).map Finding.rule = [⟨2⟩] :=
    ⟨_, rfl, by decide +kernel⟩
  have hConfigured : engine.Configured {} Catalogue.rules := .of_ofRules hBuilt
  have hLoads : loads ordersTree ⟨"Orders.semantic.json"⟩ = true := by decide +kernel
  have hOther : loads ordersTree ⟨"Others.semantic.json"⟩ = false := by decide +kernel
  obtain ⟨hHalt, hSchedules, -⟩ := analyze_all_or_nothing hConfigured.neverStops ordersTree
    [⟨"Orders.semantic.json"⟩, ⟨"Others.semantic.json"⟩]
  refine ⟨engine, _, hBuilt, hConfigured.neverStops, hLoads, rfl, hFound, ?_, ?_⟩
  · rcases hHalt fun _ _ => false with ⟨⟨_, _, _, _, _, hYes⟩, _⟩ | ⟨-, hValue⟩
    · cases hYes
    · rw [hValue]
      simp [complete, hLoads, hOther]
  · have hSchedule : Schedule engine ordersTree
        (waitingTasks [⟨"Orders.semantic.json"⟩, ⟨"Others.semantic.json"⟩])
        [(1, true), (0, true)]
        (finishedTasks [(⟨"Orders.semantic.json"⟩, .error .cancelled),
          (⟨"Others.semantic.json"⟩, .error .cancelled)]) :=
      .turn (.intro rfl rfl) (.turn (.intro rfl rfl) (.rest _))
    obtain ⟨hCollected, hSame⟩ := hSchedules _ _ hSchedule
    rw [hSame, hCollected]
    rfl

end CostlyCalls.Project
