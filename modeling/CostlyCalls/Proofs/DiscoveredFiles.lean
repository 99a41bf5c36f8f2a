import CostlyCalls.Keyed
import CostlyCalls.Proofs.Paths

/-!
# Which files are discovered

A walk lists the regular files below its start that can be reached without a directory that is left
out, each by the names on the way to it. Discovery keeps those that are snapshots and pass the
options, in the strict order of their paths, and reports the others that it meets. A walk does not
meet what it cannot open by its path, because the path is too long.
-/

set_option autoImplicit false

namespace CostlyCalls

namespace Entry

/-- Directories as a file system keeps them: entries have names, and no two of one directory have
the same. -/
inductive IsTree : Entry → Prop
  | file (content : ByteArray) : IsTree (.file content)
  | link (target : Path) : IsTree (.link target)
  | directory {children : List (String × Entry)} (hDistinct : (children.map Prod.fst).Nodup)
      (hNames : ∀ child ∈ children, Path.IsName child.1)
      (hChildren : ∀ child ∈ children, IsTree child.2) : IsTree (.directory children)

theorem IsTree.child? {entry child : Entry} {name : String} (hTree : entry.IsTree)
    (hChild : entry.child? name = some child) : Path.IsName name ∧ child.IsTree := by
  cases hTree with
  | file content => cases hChild
  | link target => cases hChild
  | directory hDistinct hNames hChildren =>
    have hMem := (Keyed.lookup_eq_some_iff hDistinct).1 hChild
    exact ⟨hNames _ hMem, hChildren _ hMem⟩

theorem IsTree.at? {entry found : Entry} {names : List String} (hTree : entry.IsTree)
    (hFound : entry.at? names = some found) : (∀ name ∈ names, Path.IsName name) ∧ found.IsTree := by
  induction names generalizing entry with
  | nil =>
    cases hFound
    exact ⟨by simp, hTree⟩
  | cons name names ih =>
    obtain ⟨child, hChild, hFound⟩ := Option.bind_eq_some_iff.1 hFound
    obtain ⟨hName, hChildTree⟩ := hTree.child? hChild
    obtain ⟨hNames, hFoundTree⟩ := ih hChildTree hFound
    exact ⟨List.forall_mem_cons.2 ⟨hName, hNames⟩, hFoundTree⟩

theorem isDirectory_of_child? {entry child : Entry} {name : String}
    (hChild : entry.child? name = some child) : entry.isDirectory = true := by
  cases entry with
  | directory children => rfl
  | _ => cases hChild

end Entry

namespace FileTree

theorem at?_of_advance {root entry : Entry} {aim : Aim} {location found : List String}
    {segments : List Path.Segment}
    (hAdvance : advance root aim location segments = .present found entry) :
    root.at? found = some entry := by
  fun_induction advance root aim location segments <;> simp_all

theorem at?_of_travel {root entry : Entry} {aim : Aim} {links : Nat} {location found : List String}
    {segments : List Path.Segment}
    (hTravel : travel root aim links location segments = .ok (.present found entry)) :
    root.at? found = some entry := by
  induction links generalizing location segments with
  | zero =>
    unfold travel at hTravel
    split at hTravel
    · next hAdvance =>
      cases hTravel
      exact at?_of_advance hAdvance
    all_goals cases hTravel
  | succ links ih =>
    unfold travel at hTravel
    split at hTravel
    · next hAdvance =>
      cases hTravel
      exact at?_of_advance hAdvance
    · cases hTravel
    · cases hTravel
    · exact ih hTravel

theorem exists_at?_of_get {tree : FileTree} {aim : Aim} {path : Path} {entry : Entry}
    (hGet : tree.get aim path = .ok entry) :
    path.isTooLong = false ∧ ∃ location, tree.root.at? location = some entry := by
  unfold get at hGet
  split at hGet
  · next location found hLocate =>
    cases hGet
    unfold locate at hLocate
    split at hLocate
    · cases hLocate
    · next hFault =>
      refine ⟨?_, location, at?_of_travel hLocate⟩
      rw [Bool.eq_false_iff]
      intro hLong
      unfold pathFault? at hFault
      split at hFault <;> cases hFault
  · cases hGet
  · cases hGet

end FileTree

namespace Path

theorem isSnapshot_iff {path : Path} :
    path.isSnapshot = true ↔
      ∃ stem, stem ≠ "" ∧ path.fileName? = some (stem ++ ".semantic.json") := by
  unfold isSnapshot
  split
  · next hName => simp [hName]
  · next name hName =>
    rw [hName, Bool.and_eq_true, List.isSuffixOf_iff_suffix, decide_eq_true_iff]
    constructor
    · rintro ⟨⟨front, hFront⟩, hLength⟩
      refine ⟨String.ofList front, ?_, ?_⟩
      · rintro hEmpty
        have hNil : front = [] := by simpa using congrArg String.toList hEmpty
        rw [hNil, List.nil_append, String.toList_inj] at hFront
        rw [hFront] at hLength
        omega
      · rw [Option.some_inj, ← String.toList_inj, ← hFront]
        simp [snapshotSuffix]
    · rintro ⟨stem, hStem, hEq⟩
      cases hEq
      refine ⟨⟨stem.toList, by simp [snapshotSuffix]⟩, ?_⟩
      have hPos : 0 < stem.length := by
        apply Nat.pos_of_ne_zero
        intro hZero
        exact hStem (String.length_eq_zero_iff.1 hZero)
      rw [String.length_append]
      show 14 < stem.length + 14
      omega

end Path

namespace Discovery

theorem candidatesIn_eq_flatMap (path : Path) (children : List (String × Entry)) :
    candidatesIn path children = children.flatMap fun child =>
      if child.2.isDirectory && isSkipped child.1 then []
      else candidates (path.join child.1) child.2 := by
  induction children with
  | nil => rw [candidatesIn, List.flatMap_nil]
  | cons child rest ih => rw [candidatesIn, List.flatMap_cons, ih]

structure Leads (path : Path) (entry : Entry) (names : List String) (content : ByteArray) : Prop where
  isFile : entry.at? names = some (.file content)
  isSnapshot : (path.below names).isSnapshot = true
  notSkipped : ∀ name ∈ names.dropLast, isSkipped name = false
  short : names ≠ [] → (path.below names.dropLast).isTooLong = false

theorem leads_cons_iff {path : Path} {entry child : Entry} {name : String} {names : List String}
    {content : ByteArray} (hChild : entry.child? name = some child) :
    Leads path entry (name :: names) content ↔
      path.isTooLong = false ∧ (child.isDirectory && isSkipped name) = false ∧
        Leads (path.join name) child names content := by
  have hAt : entry.at? (name :: names) = child.at? names := by
    rw [Entry.at?, hChild, Option.bind_some]
  cases names with
  | nil =>
    constructor
    · rintro ⟨hFile, hSnapshot, -, hShort⟩
      rw [hAt] at hFile
      have hPlain : child.isDirectory = false := by
        cases hFile
        rfl
      exact ⟨hShort (by simp), by simp [hPlain], hFile, hSnapshot, by simp, by simp⟩
    · rintro ⟨hShort, -, hFile, hSnapshot, -, -⟩
      exact ⟨hAt.trans hFile, hSnapshot, by simp, fun _ => hShort⟩
  | cons next names =>
    constructor
    · rintro ⟨hFile, hSnapshot, hSkipped, hShort⟩
      rw [List.dropLast_cons_of_ne_nil (List.cons_ne_nil next names)] at hSkipped hShort
      rw [List.forall_mem_cons] at hSkipped
      have hBelow := hShort (by simp)
      rw [Path.isTooLong_eq_false_iff] at hBelow
      refine ⟨?_, by simp [hSkipped.1], hAt ▸ hFile, hSnapshot, hSkipped.2,
        fun _ => Path.isTooLong_eq_false_iff.2 hBelow⟩
      rw [Path.isTooLong_eq_false_iff]
      exact Nat.le_trans (Path.size_le_below path _) hBelow
    · rintro ⟨-, hEntered, hFile, hSnapshot, hSkipped, hShort⟩
      have hDirectory : child.isDirectory = true := by
        obtain ⟨grandchild, hGrandchild, -⟩ := Option.bind_eq_some_iff.1 hFile
        exact Entry.isDirectory_of_child? hGrandchild
      refine ⟨hAt.trans hFile, hSnapshot, ?_, fun _ => ?_⟩
      · rw [List.dropLast_cons_of_ne_nil (List.cons_ne_nil next names), List.forall_mem_cons]
        exact ⟨by simpa [hDirectory] using hEntered, hSkipped⟩
      · rw [List.dropLast_cons_of_ne_nil (List.cons_ne_nil next names)]
        exact hShort (by simp)

theorem mem_candidates_iff {entry : Entry} (hTree : entry.IsTree) {path : Path}
    {file : Path × Entry} :
    file ∈ candidates path entry ↔ ∃ names content,
      Leads path entry names content ∧ file = (path.below names, .file content) := by
  induction hTree generalizing path with
  | file content =>
    rw [candidates]
    constructor
    · intro hFile
      split at hFile
      · next hSnapshot =>
        rw [List.mem_singleton.1 hFile]
        exact ⟨[], content, ⟨rfl, hSnapshot, by simp, by simp⟩, rfl⟩
      · cases hFile
    · rintro ⟨names, other, hLeads, rfl⟩
      cases names with
      | nil =>
        cases hLeads.isFile
        have hSnapshot : path.isSnapshot = true := hLeads.isSnapshot
        rw [if_pos hSnapshot]
        exact List.mem_singleton_self _
      | cons name names => cases hLeads.isFile
  | link target =>
    rw [candidates]
    constructor
    · intro hFile
      cases hFile
    · rintro ⟨names, content, hLeads, -⟩
      cases names <;> cases hLeads.isFile
  | @directory children hDistinct hNames hChildren ih =>
    have hLookup : ∀ child ∈ children, (Entry.directory children).child? child.1 = some child.2 :=
      fun child hChild => (Keyed.lookup_eq_some_iff hDistinct).2 hChild
    rw [candidates]
    constructor
    · intro hFile
      split at hFile
      · cases hFile
      · next hShort =>
        rw [candidatesIn_eq_flatMap, List.mem_flatMap] at hFile
        obtain ⟨child, hChild, hFile⟩ := hFile
        split at hFile
        · cases hFile
        · next hEntered =>
          obtain ⟨names, content, hLeads, rfl⟩ := (ih child hChild).1 hFile
          refine ⟨child.1 :: names, content, ?_, rfl⟩
          rw [leads_cons_iff (hLookup child hChild)]
          exact ⟨Bool.eq_false_iff.2 hShort, Bool.eq_false_iff.2 hEntered, hLeads⟩
    · rintro ⟨names, content, hLeads, rfl⟩
      cases names with
      | nil => cases hLeads.isFile
      | cons name names =>
        obtain ⟨child, hChild, -⟩ := Option.bind_eq_some_iff.1 hLeads.isFile
        obtain ⟨hShort, hEntered, hBelow⟩ := (leads_cons_iff hChild).1 hLeads
        rw [if_neg (Bool.eq_false_iff.1 hShort), candidatesIn_eq_flatMap, List.mem_flatMap]
        have hMem := (Keyed.lookup_eq_some_iff hDistinct).1 hChild
        refine ⟨(name, child), hMem, ?_⟩
        rw [if_neg (Bool.eq_false_iff.1 hEntered)]
        exact (ih _ hMem).2 ⟨names, content, hBelow, rfl⟩

/-- Different names lead to different components, so no path is listed twice. -/
theorem pairwise_candidates {entry : Entry} (hTree : entry.IsTree) (path : Path) :
    (candidates path entry).Pairwise fun a b => a.1.components ≠ b.1.components := by
  induction hTree generalizing path with
  | file content =>
    rw [candidates]
    split <;> simp
  | link target => exact .nil
  | @directory children hDistinct hNames hChildren ih =>
    rw [candidates]
    split
    · exact .nil
    · rw [candidatesIn_eq_flatMap, List.pairwise_flatMap]
      constructor
      · intro child hChild
        split
        · exact .nil
        · exact ih child hChild (path.join child.1)
      · have hNext : ∀ child ∈ children, ∀ file ∈ (if child.2.isDirectory && isSkipped child.1 then []
            else candidates (path.join child.1) child.2),
            ∃ more, file.1.components = path.components ++ .name child.1 :: more := by
          intro child hChild file hFile
          split at hFile
          · cases hFile
          · obtain ⟨names, content, hLeads, rfl⟩ :=
              (mem_candidates_iff (hChildren child hChild)).1 hFile
            have hBelow := ((hChildren child hChild).at? hLeads.isFile).1
            refine ⟨names.map .name, ?_⟩
            rw [Path.components_below hBelow, Path.components_join (hNames child hChild),
              List.append_assoc, List.singleton_append]
        have hApart : children.Pairwise fun a b => a.1 ≠ b.1 := List.pairwise_map.1 hDistinct
        refine hApart.imp_of_mem fun {a b} ha hb hNe x hx y hy hEq => ?_
        obtain ⟨moreX, hMoreX⟩ := hNext a ha x hx
        obtain ⟨moreY, hMoreY⟩ := hNext b hb y hy
        rw [hMoreX, hMoreY, List.append_cancel_left_eq, List.cons.injEq,
          Path.Component.name.injEq] at hEq
        exact hNe hEq.1

/-- Where a walk starts: at what the path itself names, or at the directory that a link there leads
to. -/
inductive StartsAt (tree : FileTree) (root : Path) : Entry → Prop
  | entry {start : Entry} (hGet : tree.get .entry root = .ok start)
      (hLink : ∀ target, start ≠ .link target) : StartsAt tree root start
  | target {link : Path} {children : List (String × Entry)}
      (hLink : tree.get .entry root = .ok (.link link))
      (hTarget : tree.get .target root = .ok (.directory children)) :
      StartsAt tree root (.directory children)

theorem candidatesFrom_of_startsAt {tree : FileTree} {root : Path} {start : Entry}
    (hStart : StartsAt tree root start) : candidatesFrom tree root = candidates root start := by
  unfold candidatesFrom
  cases hStart with
  | entry hGet hLink =>
    rw [hGet]
    cases start with
    | link target => exact absurd rfl (hLink target)
    | _ => rfl
  | target hLink hTarget =>
    have hShort := (FileTree.exists_at?_of_get hTarget).1
    rw [hLink, candidates, if_neg (Bool.eq_false_iff.1 hShort)]
    simp only [hTarget]

theorem exists_startsAt_of_mem {tree : FileTree} {root : Path} {file : Path × Entry}
    (hFile : file ∈ candidatesFrom tree root) : ∃ start, StartsAt tree root start := by
  unfold candidatesFrom at hFile
  split at hFile
  · next hLink =>
    split at hFile
    · next hTarget => exact ⟨_, .target hLink hTarget⟩
    · cases hFile
  · next start hLink hGet => exact ⟨start, .entry hGet hLink⟩
  · cases hFile

theorem StartsAt.isTree {tree : FileTree} {root : Path} {start : Entry}
    (hStart : StartsAt tree root start) (hTree : tree.root.IsTree) : start.IsTree := by
  cases hStart with
  | entry hGet _ =>
    obtain ⟨-, location, hAt⟩ := FileTree.exists_at?_of_get hGet
    exact (hTree.at? hAt).2
  | target _ hTarget =>
    obtain ⟨-, location, hAt⟩ := FileTree.exists_at?_of_get hTarget
    exact (hTree.at? hAt).2

theorem mem_candidatesFrom_iff {tree : FileTree} (hTree : tree.root.IsTree) {root : Path}
    {file : Path × Entry} :
    file ∈ candidatesFrom tree root ↔ ∃ start names content, StartsAt tree root start ∧
      Leads root start names content ∧ file = (root.below names, .file content) := by
  constructor
  · intro hFile
    obtain ⟨start, hStart⟩ := exists_startsAt_of_mem hFile
    rw [candidatesFrom_of_startsAt hStart] at hFile
    obtain ⟨names, content, hLeads, hEq⟩ := (mem_candidates_iff (hStart.isTree hTree)).1 hFile
    exact ⟨start, names, content, hStart, hLeads, hEq⟩
  · rintro ⟨start, names, content, hStart, hLeads, hEq⟩
    rw [candidatesFrom_of_startsAt hStart]
    exact (mem_candidates_iff (hStart.isTree hTree)).2 ⟨names, content, hLeads, hEq⟩

theorem pairwise_candidatesFrom {tree : FileTree} (hTree : tree.root.IsTree) (root : Path) :
    (candidatesFrom tree root).Pairwise fun a b => a.1.components ≠ b.1.components := by
  cases hFiles : candidatesFrom tree root with
  | nil => exact .nil
  | cons file files =>
    obtain ⟨start, hStart⟩ := exists_startsAt_of_mem (hFiles ▸ List.mem_cons_self)
    rw [← hFiles, candidatesFrom_of_startsAt hStart]
    exact pairwise_candidates (hStart.isTree hTree) root

theorem areOpen_eq_true_iff {options : Options} :
    options.areOpen = true ↔ ¬(options.regularOnly = true ∨ options.maxSize.isSome = true) := by
  simp [Options.areOpen]

theorem value_vet_iff {options : Options} {path kept : Path} {content : ByteArray} :
    (vet options (path, .file content)).value = some kept ↔
      path = kept ∧ (options.areOpen = true ∨ path.isTooLong = false) ∧
        ∀ limit, options.maxSize = some limit → content.size ≤ limit := by
  unfold vet
  split
  · next hOpen =>
    have hNone : options.maxSize = none := by
      simpa using (Bool.and_eq_true_iff.1 hOpen).2
    simp [hOpen, hNone]
  · next hOpen =>
    split
    · next hLong => simp [hOpen, hLong]
    · next hShort =>
      have hFile : (Entry.file content).isFile = true := rfl
      rw [hFile, Bool.not_true, Bool.and_false, if_neg Bool.false_ne_true]
      cases hLimit : options.maxSize with
      | none => simp [hShort]
      | some limit =>
        have hSize : (Entry.file content).size = content.size := rfl
        simp only [hSize, Option.some.injEq, forall_eq']
        split
        · next hLarge => simp [hLarge]
        · next hFits => simp [hShort, Nat.not_lt.1 hFits]

theorem mem_discover_iff {tree : FileTree} {root path : Path} {options : Options} :
    path ∈ (discover tree root options).value ↔
      ∃ file ∈ candidatesFrom tree root, (vet options file).value = some path := by
  rw [discover, List.filterMap_map, (List.mergeSort_perm _ _).mem_iff, List.mem_filterMap]
  rfl

theorem isSkipped_eq_false_iff {name : String} :
    isSkipped name = false ↔ name.toList.head? ≠ some '.' ∧ name ∉ skippedNames := by
  simp [isSkipped]

/-- What discovery looks for: below its start and through these names, a regular file that is named
as a snapshot, without a directory on the way that is left out. -/
structure Sought (tree : FileTree) (root : Path) (names : List String) (content : ByteArray) :
    Prop where
  isFile : ∃ start, StartsAt tree root start ∧ start.at? names = some (.file content)
  isSnapshot :
    ∃ stem, stem ≠ "" ∧ (root.below names).fileName? = some (stem ++ ".semantic.json")
  notSkipped : ∀ name ∈ names.dropLast, name.toList.head? ≠ some '.' ∧ name ∉ skippedNames

structure Eligible (tree : FileTree) (root : Path) (options : Options) (names : List String)
    (content : ByteArray) : Prop extends Sought tree root names content where
  fits : ∀ limit, options.maxSize = some limit → content.size ≤ limit

/-- The directory of the file can be opened, and if the options ask about the file, it can be looked
up. -/
structure Accessible (root : Path) (options : Options) (names : List String) : Prop where
  directory : names ≠ [] → (root.below names.dropLast).text.utf8ByteSize ≤ Path.byteLimit
  file : options.regularOnly = true ∨ options.maxSize.isSome = true →
    (root.below names).text.utf8ByteSize ≤ Path.byteLimit

/-- The report on a file that is met and not listed: it cannot be looked up, or it is too large. -/
inductive Dropped (options : Options) (path : Path) (content : ByteArray) : Event → Prop
  | unreachable (hAsked : options.regularOnly = true ∨ options.maxSize.isSome = true)
      (hLong : Path.byteLimit < path.text.utf8ByteSize) :
      Dropped options path content (.unreachable path .nameTooLong)
  | oversized {limit : Nat} (hLimit : options.maxSize = some limit)
      (hShort : path.text.utf8ByteSize ≤ Path.byteLimit) (hLarge : limit < content.size) :
      Dropped options path content (.oversized path content.size limit)

theorem Dropped.eq_or {options : Options} {path : Path} {content : ByteArray} {event : Event}
    (hDropped : Dropped options path content event) :
    event = .unreachable path .nameTooLong ∨ ∃ size limit, event = .oversized path size limit := by
  cases hDropped with
  | unreachable _ _ => exact .inl rfl
  | oversized _ _ _ => exact .inr ⟨_, _, rfl⟩

theorem Dropped.path_eq {options : Options} {path other : Path} {content content' : ByteArray}
    {event : Event} (hPath : Dropped options path content event)
    (hOther : Dropped options other content' event) : path = other := by
  rcases hPath.eq_or with rfl | ⟨size, limit, rfl⟩
  · rcases hOther.eq_or with hSame | ⟨_, _, ⟨⟩⟩
    cases hSame
    rfl
  · rcases hOther.eq_or with ⟨⟨⟩⟩ | ⟨_, _, hSame⟩
    cases hSame
    rfl

theorem mem_log_vet_iff {options : Options} {path : Path} {content : ByteArray} {event : Event} :
    event ∈ (vet options (path, .file content)).log ↔ Dropped options path content event := by
  have hSize : (Entry.file content).size = content.size := rfl
  constructor
  · intro hEvent
    unfold vet at hEvent
    split at hEvent
    · cases hEvent
    · next hOpen =>
      rw [areOpen_eq_true_iff, Decidable.not_not] at hOpen
      split at hEvent
      · next hLong =>
        rw [List.mem_singleton.1 hEvent]
        exact .unreachable hOpen (of_decide_eq_true hLong)
      · next hShort =>
        split at hEvent
        · cases hEvent
        · split at hEvent
          · cases hEvent
          · next limit hLimit =>
            split at hEvent
            · next hLarge =>
              rw [List.mem_singleton.1 hEvent]
              exact .oversized hLimit (Path.isTooLong_eq_false_iff.1 (Bool.eq_false_iff.2 hShort))
                hLarge
            · cases hEvent
  · intro hDropped
    have hClosed : options.areOpen = true → False := by
      rw [areOpen_eq_true_iff, imp_false, Decidable.not_not]
      cases hDropped with
      | unreachable hAsked hLong => exact hAsked
      | oversized hLimit hShort hLarge => exact .inr (hLimit ▸ rfl)
    rw [vet, if_neg hClosed]
    cases hDropped with
    | unreachable hAsked hLong =>
      have hTooLong : path.isTooLong = true := decide_eq_true hLong
      rw [if_pos hTooLong]
      exact List.mem_singleton_self _
    | oversized hLimit hShort hLarge =>
      have hFile : (Entry.file content).isFile = true := rfl
      rw [if_neg (Bool.eq_false_iff.1 (Path.isTooLong_eq_false_iff.2 hShort)), hFile, Bool.not_true,
        Bool.and_false, if_neg Bool.false_ne_true, hLimit]
      dsimp only
      rw [hSize, if_pos hLarge]
      exact List.mem_singleton_self _

theorem nodup_log_vet (options : Options) (file : Path × Entry) :
    (vet options file).log.Nodup := by
  unfold vet
  repeat' split
  all_goals simp

theorem mem_candidatesFrom_iff_sought {tree : FileTree} (hTree : tree.root.IsTree) {root : Path}
    {file : Path × Entry} :
    file ∈ candidatesFrom tree root ↔ ∃ names content, Sought tree root names content ∧
      (names ≠ [] → (root.below names.dropLast).text.utf8ByteSize ≤ Path.byteLimit) ∧
        file = (root.below names, .file content) := by
  rw [mem_candidatesFrom_iff hTree]
  constructor
  · rintro ⟨start, names, content, hStart, hLeads, hFile⟩
    refine ⟨names, content, ⟨⟨start, hStart, hLeads.isFile⟩,
      Path.isSnapshot_iff.1 hLeads.isSnapshot, ?_⟩, ?_, hFile⟩
    · exact fun name hName => isSkipped_eq_false_iff.1 (hLeads.notSkipped name hName)
    · exact fun hNames => Path.isTooLong_eq_false_iff.1 (hLeads.short hNames)
  · rintro ⟨names, content, ⟨⟨start, hStart, hAt⟩, hSnapshot, hSkipped⟩, hShort, hFile⟩
    refine ⟨start, names, content, hStart, ⟨hAt, Path.isSnapshot_iff.2 hSnapshot, ?_, ?_⟩, hFile⟩
    · exact fun name hName => isSkipped_eq_false_iff.2 (hSkipped name hName)
    · exact fun hNames => Path.isTooLong_eq_false_iff.2 (hShort hNames)

theorem mem_discover_iff_eligible {tree : FileTree} (hTree : tree.root.IsTree) {root path : Path}
    {options : Options} :
    path ∈ (discover tree root options).value ↔ ∃ names content,
      Eligible tree root options names content ∧ Accessible root options names ∧
        path = root.below names := by
  have hAsked : options.areOpen = true ∨ path.isTooLong = false ↔
      (options.regularOnly = true ∨ options.maxSize.isSome = true →
        path.text.utf8ByteSize ≤ Path.byteLimit) := by
    rw [areOpen_eq_true_iff, Path.isTooLong_eq_false_iff, Decidable.or_iff_not_imp_left,
      Decidable.not_not]
  rw [mem_discover_iff]
  constructor
  · rintro ⟨file, hFile, hVet⟩
    obtain ⟨names, content, hSought, hShort, rfl⟩ := (mem_candidatesFrom_iff_sought hTree).1 hFile
    obtain ⟨rfl, hLookup, hFits⟩ := value_vet_iff.1 hVet
    exact ⟨names, content, ⟨hSought, hFits⟩, ⟨hShort, hAsked.1 hLookup⟩, rfl⟩
  · rintro ⟨names, content, ⟨hSought, hFits⟩, ⟨hShort, hLookup⟩, rfl⟩
    exact ⟨(root.below names, .file content),
      (mem_candidatesFrom_iff_sought hTree).2 ⟨names, content, hSought, hShort, rfl⟩,
      value_vet_iff.2 ⟨rfl, hAsked.2 hLookup, hFits⟩⟩

theorem pairwise_discover_strict {tree : FileTree} (hTree : tree.root.IsTree) (root : Path)
    (options : Options) :
    (discover tree root options).value.Pairwise fun a b => a.le b = true ∧ b.le a = false := by
  have hApart : (discover tree root options).value.Pairwise
      fun a b => a.components ≠ b.components := by
    refine List.Pairwise.perm ?_ (List.mergeSort_perm _ Path.le).symm fun hNe => Ne.symm hNe
    rw [List.filterMap_map, List.pairwise_filterMap]
    refine (pairwise_candidatesFrom hTree root).imp fun {a b} hNe path hPath other hOther => ?_
    rw [value_vet_eq hPath, value_vet_eq hOther]
    exact hNe
  refine ((pairwise_discover tree root options).and hApart).imp ?_
  rintro a b ⟨hLe, hNe⟩
  exact ⟨hLe, Bool.eq_false_iff.2 fun hBack => hNe (Path.componentsLe_antisymm hLe hBack)⟩

def warnings (tree : FileTree) (root : Path) (options : Options) : List Event :=
  (candidatesFrom tree root).flatMap fun file => (vet options file).log

theorem log_discover (tree : FileTree) (root : Path) (options : Options) :
    (discover tree root options).log = warnings tree root options ++
      [.discovered (discover tree root options).value.length root] := by
  rw [discover, List.flatMap_map]
  rfl

theorem mem_warnings_iff {tree : FileTree} (hTree : tree.root.IsTree) {root : Path}
    {options : Options} {event : Event} :
    event ∈ warnings tree root options ↔ ∃ names content, Sought tree root names content ∧
      (names ≠ [] → (root.below names.dropLast).text.utf8ByteSize ≤ Path.byteLimit) ∧
        Dropped options (root.below names) content event := by
  rw [warnings, List.mem_flatMap]
  constructor
  · rintro ⟨file, hFile, hEvent⟩
    obtain ⟨names, content, hSought, hShort, rfl⟩ := (mem_candidatesFrom_iff_sought hTree).1 hFile
    exact ⟨names, content, hSought, hShort, mem_log_vet_iff.1 hEvent⟩
  · rintro ⟨names, content, hSought, hShort, hDropped⟩
    exact ⟨_, (mem_candidatesFrom_iff_sought hTree).2 ⟨names, content, hSought, hShort, rfl⟩,
      mem_log_vet_iff.2 hDropped⟩

theorem nodup_warnings {tree : FileTree} (hTree : tree.root.IsTree) (root : Path)
    (options : Options) : (warnings tree root options).Nodup := by
  rw [warnings, List.Nodup, List.pairwise_flatMap]
  constructor
  · intro file _
    exact nodup_log_vet options file
  · refine (pairwise_candidatesFrom hTree root).imp_of_mem ?_
    intro a b ha hb hNe first hFirst second hSecond hSame
    obtain ⟨names, content, -, -, rfl⟩ := (mem_candidatesFrom_iff_sought hTree).1 ha
    obtain ⟨others, other, -, -, rfl⟩ := (mem_candidatesFrom_iff_sought hTree).1 hb
    rw [mem_log_vet_iff] at hFirst hSecond
    rw [hFirst.path_eq (hSame ▸ hSecond)] at hNe
    exact hNe rfl

/-- Discovery lists exactly the eligible files that it can look up, each once and in the strict
order of paths, and reports once every other file that it meets. -/
theorem discover_lists_eligible {tree : FileTree} (hTree : tree.root.IsTree) (root : Path)
    (options : Options) :
    (∀ path, path ∈ (discover tree root options).value ↔ ∃ names content,
      Eligible tree root options names content ∧ Accessible root options names ∧
        path = root.below names) ∧
    (discover tree root options).value.Nodup ∧
    ((discover tree root options).value.Pairwise fun a b => a.le b = true ∧ b.le a = false) ∧
    ∃ warnings, (discover tree root options).log =
        warnings ++ [.discovered (discover tree root options).value.length root] ∧
      warnings.Nodup ∧ (∀ event ∈ warnings, event.level = .warn) ∧
      ∀ event, event ∈ warnings ↔ ∃ names content, Sought tree root names content ∧
        (names ≠ [] → (root.below names.dropLast).text.utf8ByteSize ≤ Path.byteLimit) ∧
          Dropped options (root.below names) content event := by
  have hStrict := pairwise_discover_strict hTree root options
  refine ⟨fun path => mem_discover_iff_eligible hTree, hStrict.imp ?_, hStrict,
    warnings tree root options, log_discover tree root options, nodup_warnings hTree root options,
    fun event hEvent => ?_, fun event => mem_warnings_iff hTree⟩
  · rintro a b ⟨hLe, hBack⟩ rfl
    rw [hLe] at hBack
    cases hBack
  · obtain ⟨names, content, -, -, hDropped⟩ := (mem_warnings_iff hTree).1 hEvent
    rcases hDropped.eq_or with rfl | ⟨size, limit, rfl⟩ <;> rfl

def snapshotFile : Entry := .file "".toUTF8

def shopTree : FileTree where
  root := .directory [
    ("shop.semantic.json", .file "\x7b\x7d".toUTF8),
    ("shop", .directory [("Cart.semantic.json", snapshotFile)]),
    ("bin", .directory [("Cart.semantic.json", snapshotFile)]),
    ("latest.semantic.json", .link ⟨"shop/Cart.semantic.json"⟩)]

theorem isTree_shopTree : shopTree.root.IsTree := by
  have hCart : (Entry.directory [("Cart.semantic.json", snapshotFile)]).IsTree := by
    refine .directory (by decide) (by decide +kernel) ?_
    simp only [List.forall_mem_cons]
    exact ⟨.file _, nofun⟩
  refine .directory (by decide) (by decide +kernel) ?_
  simp only [List.forall_mem_cons]
  exact ⟨.file _, hCart, hCart, .link _, nofun⟩

theorem discover_lists_eligible_shop :
    shopTree.root.IsTree ∧
    ⟨"./shop/Cart.semantic.json"⟩ ∈ (discover shopTree ⟨"."⟩ ⟨some 1, true⟩).value ∧
    ((discover shopTree ⟨"."⟩ ⟨some 1, true⟩).value.Pairwise
      fun a b => a.le b = true ∧ b.le a = false) ∧
    .oversized ⟨"./shop.semantic.json"⟩ 2 1 ∈ (discover shopTree ⟨"."⟩ ⟨some 1, true⟩).log := by
  obtain ⟨hMem, -, hStrict, warnings, hLog, -, -, hWarnings⟩ :=
    discover_lists_eligible isTree_shopTree ⟨"."⟩ ⟨some 1, true⟩
  have hGet : shopTree.get .entry ⟨"."⟩ = .ok shopTree.root := rfl
  refine ⟨isTree_shopTree, (hMem _).2 ⟨["shop", "Cart.semantic.json"], "".toUTF8, ?_, ?_, rfl⟩,
    hStrict, ?_⟩
  · exact ⟨⟨⟨_, .entry hGet nofun, rfl⟩, ⟨"Cart", by decide, by decide +kernel⟩, by decide +kernel⟩,
      fun limit _ => Nat.zero_le limit⟩
  · exact ⟨by decide +kernel, by decide +kernel⟩
  · rw [hLog]
    refine List.mem_append_left _ ((hWarnings _).2 ⟨["shop.semantic.json"], "\x7b\x7d".toUTF8,
      ⟨⟨_, .entry hGet nofun, rfl⟩, ⟨"shop", by decide, by decide +kernel⟩, by simp⟩,
      by decide +kernel, ?_⟩)
    exact Dropped.oversized rfl (by decide +kernel) (by decide +kernel)

def dotSlashes (count : Nat) : Path := ⟨"." ++ String.ofList (List.replicate count '/')⟩

theorem segments_dotSlashes (count : Nat) :
    (dotSlashes count).segments = .here :: List.replicate count .slash := by
  have hSplit : Text.split '/' (List.replicate count '/') = List.replicate (count + 1) [] := by
    induction count with
    | zero => rfl
    | succ count ih => rw [List.replicate_succ, Text.split, if_pos rfl, ih, ← List.replicate_succ]
  have hPieces : Path.pieces (dotSlashes count).text.toList = ['.'] :: List.replicate count [] := by
    simp [dotSlashes, Path.pieces, Text.split, hSplit, List.replicate_succ]
  simp [Path.segments, hPieces, Path.segment]

theorem size_dotSlashes (count : Nat) :
    (dotSlashes count).text.utf8ByteSize = count + 1 := by
  have hSlashes : (String.ofList (List.replicate count '/')).utf8ByteSize = count := by
    induction count with
    | zero => rfl
    | succ count ih =>
      rw [List.replicate_succ', String.ofList_append, String.utf8ByteSize_append, ih]
      rfl
  rw [dotSlashes, String.utf8ByteSize_append, hSlashes, Nat.add_comm]
  rfl

theorem get_dotSlashes (children : List (String × Entry)) {count : Nat} (hCount : count < 4095) :
    FileTree.get ⟨.directory children, []⟩ .entry (dotSlashes count) = .ok (.directory children) := by
  have hSlashes : ∀ count, FileTree.advance (.directory children) .entry []
      (List.replicate count .slash) = .present [] (.directory children) := by
    intro count
    induction count with
    | zero => rfl
    | succ count ih => exact ih
  have hAdvance : FileTree.advance (.directory children) .entry [] (dotSlashes count).segments =
      .present [] (.directory children) := by
    rw [segments_dotSlashes]
    exact hSlashes count
  have hFault : FileTree.pathFault? (dotSlashes count) = none := by
    have hShort : (dotSlashes count).isTooLong = false :=
      Path.isTooLong_eq_false_iff.2 (by rw [size_dotSlashes]; exact hCount)
    have hText : (dotSlashes count).text ≠ "" := by
      intro hEmpty
      have hSize := size_dotSlashes count
      rw [hEmpty] at hSize
      cases hSize
    have hNul : (dotSlashes count).text.toList.contains '\x00' = false := by
      simp [dotSlashes]
    rw [FileTree.pathFault?, hNul, hShort, if_neg hText]
    rfl
  have hStart : FileTree.start (dotSlashes count) [] = [] := ite_self []
  rw [FileTree.get, FileTree.locate, hFault]
  simp only [hStart]
  rw [FileTree.travel, hAdvance]

def ordersTree : FileTree where
  root := .directory [("Orders.semantic.json", snapshotFile)]

/-- The directory of the file can be opened by this path, and the file cannot be looked up by its
own. -/
theorem discover_omits_farFile :
    ordersTree.root.IsTree ∧
    Eligible ordersTree (dotSlashes 4090) .secure ["Orders.semantic.json"] "".toUTF8 ∧
    (dotSlashes 4090).below ["Orders.semantic.json"] ∉
      (discover ordersTree (dotSlashes 4090) .secure).value := by
  have hName : Path.IsName "Orders.semantic.json" := by decide +kernel
  have hNames : ∀ name ∈ ["Orders.semantic.json"], Path.IsName name := by simpa using hName
  have hTree : ordersTree.root.IsTree := by
    refine .directory (by decide) (by simpa using hName) ?_
    simp only [List.forall_mem_cons]
    exact ⟨.file _, nofun⟩
  refine ⟨hTree, ⟨⟨⟨_, .entry (get_dotSlashes _ (by decide)) nofun, rfl⟩, ⟨"Orders", by decide, ?_⟩,
    by simp⟩, fun limit _ => Nat.zero_le limit⟩, ?_⟩
  · rw [Path.fileName?, Path.components_below hNames, List.getLast?_append]
    rfl
  · intro hMem
    obtain ⟨names, content, -, hAccessible, hPath⟩ := (mem_discover_iff_eligible hTree).1 hMem
    have hShort := hAccessible.file (.inl rfl)
    rw [← hPath, Path.below, List.foldl_cons, List.foldl_nil] at hShort
    have hLong := Nat.le_trans (Path.size_add_le_join _ _) hShort
    rw [size_dotSlashes] at hLong
    exact absurd hLong (by decide +kernel)

end Discovery

end CostlyCalls
