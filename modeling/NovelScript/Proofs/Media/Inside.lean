import NovelScript.Proofs.Files.Paths
import NovelScript.Proofs.Media.Cache

/-! # Media inside a folder

What a library gives depends on the files inside its folder, whatever names it is asked for. -/

namespace NovelScript

namespace FileTree

variable {t : FileTree} {root inner path : Path} {name : String} {content : Bytes}

/-- A file by its path from a folder, if it is in or below it. -/
def seenFrom? (folder : Path) (file : Path × Bytes) : Option (Path × Bytes) :=
  if folder.isPrefixOf file.1 then some (file.1.drop folder.length, file.2) else none

/-- The files inside a folder, as a tree of their own. -/
def inside (t : FileTree) (root : Path) : FileTree :=
  ⟨(t.below root).filter fun file => !file.1.isEmpty, []⟩

theorem below_eq (t : FileTree) (folder : Path) :
    t.below folder = t.files.filterMap (seenFrom? folder) := rfl

theorem seenFrom?_eq_some {folder : Path} {file seen : Path × Bytes} :
    seenFrom? folder file = some seen ↔ file = (folder ++ seen.1, seen.2) := by
  rw [seenFrom?]
  constructor
  · intro hseen
    split at hseen
    · rename_i hprefix
      obtain ⟨rest, hrest⟩ := List.isPrefixOf_iff_prefix.mp hprefix
      cases hseen
      rw [← hrest, List.drop_left, hrest]
    · cases hseen
  · rintro rfl
    simp

theorem mem_below : (inner, content) ∈ t.below root ↔ (root ++ inner, content) ∈ t.files := by
  simp [below_eq, seenFrom?_eq_some]

/-- Seen from a folder inside another one, files are as they are seen in two steps. -/
theorem seenFrom?_append (root inner : Path) (file : Path × Bytes) :
    seenFrom? (root ++ inner) file = (seenFrom? root file).bind (seenFrom? inner) := by
  ext seen
  simp only [Option.bind_eq_some_iff, seenFrom?_eq_some]
  constructor
  · rintro rfl
    exact ⟨(inner ++ seen.1, seen.2), by rw [List.append_assoc], rfl⟩
  · rintro ⟨middle, rfl, rfl⟩
    rw [List.append_assoc]

theorem below_append (t : FileTree) (root : Path) (hinner : inner ≠ []) :
    t.below (root ++ inner) = (t.inside root).below inner := by
  have hempty (file : Path × Bytes) :
      (if !file.1.isEmpty then seenFrom? inner file else none) = seenFrom? inner file := by
    obtain ⟨path, content⟩ := file
    cases path with
    | nil => simp [seenFrom?, hinner]
    | cons => rfl
  rw [below_eq, below_eq, inside, List.filterMap_filter, below_eq, List.filterMap_filterMap]
  simp only [hempty, seenFrom?_append]

/-- A path inside a folder leads to the same file from there. -/
theorem read?_append (t : FileTree) (root : Path) (hinner : inner ≠ []) :
    t.read? (root ++ inner) = (t.inside root).read? inner := by
  simp only [read?, inside, below_eq]
  induction t.files with
  | nil => rfl
  | cons file files ih =>
    obtain ⟨path, content⟩ := file
    rw [List.filterMap_cons]
    cases hseen : seenFrom? root (path, content) with
    | none =>
      have hne : (root ++ inner == path) = false := by
        rw [beq_eq_false_iff_ne]
        rintro rfl
        simp [seenFrom?] at hseen
      rw [List.lookup_cons, hne, ih]
    | some seen =>
      obtain ⟨rest, bytes⟩ := seen
      obtain ⟨rfl, rfl⟩ := Prod.mk.inj (seenFrom?_eq_some.mp hseen)
      have hsame : (root ++ inner == root ++ rest) = (inner == rest) := by
        rw [Bool.eq_iff_iff, beq_iff_eq, beq_iff_eq, List.append_cancel_left_eq]
      rw [List.lookup_cons, hsame, ih]
      cases rest with
      | nil => rw [beq_false_of_ne hinner]; rfl
      | cons => rfl

/-- What is looked for in a folder inside another one is looked for inside that one. -/
theorem find_append (t : FileTree) (root : Path) (name : String) (hinner : inner ≠ []) :
    t.find (root ++ inner) name = (t.inside root).find inner name := by
  have hread (path : Path) :
      t.read? (root ++ inner ++ path) = (t.inside root).read? (inner ++ path) := by
    rw [List.append_assoc]
    exact t.read?_append root (by simp [hinner])
  simp only [find, hread, t.below_append root hinner]

theorem findMovie_append (t : FileTree) (root : Path) (name : String) (hinner : inner ≠ []) :
    t.findMovie (root ++ inner) name = (t.inside root).findMovie inner name := by
  simp only [findMovie, t.below_append root hinner]

theorem below_nil (t : FileTree) : t.below [] = t.files := by
  simp [below]

/-- A name that is looked for right in a folder is looked for inside of it. -/
theorem find_of_sanitize (t : FileTree) (root : Path) (h : Path.sanitize name = .ok path)
    (hpath : path ≠ []) : t.find root name = (t.inside root).find [] name := by
  have hlength : path.length ≠ 0 := by simpa using hpath
  have hfound : ((t.inside root).below []).find? (fun file =>
      file.1.length == path.length && sameFileName (Path.text file.1) (Path.text path)) =
      (t.below root).find? fun file =>
        file.1.length == path.length && sameFileName (Path.text file.1) (Path.text path) := by
    rw [below_nil, inside, List.find?_filter]
    refine congrArg (List.find? · _) (funext fun file => ?_)
    rw [Bool.eq_iff_iff]
    cases file.1 with
    | nil => simp [hlength.symm]
    | cons => simp
  rw [find, find, h]
  simp only [exceptBind_ok, t.read?_append root hpath, List.nil_append, hfound]

/-- A file that was found lies in the folder, as deep as its name tells. -/
theorem find_eq_some (h : t.find root name = .ok (some content)) :
    ∃ path inner, Path.sanitize name = .ok path ∧ inner.length = path.length ∧
      (root ++ inner, content) ∈ t.files := by
  rw [find] at h
  obtain ⟨path, hpath, hfound⟩ := exceptBind_eq_ok h
  refine ⟨path, ?_⟩
  split at hfound
  · rename_i bytes hread
    obtain rfl : bytes = content := Option.some.inj (Except.ok.inj hfound)
    exact ⟨path, hpath, rfl, mem_of_lookup hread⟩
  · obtain ⟨⟨inner, bytes⟩, hfile, hbytes⟩ := Option.map_eq_some_iff.mp (Except.ok.inj hfound)
    obtain rfl : bytes = content := hbytes
    have hdepth := List.find?_some hfile
    simp only [Bool.and_eq_true, beq_iff_eq] at hdepth
    exact ⟨inner, hpath, hdepth.1, mem_below.mp (List.mem_of_find?_eq_some hfile)⟩

/-- A movie that was found lies right in the folder. -/
theorem findMovie_eq_some (h : t.findMovie root name = .ok (some content)) :
    ∃ file, (root ++ [file], content) ∈ t.files := by
  rw [findMovie] at h
  obtain ⟨path, -, hfound⟩ := exceptBind_eq_ok h
  obtain ⟨⟨inner, bytes⟩, hmem, hfile⟩ := List.exists_of_findSome?_eq_some (Except.ok.inj hfound)
  split at hfile
  · rename_i file bytes hinner
    split at hfile
    · cases hinner
      cases hfile
      exact ⟨file, mem_below.mp hmem⟩
    · cases hfile
  · cases hfile

end FileTree

namespace MediaLibrary

variable {m other : MediaLibrary} {kind : MediaKind} {name : String}

/-- Two libraries that have the same files inside their folders, wherever the folders lie and
whatever else is there. -/
structure SameMedia (m other : MediaLibrary) : Prop where
  files : m.tree.inside m.root = other.tree.inside other.root
  title : m.title = other.title
  holding : m.holding = other.holding
  cache : m.cache = other.cache

theorem sanitize_archive (kind : MediaKind) (title : Title) :
    Path.sanitize (kind.archive title ++ ".dat") = .ok [kind.archive title ++ ".dat"] := by
  have hname : ∀ part ∈ [kind.archive title ++ ".dat"], Path.IsName part := by
    rw [List.forall_mem_singleton]
    unfold Path.IsName
    cases kind <;> cases title <;> decide
  simpa [Path.text] using Path.sanitize_text hname

theorem SameMedia.readArchive (h : SameMedia m other) (kind : MediaKind) :
    m.readArchive kind = other.readArchive kind := by
  have hfind (m : MediaLibrary) :=
    m.tree.find_of_sanitize m.root (sanitize_archive kind m.title) (by simp)
  rw [MediaLibrary.readArchive, MediaLibrary.readArchive, hfind, hfind, h.files, h.title]

theorem readFile_eq (m : MediaLibrary) (kind : MediaKind) (name : String) :
    m.readFile kind name =
      ((if kind = .movie then m.tree.findMovie (m.root ++ [kind.archive m.title]) name
        else m.tree.find (m.root ++ [kind.archive m.title]) (kind.fileName name)) >>= fun found =>
        match found with
        | some content => return .ofBytes content
        | none => .error (missing kind name)) := by
  cases kind <;> rfl

theorem SameMedia.readFile (h : SameMedia m other) (kind : MediaKind) (name : String) :
    m.readFile kind name = other.readFile kind name := by
  rw [readFile_eq, readFile_eq, FileTree.find_append _ _ _ (by simp),
    FileTree.find_append _ _ _ (by simp), FileTree.findMovie_append _ _ _ (by simp),
    FileTree.findMovie_append _ _ _ (by simp), h.files, h.title]

theorem SameMedia.archive (h : SameMedia m other) (kind : MediaKind) :
    (m.archive kind).1 = (other.archive kind).1 ∧
      SameMedia (m.archive kind).2 (other.archive kind).2 := by
  simp only [MediaLibrary.archive, h.holding, h.readArchive]
  split
  · exact ⟨rfl, h⟩
  · split
    · exact ⟨rfl, h⟩
    · exact ⟨rfl, ⟨h.files, h.title, rfl, h.cache⟩⟩

theorem SameMedia.readThrough (h : SameMedia m other) (kind : MediaKind) (name : String) :
    (m.readThrough kind name).1 = (other.readThrough kind name).1 ∧
      SameMedia (m.readThrough kind name).2 (other.readThrough kind name).2 := by
  simp only [MediaLibrary.readThrough, h.holding]
  split
  · exact ⟨h.readFile _ name, h⟩
  · exact ⟨h.readFile .movie name, h⟩
  · rw [readEntry_eq, readEntry_eq, (h.archive _).1]
    exact ⟨rfl, (h.archive _).2⟩

/-- Libraries with the same media load the same, and have the same media then. -/
theorem SameMedia.load (h : SameMedia m other) (kind : MediaKind) (name : String) :
    (m.load kind name).1 = (other.load kind name).1 ∧
      SameMedia (m.load kind name).2 (other.load kind name).2 := by
  have hkey : m.cacheName kind name = other.cacheName kind name := by
    rw [cacheName, cacheName, h.title]
  rw [MediaLibrary.load, MediaLibrary.load, hkey, h.cache]
  rcases other.cache.get? (other.cacheName kind name) with ⟨found, cache⟩
  have hcached : SameMedia { m with cache := cache } { other with cache := cache } :=
    ⟨h.files, h.title, h.holding, rfl⟩
  cases found with
  | some view => exact ⟨rfl, hcached⟩
  | none =>
    obtain ⟨hsame, hstill⟩ := hcached.readThrough kind name
    rcases hread : ({ m with cache := cache }).readThrough kind name with ⟨result, m'⟩
    rcases hother : ({ other with cache := cache }).readThrough kind name with ⟨result', other'⟩
    rw [hread, hother] at hsame hstill
    obtain rfl : result = result' := hsame
    replace hstill : SameMedia m' other' := hstill
    simp only [hread, hother]
    cases result with
    | error fault => exact ⟨rfl, hstill⟩
    | ok view =>
      exact ⟨rfl, hstill.files, hstill.title, hstill.holding,
        congrArg (·.insert (other.cacheName kind name) view) hstill.cache⟩

theorem SameMedia.after (h : SameMedia m other) (requests : List (MediaKind × String)) :
    SameMedia (m.after requests) (other.after requests) := by
  induction requests generalizing m other with
  | nil => exact h
  | cons request requests ih => exact ih (h.load request.1 request.2).2

/-- However a library was used, what it loads does not depend on the files outside of its folder. -/
theorem load_after_inside {tree : FileTree} (h : m.tree.inside m.root = tree.inside m.root)
    (requests : List (MediaKind × String)) (kind : MediaKind) (name : String) :
    ((({ m with tree := tree } : MediaLibrary).after requests).load kind name).1 =
      ((m.after requests).load kind name).1 := by
  have hsame : SameMedia { m with tree := tree } m := ⟨h.symm, rfl, rfl, rfl⟩
  exact ((hsame.after requests).load kind name).1

/-! ## Where files lie -/

/-- A single file that is read lies in the folder of its kind. -/
theorem readFile_eq_ok {view : View} (h : m.readFile kind name = .ok view) :
    ∃ inner content, (m.root ++ kind.archive m.title :: inner, content) ∈ m.tree.files ∧
      view = .ofBytes content := by
  rw [readFile_eq] at h
  obtain ⟨found, hfound, hread⟩ := exceptBind_eq_ok h
  cases found with
  | none => cases hread
  | some content =>
    obtain ⟨inner, hmem⟩ : ∃ inner,
        (m.root ++ [kind.archive m.title] ++ inner, content) ∈ m.tree.files := by
      split at hfound
      · obtain ⟨file, hmem⟩ := FileTree.findMovie_eq_some hfound
        exact ⟨[file], hmem⟩
      · obtain ⟨-, inner, -, -, hmem⟩ := FileTree.find_eq_some hfound
        exact ⟨inner, hmem⟩
    exact ⟨inner, content, by simpa using hmem, (Except.ok.inj hread).symm⟩

/-- An archive that is read lies right in the folder of the library. -/
theorem readArchive_eq_ok {archive : Archive} (h : m.readArchive kind = .ok archive) :
    ∃ file content, (m.root ++ [file], content) ∈ m.tree.files ∧
      Archive.parse (.ofBytes content) = .ok archive := by
  obtain ⟨found, hfound, hread⟩ := exceptBind_eq_ok h
  cases found with
  | none => cases hread
  | some content =>
    obtain ⟨path, inner, hpath, hdepth, hmem⟩ := FileTree.find_eq_some hfound
    rw [sanitize_archive] at hpath
    obtain rfl := Except.ok.inj hpath
    obtain ⟨file, rfl⟩ := List.length_eq_one_iff.mp hdepth
    exact ⟨file, content, hmem, hread⟩

end MediaLibrary

end NovelScript
