import NovelScript.Command.Run
import NovelScript.Proofs.Media.Inside

/-! # Names from outside

Scripts name the media that they need, and archives their files. Whatever these names are, media are
looked for inside the folder of the library, and files are extracted to places inside the folder
that was asked for. -/

namespace NovelScript

namespace FileTree

variable {t t' : FileTree} {path other root cwd : Path} {content : Bytes} {text : String}

theorem lookup_insertInto (path other : Path) (content : Bytes) (files : List (Path × Bytes)) :
    (insertInto path content files).lookup other =
      if other = path then some content else files.lookup other := by
  fun_induction insertInto path content files <;> grind

theorem read?_insert (t : FileTree) (path other : Path) (content : Bytes) :
    (t.insert path content).read? other = if other = path then some content else t.read? other :=
  lookup_insertInto path other content t.files

theorem isFolder_of_mem (h : path ∈ t.folders) : t.isFolder path = true := by
  have hmade : (t.folders.any fun folder => path.isPrefixOf folder) = true :=
    List.any_eq_true.mpr ⟨path, h, by simp⟩
  rw [isFolder, hmade, Bool.or_true, Bool.true_or]

/-- A file that was written is there, in place of what was there, and no folder is. -/
theorem write?_eq_some (h : t.write? path content = some t') :
    t' = t.insert path content ∧ t.isFolder path = false := by
  rw [write?] at h
  split at h
  · cases h
  · rename_i hfree
    simp only [Bool.or_eq_true, not_or, Bool.not_eq_true] at hfree
    exact ⟨(Option.some.inj h).symm, hfree.1.2⟩

theorem makeFolder?_eq_some (h : t.makeFolder? path = some t') :
    t' = { t with folders := path :: t.folders } := by
  rw [makeFolder?] at h
  split at h
  · cases h
  · exact (Option.some.inj h).symm

/-- Parts that lead somewhere lead to the same place when there are more folders. -/
theorem resolveParts_mono {reached : Path} {parts : List String}
    (hfolders : ∀ folder, t.isFolder folder = true → t'.isFolder folder = true)
    (h : t.resolveParts reached parts = some root) :
    t'.resolveParts reached parts = some root := by
  induction parts generalizing reached with
  | nil => exact h
  | cons part parts ih =>
    rw [resolveParts] at h ⊢
    split
    · rename_i hparent
      rw [if_pos hparent] at h
      split at h
      · rename_i hreached
        rw [if_pos (hfolders _ hreached)]
        exact ih h
      · cases h
    · rename_i hname
      rw [if_neg hname] at h
      exact ih h

theorem resolve?_addFolder (h : t.resolve? cwd text = some root) :
    ({ t with folders := path :: t.folders } : FileTree).resolve? cwd text = some root := by
  have hfolders (folder : Path) (hfolder : t.isFolder folder = true) :
      ({ t with folders := path :: t.folders } : FileTree).isFolder folder = true := by
    simp only [isFolder, List.any_cons, Bool.or_eq_true] at hfolder ⊢
    tauto
  rw [resolve?_eq] at h ⊢
  obtain ⟨reached, hreached, hneeds⟩ := Option.bind_eq_some_iff.mp h
  rw [resolveParts_mono hfolders hreached]
  exact hneeds

end FileTree

namespace Work

variable {α β : Type}

theorem bind_apply (x : Work α) (f : α → Work β) (w : Workspace) :
    (x >>= f) w = match x w with
      | (some a, w') => f a w'
      | (none, w') => (none, w') := by
  simp only [bind, OptionT.bind, OptionT.mk, StateT.bind]
  rcases x w with ⟨result, w'⟩
  cases result <;> rfl

/-- Making a folder changes nothing, or adds the folder that its path leads to. -/
theorem makeFolder_cases (text : String) (w : Workspace) :
    makeFolder text w = (none, w) ∨
      ∃ root, w.tree.resolve? w.folder text = some root ∧
        makeFolder text w =
          (some (), { w with tree := { w.tree with folders := root :: w.tree.folders } }) := by
  rw [makeFolder, Work.bind_apply, resolve]
  cases hroot : w.tree.resolve? w.folder text with
  | none => exact .inl rfl
  | some root =>
    simp only [updateTree]
    cases hmade : w.tree.makeFolder? root with
    | none => exact .inl rfl
    | some tree =>
      obtain rfl := FileTree.makeFolder?_eq_some hmade
      exact .inr ⟨root, rfl, rfl⟩

end Work

/-! ## Extraction -/

/-- What a part of an extraction does: the files that change are files of the archive, each of them
at the place of its name below the folder. -/
structure Extracts (archive : Archive) (root : Path) (w w' : Workspace) : Prop where
  printed : w'.printed = w.printed
  folder : w'.folder = w.folder
  folders : w'.tree.folders = w.tree.folders
  files : ∀ path, w'.tree.read? path = w.tree.read? path ∨
    ∃ entry ∈ archive.entries, ∃ inner content, Path.sanitize entry.name = .ok inner ∧
      inner ≠ [] ∧ path = root ++ inner ∧ archive.content entry = .ok content ∧
      w'.tree.read? path = some content.bytes

namespace Extracts

variable {archive : Archive} {root : Path} {w w' w'' : Workspace} {entry : ArchiveEntry}

theorem refl (archive : Archive) (root : Path) (w : Workspace) : Extracts archive root w w :=
  ⟨rfl, rfl, rfl, fun _ => .inl rfl⟩

theorem trans (h : Extracts archive root w w') (h' : Extracts archive root w' w'') :
    Extracts archive root w w'' where
  printed := h'.printed.trans h.printed
  folder := h'.folder.trans h.folder
  folders := h'.folders.trans h.folders
  files path := by
    rcases h'.files path with hsame | hwritten
    · rw [hsame]
      exact h.files path
    · exact .inr hwritten

end Extracts

namespace Command

open Work

variable {archive : Archive} {root : Path} {w : Workspace} {entry : ArchiveEntry}

/-- Writes a file of an archive into a folder. -/
def extractEntry (archive : Archive) (root : Path) (entry : ArchiveEntry) : Work Unit := do
  let path ← ofExcept (Path.sanitize entry.name)
  let content ← ofExcept (archive.content entry)
  updateTree fun t => t.write? (root ++ path) content.bytes

theorem extract_eq (archive : Archive) (folder : String) :
    extract archive folder = (do
      makeFolder folder
      let root ← resolve folder
      archive.entries.forM (extractEntry archive root)) := rfl

/-- One file is written below the folder, if it is written. The folder itself cannot be
overwritten, since it is there. -/
theorem extracts_entry (hroot : root ∈ w.tree.folders) (hentry : entry ∈ archive.entries) :
    Extracts archive root w (extractEntry archive root entry w).2 := by
  rw [extractEntry, Work.bind_apply]
  cases hpath : Path.sanitize entry.name with
  | error fault => exact .refl archive root w
  | ok inner =>
    change Extracts archive root w ((ofExcept (archive.content entry) >>= fun content =>
      updateTree fun t => t.write? (root ++ inner) content.bytes) w).2
    rw [Work.bind_apply]
    cases hcontent : archive.content entry with
    | error fault => exact .refl archive root w
    | ok content =>
      change Extracts archive root w
        (updateTree (fun t => t.write? (root ++ inner) content.bytes) w).2
      rw [updateTree]
      cases hwrite : w.tree.write? (root ++ inner) content.bytes with
      | none => exact .refl archive root w
      | some tree =>
        obtain ⟨rfl, hfree⟩ := FileTree.write?_eq_some hwrite
        have hinner : inner ≠ [] := by
          rintro rfl
          rw [List.append_nil, FileTree.isFolder_of_mem hroot] at hfree
          cases hfree
        refine ⟨rfl, rfl, rfl, fun path => ?_⟩
        simp only [FileTree.read?_insert]
        by_cases hplace : path = root ++ inner
        · exact .inr ⟨entry, hentry, inner, content, hpath, hinner, hplace, hcontent,
            if_pos hplace⟩
        · exact .inl (if_neg hplace)

theorem extracts_entries {entries : List ArchiveEntry} (hroot : root ∈ w.tree.folders)
    (hentries : ∀ entry ∈ entries, entry ∈ archive.entries) :
    Extracts archive root w (entries.forM (extractEntry archive root) w).2 := by
  induction entries generalizing w with
  | nil => exact .refl archive root w
  | cons entry entries ih =>
    obtain ⟨hentry, hrest⟩ := List.forall_mem_cons.mp hentries
    have hfirst := extracts_entry hroot hentry
    rw [List.forM, Work.bind_apply]
    rcases hrun : extractEntry archive root entry w with ⟨result, w'⟩
    rw [hrun] at hfirst
    cases result with
    | none => exact hfirst
    | some _ => exact hfirst.trans (ih (hfirst.folders ▸ hroot) hrest)

/-- An extraction changes nothing, or it makes the folder and writes files of the archive below
it. -/
theorem extract_cases (archive : Archive) (folder : String) (w : Workspace) :
    (extract archive folder w).2 = w ∨
      ∃ root, w.tree.resolve? w.folder folder = some root ∧
        Extracts archive root { w with tree := { w.tree with folders := root :: w.tree.folders } }
          (extract archive folder w).2 := by
  rw [extract_eq, Work.bind_apply]
  rcases makeFolder_cases folder w with hnone | ⟨root, hroot, hmade⟩
  · rw [hnone]
    exact .inl rfl
  · refine .inr ⟨root, hroot, ?_⟩
    rw [hmade]
    simp only
    rw [Work.bind_apply, resolve, FileTree.resolve?_addFolder hroot]
    exact extracts_entries List.mem_cons_self fun _ => id

/-- A file that an extraction changes is one of the archive's, at the place below the folder to which
the folder joined with its name leads. -/
theorem extract_changes (archive : Archive) (folder : String) (w : Workspace) {path : Path}
    (h : (extract archive folder w).2.tree.read? path ≠ w.tree.read? path) :
    ∃ root entry inner content, w.tree.resolve? w.folder folder = some root ∧
      entry ∈ archive.entries ∧ Path.sanitize entry.name = .ok inner ∧ inner ≠ [] ∧
      path = root ++ inner ∧
      w.tree.resolve? w.folder (Path.join folder (Path.text inner)) = some path ∧
      archive.content entry = .ok content ∧
      (extract archive folder w).2.tree.read? path = some content.bytes := by
  rcases extract_cases archive folder w with hsame | ⟨root, hroot, hextracts⟩
  · rw [hsame] at h
    exact absurd rfl h
  · rcases hextracts.files path with hsame | hwritten
    · exact absurd hsame h
    · obtain ⟨entry, hentry, inner, content, hinner, hne, rfl, hcontent, hread⟩ := hwritten
      have hplace := FileTree.resolve?_join (Path.isName_of_sanitize hinner) hroot
      rw [if_neg fun hempty => hne hempty.1] at hplace
      exact ⟨root, entry, inner, content, hroot, hentry, hinner, hne, rfl, hplace, hcontent, hread⟩

theorem extract_folders (archive : Archive) (folder : String) (w : Workspace) :
    (extract archive folder w).2.tree.folders = w.tree.folders ∨
      ∃ root, w.tree.resolve? w.folder folder = some root ∧
        (extract archive folder w).2.tree.folders = root :: w.tree.folders := by
  rcases extract_cases archive folder w with hsame | ⟨root, hroot, hextracts⟩
  · exact .inl (by rw [hsame])
  · exact .inr ⟨root, hroot, hextracts.folders⟩

end Command

/-- A path is accepted if it is relative and never goes up, and becomes its names in their order.
Joined to a folder it is the folder or something below it, as a path and in every tree; accepted
again it stays as it is. So no name of media makes a library look outside of its folder, and no name
in an archive makes an extraction write outside of the folder that it was given. -/
theorem untrusted_names_stay_inside :
    -- paths
    (∀ name : String,
      ((∃ path, Path.sanitize name = .ok path) ↔
        Path.isAbsolute name = false ∧ Path.Component.above ∉ Path.components name) ∧
      (∀ fault, Path.sanitize name = .error fault → fault = .traversal) ∧
      ∀ path, Path.sanitize name = .ok path →
        path = (Path.components name).filterMap Path.Component.name? ∧
        (∀ part ∈ path, Path.IsName part) ∧
        Path.sanitize (Path.text path) = .ok path ∧
        (∀ folder, Path.components (Path.join folder (Path.text path)) =
          Path.components folder ++ path.map .named) ∧
        ∀ (t : FileTree) cwd folder root, t.resolve? cwd folder = some root →
          t.resolve? cwd (Path.join folder (Path.text path)) =
            if path = [] ∧ t.isFile root then none else some (root ++ path)) ∧
    -- loads
    (∀ (m : MediaLibrary) (tree : FileTree), m.tree.inside m.root = tree.inside m.root →
      ∀ requests kind name,
        ((({ m with tree := tree } : MediaLibrary).after requests).load kind name).1 =
          ((m.after requests).load kind name).1) ∧
    (∀ (m : MediaLibrary) kind name view, m.readFile kind name = .ok view →
      ∃ inner content, (m.root ++ kind.archive m.title :: inner, content) ∈ m.tree.files ∧
        view = .ofBytes content) ∧
    (∀ (m : MediaLibrary) kind archive, m.readArchive kind = .ok archive →
      ∃ file content, (m.root ++ [file], content) ∈ m.tree.files ∧
        Archive.parse (.ofBytes content) = .ok archive) ∧
    -- extraction
    ∀ archive folder (w : Workspace),
      ((Command.extract archive folder w).2.tree.folders = w.tree.folders ∨
        ∃ root, w.tree.resolve? w.folder folder = some root ∧
          (Command.extract archive folder w).2.tree.folders = root :: w.tree.folders) ∧
      ∀ path, (Command.extract archive folder w).2.tree.read? path ≠ w.tree.read? path →
        ∃ root entry inner content, w.tree.resolve? w.folder folder = some root ∧
          entry ∈ archive.entries ∧ Path.sanitize entry.name = .ok inner ∧ inner ≠ [] ∧
          path = root ++ inner ∧
          w.tree.resolve? w.folder (Path.join folder (Path.text inner)) = some path ∧
          archive.content entry = .ok content ∧
          (Command.extract archive folder w).2.tree.read? path = some content.bytes := by
  refine ⟨fun name => ⟨?_, fun _ => Path.fault_of_sanitize, fun path hpath => ?_⟩,
    fun m tree h => m.load_after_inside h, fun m kind name view => MediaLibrary.readFile_eq_ok,
    fun m kind archive => MediaLibrary.readArchive_eq_ok,
    fun archive folder w => ⟨Command.extract_folders archive folder w, fun path =>
      Command.extract_changes archive folder w⟩⟩
  · constructor
    · rintro ⟨path, hpath⟩
      obtain ⟨habsolute, habove, -⟩ := Path.sanitize_eq_ok_iff.mp hpath
      exact ⟨habsolute, habove⟩
    · exact fun h => ⟨_, Path.sanitize_eq_ok_iff.mpr ⟨h.1, h.2, rfl⟩⟩
  · have hnames := Path.isName_of_sanitize hpath
    exact ⟨(Path.sanitize_eq_ok_iff.mp hpath).2.2, hnames, Path.sanitize_text hnames,
      fun folder => Path.components_join hnames,
      fun t cwd folder root => FileTree.resolve?_join hnames⟩

end NovelScript
