import Mathlib.Data.List.Basic
import NovelScript.Files.Tree

/-! # What paths lead to

A path is read component by component. One that was sanitized has components with a name only, so
that joined to a folder it leads to that folder or to something below it. -/

namespace NovelScript

namespace Path

/-- What a component of a path asks for: the outermost folder, the folder where it stands, the folder
above, or what has a name. -/
inductive Component where
  | outermost
  | here
  | above
  | named (part : String)
deriving DecidableEq

namespace Component

/-- The component that is written as a piece between slashes. Nothing and a single dot are none. -/
def ofPiece? (piece : String) : Option Component :=
  if piece = "" ∨ piece = "." then none
  else if piece = ".." then some .above
  else some (.named piece)

def name? : Component → Option String
  | .named part => some part
  | _ => none

/-- The part of a path that a component is. -/
def part? : Component → Option String
  | .outermost | .here => none
  | .above => some parent
  | .named part => some part

end Component

/-- The pieces of a text between its slashes. -/
def pieces (text : String) : List String := (text.toList.splitOn '/').map String.ofList

/-- The component at the front of a path that no piece behind a slash can be. -/
def front (text : String) : List Component :=
  if isAbsolute text then [.outermost]
  else if (pieces text).head? = some "." then [.here]
  else []

/-- The components of a path. -/
def components (text : String) : List Component :=
  front text ++ (pieces text).filterMap Component.ofPiece?

/-- A part that can be the name of a file or a folder. -/
def IsName (part : String) : Prop :=
  part ≠ "" ∧ part ≠ "." ∧ part ≠ ".." ∧ '/' ∉ part.toList

theorem IsName.ne_parent {part : String} (h : IsName part) : part ≠ parent := h.2.2.1

theorem IsName.isIdle_eq {part : String} (h : IsName part) : isIdle part = false := by
  simpa [isIdle] using And.intro h.1 h.2.1

variable {path : Path} {name outer : String}

/-! ## Pieces -/

theorem segments_eq_splitOn (cs : List Char) : segments cs = cs.splitOn '/' := by
  induction cs with
  | nil => rfl
  | cons c cs ih =>
    rw [segments, List.splitOn_cons_eq_if_modifyHead, ih]
    by_cases hslash : c = '/'
    · simp [hslash]
    · rw [if_neg hslash, if_neg (by simpa using hslash)]
      cases hrest : cs.splitOn '/' with
      | nil => exact absurd hrest (List.splitOn_ne_nil _ _)
      | cons first others => rfl

theorem pieces_eq (text : String) : pieces text = (segments text.toList).map String.ofList := by
  rw [pieces, segments_eq_splitOn]

theorem slash_not_mem_segments {cs piece : List Char} (h : piece ∈ segments cs) : '/' ∉ piece := by
  fun_induction segments cs generalizing piece <;> grind

theorem slash_not_mem_of_mem_pieces {piece : String} (h : piece ∈ pieces name) :
    '/' ∉ piece.toList := by
  rw [pieces_eq] at h
  obtain ⟨segment, hsegment, rfl⟩ := List.mem_map.mp h
  rw [String.toList_ofList]
  exact slash_not_mem_segments hsegment

theorem pieces_ne_nil (text : String) : pieces text ≠ [] := by
  simp [pieces, List.splitOn_ne_nil]

theorem pieces_append_slash (a b : String) : pieces (a ++ "/" ++ b) = pieces a ++ pieces b := by
  have hchars : (a ++ "/" ++ b).toList = a.toList ++ '/' :: b.toList := by simp
  rw [pieces, hchars, List.splitOn_append_cons_self, List.map_append, pieces, pieces]

theorem pieces_empty : pieces "" = [""] := rfl

/-- The pieces of a path that was written from names are the names. -/
theorem pieces_text (h : ∀ part ∈ path, IsName part) (hpath : path ≠ []) :
    pieces (text path) = path := by
  have hchars : (text path).toList = ['/'].intercalate (path.map String.toList) := by
    rw [text, String.toList_intercalate]
    rfl
  have hnames : ∀ part ∈ path.map String.toList, '/' ∉ part := by
    intro part hpart
    obtain ⟨name, hname, rfl⟩ := List.mem_map.mp hpart
    exact (h name hname).2.2.2
  rw [pieces, hchars, List.splitOn_intercalate '/' hnames (by simpa using hpath), List.map_map]
  simp [Function.comp_def]

/-! ## Components -/

theorem part?_ofPiece? (piece : String) :
    (Component.ofPiece? piece).bind Component.part? =
      if !isIdle piece then some piece else none := by
  rw [Component.ofPiece?]
  by_cases hidle : piece = "" ∨ piece = "."
  · rcases hidle with rfl | rfl <;> rfl
  · have hpart : isIdle piece = false := by simpa [isIdle] using hidle
    rw [if_neg hidle, hpart]
    by_cases hparent : piece = ".."
    · rw [if_pos hparent, hparent]
      rfl
    · rw [if_neg hparent]
      rfl

/-- The parts of a path are its components but for the front. -/
theorem parts_eq (text : String) : parts text = (components text).filterMap Component.part? := by
  have hfront : (front text).filterMap Component.part? = [] := by
    rw [front]
    split
    · rfl
    · split <;> rfl
  rw [components, List.filterMap_append, hfront, List.nil_append, List.filterMap_filterMap, parts,
    ← pieces_eq, ← List.filterMap_eq_filter]
  congr 1
  funext piece
  rw [part?_ofPiece?]
  rfl

theorem ofPiece?_of_isName {part : String} (h : IsName part) :
    Component.ofPiece? part = some (.named part) := by
  rw [Component.ofPiece?, if_neg (not_or.mpr ⟨h.1, h.2.1⟩), if_neg h.2.2.1]

theorem filterMap_ofPiece? (h : ∀ part ∈ path, IsName part) :
    path.filterMap Component.ofPiece? = path.map .named := by
  rw [← List.filterMap_eq_map]
  exact List.filterMap_congr fun part hpart => ofPiece?_of_isName (h part hpart)

/-- A component with a name has one that can be the name of a file. -/
theorem isName_of_mem_components {part : String} (h : Component.named part ∈ components name) :
    IsName part := by
  rcases List.mem_append.mp h with hfront | hpiece
  · rw [front] at hfront
    split at hfront
    · simp at hfront
    · split at hfront <;> simp at hfront
  · obtain ⟨piece, hmem, hcomponent⟩ := List.mem_filterMap.mp hpiece
    rw [Component.ofPiece?] at hcomponent
    split at hcomponent
    · cases hcomponent
    · rename_i hidle
      split at hcomponent
      · cases hcomponent
      · rename_i hparent
        cases hcomponent
        obtain ⟨hempty, hdot⟩ := not_or.mp hidle
        exact ⟨hempty, hdot, hparent, slash_not_mem_of_mem_pieces hmem⟩

theorem parent_mem_parts_iff : parent ∈ parts name ↔ Component.above ∈ components name := by
  rw [parts_eq, List.mem_filterMap]
  constructor
  · rintro ⟨component, hmem, hpart⟩
    cases component with
    | outermost => cases hpart
    | here => cases hpart
    | above => exact hmem
    | named part => exact absurd (Option.some.inj hpart) (isName_of_mem_components hmem).2.2.1
  · exact fun h => ⟨_, h, rfl⟩

/-! ## Sanitizing -/

theorem parts_eq_names (h : Component.above ∉ components name) :
    parts name = (components name).filterMap Component.name? := by
  rw [parts_eq]
  refine List.filterMap_congr fun component hmem => ?_
  cases component with
  | above => exact absurd hmem h
  | _ => rfl

/-- A path is accepted if it is relative and has no component for the folder above, and what is left
of it are the names among its components. -/
theorem sanitize_eq_ok_iff :
    sanitize name = .ok path ↔
      isAbsolute name = false ∧ Component.above ∉ components name ∧
        path = (components name).filterMap Component.name? := by
  rw [sanitize]
  split
  · rename_i hleaves
    rw [parent_mem_parts_iff] at hleaves
    simp only [reduceCtorEq, false_iff]
    rintro ⟨habsolute, habove, -⟩
    simp [habsolute, habove] at hleaves
  · rename_i hstays
    rw [parent_mem_parts_iff, not_or] at hstays
    rw [Except.ok.injEq, parts_eq_names hstays.2, eq_comm]
    simp [hstays.1, hstays.2]

/-- The only reason to refuse a path is that it leaves its folder. -/
theorem fault_of_sanitize {fault : AssetFault} (h : sanitize name = .error fault) :
    fault = .traversal := by
  rw [sanitize] at h
  split at h
  · exact (Except.error.inj h).symm
  · cases h

example : sanitize "./bg//BG01.cps/." = .ok ["bg", "BG01.cps"] := by decide

theorem isName_of_sanitize (h : sanitize name = .ok path) : ∀ part ∈ path, IsName part := by
  obtain ⟨-, -, rfl⟩ := sanitize_eq_ok_iff.mp h
  intro part hpart
  obtain ⟨component, hmem, hname⟩ := List.mem_filterMap.mp hpart
  cases component with
  | named other =>
    obtain rfl : other = part := Option.some.inj hname
    exact isName_of_mem_components hmem
  | _ => cases hname

/-! ## Texts of names -/

theorem isAbsolute_text (h : ∀ part ∈ path, IsName part) : isAbsolute (text path) = false := by
  cases path with
  | nil => rfl
  | cons first rest =>
    have hfirst := h first List.mem_cons_self
    have hchars : ∃ others, (text (first :: rest)).toList = first.toList ++ others := by
      cases rest with
      | nil => exact ⟨[], by simp [text]⟩
      | cons second rest => exact ⟨_, by simp [text, String.toList_intercalate]; rfl⟩
    obtain ⟨others, hothers⟩ := hchars
    rw [isAbsolute, hothers]
    cases hcs : first.toList with
    | nil => exact absurd (String.toList_eq_nil_iff.mp hcs) hfirst.1
    | cons c cs =>
      have hc : c ≠ '/' := fun heq => hfirst.2.2.2 (by simp [hcs, heq])
      simpa using hc

theorem components_text (h : ∀ part ∈ path, IsName part) :
    components (text path) = path.map .named := by
  cases path with
  | nil => rfl
  | cons first rest =>
    have hfront : front (text (first :: rest)) = [] := by
      have hfirst := (h first List.mem_cons_self).2.1
      rw [front, isAbsolute_text h, pieces_text h (by simp)]
      simpa using hfirst
    rw [components, hfront, pieces_text h (by simp), filterMap_ofPiece? h, List.nil_append]

/-- Sanitizing a path of names gives it back. -/
theorem sanitize_text (h : ∀ part ∈ path, IsName part) : sanitize (text path) = .ok path := by
  rw [sanitize_eq_ok_iff, components_text h]
  refine ⟨isAbsolute_text h, by simp, ?_⟩
  rw [List.filterMap_map]
  simp [Function.comp_def, Component.name?]

/-! ## Joining -/

/-- What is behind a slash does not tell what is at the front. -/
theorem front_append_slash (a b : String) :
    front (a ++ "/" ++ b) = if a = "" then [.outermost] else front a := by
  have hhead : (pieces (a ++ "/" ++ b)).head? = (pieces a).head? := by
    rw [pieces_append_slash, List.head?_append_of_ne_nil _ (pieces_ne_nil a)]
  have hchars : (a ++ "/" ++ b).toList = a.toList ++ '/' :: b.toList := by simp
  rw [front, hhead, isAbsolute, hchars]
  by_cases hempty : a = ""
  · rw [if_pos hempty, hempty]
    rfl
  · have hcs : a.toList ≠ [] := fun h => hempty (String.toList_eq_nil_iff.mp h)
    rw [if_neg hempty, List.head?_append_of_ne_nil _ hcs]
    rfl

theorem components_append_slash (a b : String) :
    components (a ++ "/" ++ b) =
      (if a = "" then [.outermost] else components a) ++
        (pieces b).filterMap Component.ofPiece? := by
  rw [components, front_append_slash, pieces_append_slash, List.filterMap_append]
  by_cases hempty : a = ""
  · rw [if_pos hempty, if_pos hempty, hempty]
    rfl
  · rw [if_neg hempty, if_neg hempty, components, List.append_assoc]

/-- A slash behind a path adds no component. -/
theorem components_append_slash_end (a : String) :
    components (a ++ "/") = if a = "" then [.outermost] else components a := by
  have h := components_append_slash a ""
  rwa [String.append_empty, pieces_empty, show [""].filterMap Component.ofPiece? = [] from rfl,
    List.append_nil] at h

/-- The three ways in which a relative path is joined to a folder. -/
theorem join_cases (outer : String) {inner : String} (h : isAbsolute inner = false) :
    (outer = "" ∧ join outer inner = inner) ∨
      (∃ base, outer = base ++ "/" ∧ join outer inner = base ++ "/" ++ inner) ∨
      (outer ≠ "" ∧ join outer inner = outer ++ "/" ++ inner) := by
  rw [join, h]
  by_cases hempty : outer = ""
  · exact .inl ⟨hempty, by simp [hempty]⟩
  · rw [if_neg (by simpa using hempty)]
    split
    · rename_i hslash
      obtain ⟨cs, hcs⟩ := List.getLast?_eq_some_iff.mp hslash
      have hbase : outer = String.ofList cs ++ "/" := by
        rw [← String.toList_inj, hcs, String.toList_append, String.toList_ofList]
        rfl
      exact .inr (.inl ⟨_, hbase, by rw [← hbase]⟩)
    · exact .inr (.inr ⟨hempty, rfl⟩)

/-- Joined to a folder, a path of names is the folder, or what has these names below it. -/
theorem components_join (h : ∀ part ∈ path, IsName part) :
    components (join outer (text path)) = components outer ++ path.map .named := by
  have hpieces : (pieces (text path)).filterMap Component.ofPiece? = path.map .named := by
    cases path with
    | nil => rfl
    | cons first rest => rw [pieces_text h (by simp), filterMap_ofPiece? h]
  rcases join_cases outer (isAbsolute_text h) with
    ⟨rfl, hjoin⟩ | ⟨base, rfl, hjoin⟩ | ⟨hne, hjoin⟩
  · rw [hjoin, components_text h]
    rfl
  · rw [hjoin, components_append_slash, hpieces, components_append_slash_end]
  · rw [hjoin, components_append_slash, hpieces, if_neg hne]

theorem outermost_mem_components_iff :
    Component.outermost ∈ components name ↔ isAbsolute name = true := by
  have hpieces : Component.outermost ∉ (pieces name).filterMap Component.ofPiece? := by
    rw [List.mem_filterMap]
    rintro ⟨piece, -, hpiece⟩
    rw [Component.ofPiece?] at hpiece
    split at hpiece
    · cases hpiece
    · split at hpiece <;> cases hpiece
  rw [components, List.mem_append, or_iff_left hpieces, front]
  split
  · simpa
  · rename_i hrelative
    split <;> simp [hrelative]

theorem isAbsolute_join (h : ∀ part ∈ path, IsName part) :
    isAbsolute (join outer (text path)) = isAbsolute outer := by
  rw [Bool.eq_iff_iff, ← outermost_mem_components_iff, ← outermost_mem_components_iff,
    components_join h]
  simp

theorem parts_join (h : ∀ part ∈ path, IsName part) :
    parts (join outer (text path)) = parts outer ++ path := by
  rw [parts_eq, components_join h, List.filterMap_append, ← parts_eq, List.filterMap_map]
  simp [Function.comp_def, Component.part?]

/-- The last piece of a joined path is the last name, or nothing. -/
theorem getLast?_pieces_join (h : ∀ part ∈ path, IsName part) :
    (pieces (join outer (text path))).getLast? = if path = [] then some "" else path.getLast? := by
  have hlast : (pieces (text path)).getLast? = if path = [] then some "" else path.getLast? := by
    by_cases hpath : path = []
    · rw [if_pos hpath, hpath]
      rfl
    · rw [if_neg hpath, pieces_text h hpath]
  rcases join_cases outer (isAbsolute_text h) with
    ⟨-, hjoin⟩ | ⟨base, -, hjoin⟩ | ⟨-, hjoin⟩
  · rw [hjoin, hlast]
  · rw [hjoin, pieces_append_slash, List.getLast?_append_of_ne_nil _ (pieces_ne_nil _), hlast]
  · rw [hjoin, pieces_append_slash, List.getLast?_append_of_ne_nil _ (pieces_ne_nil _), hlast]

end Path

namespace FileTree

variable {t : FileTree} {path root cwd : Path} {outer : String}

/-! ## Where paths lead -/

theorem resolveParts_append (t : FileTree) (reached : Path) (front back : List String) :
    t.resolveParts reached (front ++ back) =
      (t.resolveParts reached front).bind fun reached => t.resolveParts reached back := by
  induction front generalizing reached with
  | nil => rfl
  | cons part front ih =>
    rw [List.cons_append, resolveParts, resolveParts]
    split
    · split
      · exact ih _
      · rfl
    · exact ih _

/-- Names lead down, whatever is there. -/
theorem resolveParts_names (t : FileTree) (reached : Path) (h : ∀ part ∈ path, Path.IsName part) :
    t.resolveParts reached path = some (reached ++ path) := by
  induction path generalizing reached with
  | nil => rw [resolveParts, List.append_nil]
  | cons part path ih =>
    rw [resolveParts, if_neg (h part List.mem_cons_self).ne_parent,
      ih (reached ++ [part]) fun part hpart => h part (List.mem_cons_of_mem _ hpart)]
    simp

/-- The last piece of a path tells whether the path needs a folder. -/
theorem resolve?_eq (t : FileTree) (cwd : Path) (text : String) :
    t.resolve? cwd text =
      (t.resolveParts (if Path.isAbsolute text then [] else cwd) (Path.parts text)).bind fun path =>
        if Path.isIdle ((Path.pieces text).getLast?.getD "") && t.isFile path then none
        else some path := by
  have hlast : ((Path.segments text.toList).getLast?.map String.ofList).getD "" =
      (Path.pieces text).getLast?.getD "" := by
    rw [Path.pieces_eq, List.getLast?_map]
  rw [resolve?, hlast]
  cases t.resolveParts (if Path.isAbsolute text then [] else cwd) (Path.parts text) <;> rfl

/-- A path of names that is joined to a folder leads from the folder to what has these names below
it, in every tree. -/
theorem resolve?_join (h : ∀ part ∈ path, Path.IsName part)
    (hroot : t.resolve? cwd outer = some root) :
    t.resolve? cwd (Path.join outer (Path.text path)) =
      if path = [] ∧ t.isFile root then none else some (root ++ path) := by
  rw [resolve?_eq] at hroot ⊢
  obtain ⟨reached, hreached, hneeds⟩ := Option.bind_eq_some_iff.mp hroot
  obtain rfl : reached = root := by
    split at hneeds
    · cases hneeds
    · exact Option.some.inj hneeds
  rw [Path.isAbsolute_join h, Path.parts_join h, resolveParts_append, hreached, Option.bind_some,
    resolveParts_names t reached h, Option.bind_some, Path.getLast?_pieces_join h]
  by_cases hpath : path = []
  · simp [hpath, Path.isIdle]
  · have hlast : Path.isIdle (path.getLast hpath) = false := (h _ (List.getLast_mem hpath)).isIdle_eq
    rw [if_neg hpath, List.getLast?_eq_some_getLast hpath, Option.getD_some, hlast]
    simp [hpath]

end FileTree

end NovelScript
