import NovelScript.Media.Library
import NovelScript.Proofs.Bytes.Content

/-! # Cached media

A library that has been used gives what it gave when it was new, unless a name finds under its key
the media of another name. Keys leave out the case of all letters, the lookup of a file that of
ASCII letters only, so that a used library may differ from a new one, and it is known when. -/

namespace NovelScript

namespace ByteCache

variable {c : ByteCache} {name : String} {view : View}

/-- The names and views of a cache. -/
def views (c : ByteCache) : List (String × View) :=
  c.entries.map fun entry => (entry.1, entry.2.view)

@[simp] theorem budget_tick (c : ByteCache) : c.tick.budget = c.budget := rfl

theorem entries_tick (c : ByteCache) : c.tick.entries = c.entries := rfl

/-- Counting a name as used changes no view. -/
@[simp] theorem views_touch (c : ByteCache) (name : String) : (c.touch name).views = c.views := by
  simp only [views, touch, List.map_map]
  refine List.map_congr_left fun entry _ => ?_
  simp only [Function.comp_apply]
  split <;> rfl

/-- What is found in a cache is one of its views, and looking it up changes none. -/
theorem get?_eq_some {c' : ByteCache} (h : c.get? name = (some view, c')) :
    (name, view) ∈ c.views ∧ c'.budget = c.budget ∧ c'.views = c.views := by
  unfold get? at h
  split at h
  · cases h
  · rename_i cached hlookup
    obtain ⟨⟨rfl⟩, rfl⟩ := Prod.mk.inj h
    exact ⟨List.mem_map.mpr ⟨_, mem_of_lookup hlookup, rfl⟩, rfl, views_touch ..⟩

theorem get?_eq_none {c' : ByteCache} (h : c.get? name = (none, c')) : c' = c.tick := by
  unfold get? at h
  split at h
  · exact (Prod.mk.inj h).2.symm
  · cases h

@[simp] theorem budget_remove (c : ByteCache) (name : String) :
    (c.remove name).budget = c.budget := by
  unfold remove
  split <;> rfl

/-- Only the entries of other names are left after a removal. -/
theorem entries_remove (c : ByteCache) (name : String) :
    (c.remove name).entries = c.entries.filter fun entry => entry.1 != name := by
  unfold remove
  split
  · rename_i hlookup
    refine (List.filter_eq_self.mpr fun entry hentry => ?_).symm
    rw [bne_comm]
    exact List.lookup_eq_none_iff.mp hlookup entry hentry
  · rfl

theorem budget_makeRoom (c : ByteCache) (needed : Nat) :
    (c.makeRoom needed).budget = c.budget := by
  fun_induction makeRoom c needed with
  | case1 c _ _ => rfl
  | case2 c _ entry _ ih => rw [ih, budget_remove]
  | case3 c _ => rfl

theorem entries_makeRoom_sublist (c : ByteCache) (needed : Nat) :
    (c.makeRoom needed).entries.Sublist c.entries := by
  fun_induction makeRoom c needed with
  | case1 c _ _ => exact .refl _
  | case2 c _ entry _ ih =>
    rw [entries_remove] at ih
    exact ih.trans List.filter_sublist
  | case3 c _ => exact .refl _

theorem budget_insert (c : ByteCache) (name : String) (view : View) :
    (c.insert name view).budget = c.budget := by
  unfold insert
  split
  · rfl
  · rw [budget_makeRoom, budget_remove, budget_tick]

/-- The views after an insertion: the new one, if it is not too large, and old ones. -/
theorem mem_views_insert {entry : String × View} (h : entry ∈ (c.insert name view).views) :
    (entry = (name, view) ∧ view.length ≤ c.budget) ∨ entry ∈ c.views := by
  unfold insert at h
  split at h
  · exact .inr h
  · rename_i hlarge
    rcases List.mem_cons.mp h with rfl | h
    · exact .inl ⟨rfl, Nat.le_of_not_lt hlarge⟩
    · obtain ⟨old, hold, rfl⟩ := List.mem_map.mp h
      have hkept := (entries_makeRoom_sublist ..).subset hold
      rw [entries_remove] at hkept
      exact .inr (List.mem_map_of_mem (List.mem_filter.mp hkept).1)

/-- A view that is not too large is found under the name under which it was put into the cache. -/
theorem get?_insert (name : String) (h : view.length ≤ c.budget) :
    ((c.insert name view).get? name).1 = some view := by
  simp [insert, get?, Nat.not_lt.mpr h]

end ByteCache

namespace MediaKind

/-- The archives of a title go by names with different first letters. -/
theorem archive_head?_inj (title : Title) {kind kind' : MediaKind}
    (h : (kind.archive title).toList.head? = (kind'.archive title).toList.head?) :
    kind = kind' := by
  cases title <;> cases kind <;> cases kind' <;> first | rfl | exact absurd h (by decide)

theorem archive_ne_nil (title : Title) (kind : MediaKind) :
    (kind.archive title).toList ≠ [] := by
  cases title <;> cases kind <;> decide

end MediaKind

namespace MediaLibrary

variable {new m : MediaLibrary} {kind : MediaKind} {name : String}

/-- The library has not been used: nothing is cached and no archive is open. -/
structure IsNew (m : MediaLibrary) : Prop where
  cache : m.cache.entries = []
  holding : m.holding = .folders ∨ m.holding = .archives []

theorem isNew_ofFolders (tree : FileTree) (root : Path) (title : Title) (budget : Nat) :
    (ofFolders tree root title budget).IsNew :=
  ⟨rfl, .inl rfl⟩

theorem isNew_ofArchives (tree : FileTree) (root : Path) (title : Title) (budget : Nat) :
    (ofArchives tree root title budget).IsNew :=
  ⟨rfl, .inr rfl⟩

theorem isNew_ofInstalled (tree : FileTree) (root : Path) (title : Title) (budget : Nat) :
    (ofInstalled tree root title budget).IsNew := by
  unfold ofInstalled
  split
  · exact isNew_ofArchives tree root title budget
  · exact isNew_ofFolders tree root title budget

/-- Two names are cached under one key if they are names of one kind and equal in lower case. -/
theorem cacheName_inj (m : MediaLibrary) {kind' : MediaKind} {other : String}
    (h : m.cacheName kind name = m.cacheName kind' other) :
    kind = kind' ∧ Text.lower name = Text.lower other := by
  have hchars : (kind.archive m.title).toList ++ "/".toList ++ (Text.lower name).toList =
      (kind'.archive m.title).toList ++ "/".toList ++ (Text.lower other).toList := by
    simpa only [cacheName, String.toList_append] using congrArg String.toList h
  have hhead : ∀ (kind : MediaKind) (rest : List Char),
      ((kind.archive m.title).toList ++ "/".toList ++ rest).head? =
        (kind.archive m.title).toList.head? := by
    intro kind rest
    obtain ⟨first, others, hfirst⟩ := List.exists_cons_of_ne_nil (kind.archive_ne_nil m.title)
    rw [hfirst]
    rfl
  have hkind : kind = kind' := by
    apply MediaKind.archive_head?_inj m.title
    rw [← hhead kind (Text.lower name).toList, hchars, hhead kind' (Text.lower other).toList]
  subst hkind
  exact ⟨rfl, String.toList_inj.mp (List.append_cancel_left hchars)⟩

/-- The view is what a new library reads for some name with that key, and is not too large to be
cached. -/
def ReadsAs (new : MediaLibrary) (entry : String × View) : Prop :=
  ∃ kind name, entry.1 = new.cacheName kind name ∧
    (new.readThrough kind name).1 = .ok entry.2 ∧ entry.2.length ≤ new.cache.budget

/-- A library that was `new` and has been used: its open archives and what it has cached are what a
new library reads. -/
structure UsedFrom (new m : MediaLibrary) : Prop where
  tree : m.tree = new.tree
  root : m.root = new.root
  title : m.title = new.title
  budget : m.cache.budget = new.cache.budget
  holding : (new.holding = .folders ∧ m.holding = .folders) ∨
    ∃ opened, new.holding = .archives [] ∧ m.holding = .archives opened ∧
      ∀ kind archive, opened.lookup kind = some archive → new.readArchive kind = .ok archive
  cached : ∀ entry ∈ m.cache.views, new.ReadsAs entry

theorem UsedFrom.refl (h : new.IsNew) : UsedFrom new new where
  tree := rfl
  root := rfl
  title := rfl
  budget := rfl
  holding := by
    rcases h.holding with hfolders | harchives
    · exact .inl ⟨hfolders, hfolders⟩
    · exact .inr ⟨[], harchives, harchives, by simp⟩
  cached := by
    rw [ByteCache.views, h.cache]
    simp

theorem IsNew.get?_cache (h : new.IsNew) (key : String) :
    new.cache.get? key = (none, new.cache.tick) := by
  simp [ByteCache.get?, h.cache]

theorem UsedFrom.cacheName (h : UsedFrom new m) (kind : MediaKind) (name : String) :
    m.cacheName kind name = new.cacheName kind name := by
  rw [MediaLibrary.cacheName, MediaLibrary.cacheName, h.title]

theorem UsedFrom.readArchive (h : UsedFrom new m) (kind : MediaKind) :
    m.readArchive kind = new.readArchive kind := by
  simp only [MediaLibrary.readArchive, h.title, h.tree, h.root]

theorem UsedFrom.readFile (h : UsedFrom new m) (kind : MediaKind) (name : String) :
    m.readFile kind name = new.readFile kind name := by
  simp only [MediaLibrary.readFile, h.title, h.tree, h.root]

/-- What is cached may change as long as all of it is what a new library reads. -/
theorem UsedFrom.withCache (h : UsedFrom new m) {cache : ByteCache}
    (hbudget : cache.budget = m.cache.budget)
    (hcached : ∀ entry ∈ cache.views, entry ∈ m.cache.views ∨ new.ReadsAs entry) :
    UsedFrom new { m with cache := cache } where
  tree := h.tree
  root := h.root
  title := h.title
  budget := hbudget.trans h.budget
  holding := h.holding
  cached := fun entry hentry => (hcached entry hentry).elim (h.cached entry) id

theorem UsedFrom.tick (h : UsedFrom new m) : UsedFrom new { m with cache := m.cache.tick } :=
  h.withCache rfl fun _ => .inl

/-- An archive is read once, and is what a new library reads. -/
theorem UsedFrom.archive (h : UsedFrom new m) {opened : List (MediaKind × Archive)}
    (hopened : m.holding = .archives opened) (kind : MediaKind) :
    (m.archive kind).1 = new.readArchive kind ∧ UsedFrom new (m.archive kind).2 := by
  obtain ⟨hnew, hread⟩ : new.holding = .archives [] ∧ ∀ kind archive,
      opened.lookup kind = some archive → new.readArchive kind = .ok archive := by
    rcases h.holding with ⟨-, hfolders⟩ | ⟨others, hnew, hothers, hread⟩
    · rw [hopened] at hfolders
      cases hfolders
    · obtain rfl := Holding.archives.inj (hopened.symm.trans hothers)
      exact ⟨hnew, hread⟩
  rw [MediaLibrary.archive, hopened]
  simp only
  split
  · rename_i archive hlookup
    exact ⟨(hread kind archive hlookup).symm, h⟩
  · rw [h.readArchive kind]
    split
    · rename_i fault hfault
      exact ⟨hfault.symm, h⟩
    · rename_i archive hfound
      refine ⟨hfound.symm, ⟨h.tree, h.root, h.title, h.budget, .inr ⟨_, hnew, rfl, ?_⟩, h.cached⟩⟩
      intro kind' archive' hlookup
      by_cases hkind : kind' = kind
      · subst hkind
        rw [List.lookup_cons_self] at hlookup
        exact hfound.trans (congrArg _ (Option.some.inj hlookup))
      · rw [List.lookup_cons, beq_false_of_ne hkind] at hlookup
        exact hread kind' archive' hlookup

/-- The part of reading an entry that comes after its archive was opened. -/
theorem readEntry_eq (m : MediaLibrary) (kind : MediaKind) (name : String) :
    m.readEntry kind name =
      ((m.archive kind).1 >>= fun archive =>
        match archive.find? (kind.fileName name) with
        | some entry => archive.content entry
        | none => .error (missing kind name), (m.archive kind).2) := by
  unfold readEntry
  rcases m.archive kind with ⟨outcome, m'⟩
  cases outcome with
  | error fault => rfl
  | ok archive =>
    simp only [exceptBind_ok]
    cases archive.find? (kind.fileName name) <;> rfl

/-- Past its cache a used library reads what a new one reads. -/
theorem UsedFrom.readThrough (hnew : new.IsNew) (h : UsedFrom new m) (kind : MediaKind)
    (name : String) :
    (m.readThrough kind name).1 = (new.readThrough kind name).1 ∧
      UsedFrom new (m.readThrough kind name).2 := by
  rcases h.holding with ⟨hfresh, hused⟩ | ⟨opened, hfresh, hused, -⟩
  · simp only [MediaLibrary.readThrough, hfresh, hused]
    exact ⟨h.readFile kind name, h⟩
  · by_cases hmovie : kind = .movie
    · subst hmovie
      simp only [MediaLibrary.readThrough, hfresh, hused]
      exact ⟨h.readFile .movie name, h⟩
    · have hentry (m : MediaLibrary) {opened} (hopened : m.holding = .archives opened) :
          m.readThrough kind name = m.readEntry kind name := by
        cases kind <;> simp_all [MediaLibrary.readThrough]
      obtain ⟨hmine, hstill⟩ := h.archive hused kind
      obtain ⟨hfirst, -⟩ := (UsedFrom.refl hnew).archive hfresh kind
      rw [hentry m hused, hentry new hfresh, readEntry_eq, readEntry_eq, hmine, hfirst]
      exact ⟨rfl, hstill⟩

/-- A new library reads what it loads. -/
theorem IsNew.load (h : new.IsNew) (kind : MediaKind) (name : String) :
    (new.load kind name).1 = (new.readThrough kind name).1 := by
  rw [← ((UsedFrom.refl h).tick.readThrough h kind name).1]
  simp only [MediaLibrary.load, h.get?_cache]
  split <;> simp [*]

/-- Loading from a used library leaves a used library, and gives what a new library gives for the
name or for another name with the same key. -/
theorem UsedFrom.load (hnew : new.IsNew) (h : UsedFrom new m) (kind : MediaKind) (name : String) :
    UsedFrom new (m.load kind name).2 ∧
      ((m.load kind name).1 = (new.load kind name).1 ∨
        ∃ other view, Text.lower other = Text.lower name ∧ (new.load kind other).1 = .ok view ∧
          view.length ≤ new.cache.budget ∧ (m.load kind name).1 = .ok view) := by
  rw [MediaLibrary.load, h.cacheName]
  rcases hget : m.cache.get? (new.cacheName kind name) with ⟨found, cache⟩
  cases found with
  | some view =>
    obtain ⟨hmem, hbudget, hold⟩ := ByteCache.get?_eq_some hget
    obtain ⟨kind', other, hkey, hread, hfits⟩ := h.cached _ hmem
    obtain ⟨rfl, hlower⟩ := new.cacheName_inj hkey
    refine ⟨h.withCache hbudget fun entry hentry => .inl (hold ▸ hentry),
      .inr ⟨other, view, hlower.symm, ?_, hfits, rfl⟩⟩
    rw [hnew.load, hread]
  | none =>
    obtain rfl := ByteCache.get?_eq_none hget
    obtain ⟨hsame, hstill⟩ := h.tick.readThrough hnew kind name
    simp only
    split
    · rename_i fault m' hread
      rw [hread] at hsame hstill
      exact ⟨hstill, .inl (hsame.trans (hnew.load kind name).symm)⟩
    · rename_i view m' hread
      rw [hread] at hsame hstill
      refine ⟨hstill.withCache (ByteCache.budget_insert ..) fun entry hentry => ?_,
        .inl (hsame.trans (hnew.load kind name).symm)⟩
      rcases ByteCache.mem_views_insert hentry with ⟨rfl, hfits⟩ | hold
      · rw [hstill.budget] at hfits
        exact .inr ⟨kind, name, rfl, hsame.symm, hfits⟩
      · exact .inl hold

/-- The library after some loads. -/
def after (m : MediaLibrary) (requests : List (MediaKind × String)) : MediaLibrary :=
  requests.foldl (fun m request => (m.load request.1 request.2).2) m

/-- The bytes of media, or why there are none. -/
def loadBytes (m : MediaLibrary) (kind : MediaKind) (name : String) : Except AssetFault Bytes :=
  (m.load kind name).1.map View.bytes

theorem UsedFrom.after (hnew : new.IsNew) (h : UsedFrom new m)
    (requests : List (MediaKind × String)) : UsedFrom new (m.after requests) := by
  induction requests generalizing m with
  | nil => exact h
  | cons request requests ih => exact ih (h.load hnew request.1 request.2).1

/-- Media that are not too large are found in the cache by any name with their key. -/
theorem load_after_load (hnew : new.IsNew) {view : View} {other : String}
    (hread : (new.load kind name).1 = .ok view) (hfits : view.length ≤ new.cache.budget)
    (hlower : Text.lower name = Text.lower other) :
    ((new.load kind name).2.load kind other).1 = .ok view := by
  obtain ⟨hsame, hused⟩ := (UsedFrom.refl hnew).tick.readThrough hnew kind name
  rcases hthrough : { new with cache := new.cache.tick }.readThrough kind name with ⟨outcome, m⟩
  rw [hnew.load, ← hsame, hthrough] at hread
  obtain rfl : outcome = .ok view := hread
  rw [hthrough] at hused
  have hload : new.load kind name =
      (.ok view, { m with cache := m.cache.insert (new.cacheName kind name) view }) := by
    simp only [MediaLibrary.load, hnew.get?_cache, hthrough]
  have hkey : new.cacheName kind other = new.cacheName kind name := by
    rw [MediaLibrary.cacheName, MediaLibrary.cacheName, hlower]
  have hkept := ByteCache.get?_insert (new.cacheName kind name)
    (show view.length ≤ m.cache.budget from hused.budget ▸ hfits)
  have hcacheName : (new.load kind name).2.cacheName kind other = new.cacheName kind name := by
    rw [((UsedFrom.refl hnew).load hnew kind name).1.cacheName, hkey]
  rw [MediaLibrary.load, hcacheName, hload]
  rcases hagain : (m.cache.insert (new.cacheName kind name) view).get?
    (new.cacheName kind name) with ⟨found, cache⟩
  rw [hagain] at hkept
  obtain rfl : found = some view := hkept
  rfl

/-- However a library was used, it gives for each name what a new library gives, if and only if two
names that are equal in lower case stand for the same bytes whenever those of one of them fit into
the cache. -/
theorem used_as_new_iff (hnew : new.IsNew) :
    (∀ requests kind name, (new.after requests).loadBytes kind name = new.loadBytes kind name) ↔
      ∀ kind name other bytes, Text.lower name = Text.lower other →
        new.loadBytes kind name = .ok bytes → bytes.length ≤ new.cache.budget →
          new.loadBytes kind other = .ok bytes := by
  constructor
  · intro hsame kind name other bytes hlower hbytes hfits
    obtain ⟨view, hread, rfl⟩ : ∃ view, (new.load kind name).1 = .ok view ∧ view.bytes = bytes := by
      rw [loadBytes] at hbytes
      cases hload : (new.load kind name).1 with
      | error fault =>
        rw [hload] at hbytes
        cases hbytes
      | ok view =>
        rw [hload] at hbytes
        exact ⟨view, rfl, Except.ok.inj hbytes⟩
    rw [View.length_bytes] at hfits
    rw [← hsame [(kind, name)] kind other]
    change ((new.load kind name).2.load kind other).1.map View.bytes = _
    rw [load_after_load hnew hread hfits hlower]
    rfl
  · intro hagree requests kind name
    have hused := (UsedFrom.refl hnew).after hnew requests
    rcases (hused.load hnew kind name).2 with hsame | ⟨other, view, hlower, hread, hfits, hfound⟩
    · rw [loadBytes, hsame, loadBytes]
    · have hother : new.loadBytes kind other = .ok view.bytes := by
        rw [loadBytes, hread]
        rfl
      rw [hagree kind other name view.bytes hlower hother (by rwa [View.length_bytes]), loadBytes,
        hfound]
      rfl

/-- An installed title has a script whose name is a wide letter. It is there under the small letter
alone, but in a library that has loaded it the capital letter finds it too. -/
theorem used_as_new_wide_letter :
    let new := ofInstalled ⟨[(["script", "\uff41.scr"], [0x53])], []⟩ [] .ever17 defaultCacheBudget
    new.loadBytes .script "\uff41" = .ok [0x53] ∧
      new.loadBytes .script "\uff21" = .error (missing .script "\uff21") ∧
      ¬ ∀ requests kind name,
        (new.after requests).loadBytes kind name = new.loadBytes kind name := by
  intro new
  have hnew : new.IsNew := isNew_ofInstalled ..
  have hsmall : MediaKind.script.fileName "\uff41" = "\uff41.scr" := by
    simp [MediaKind.fileName, MediaKind.extension?]
  have hcapital : MediaKind.script.fileName "\uff21" = "\uff21.scr" := by
    simp [MediaKind.fileName, MediaKind.extension?]
  have hthere : new.tree.find (new.root ++ ["script"]) "\uff41.scr" = .ok (some [0x53]) :=
    ok_of_toOption (by decide +kernel)
  have habsent : new.tree.find (new.root ++ ["script"]) "\uff21.scr" = .ok none :=
    ok_of_toOption (by decide +kernel)
  have hfound : new.loadBytes .script "\uff41" = .ok [0x53] := by
    rw [loadBytes, hnew.load]
    simp only [readThrough, readFile, hsmall, MediaKind.archive, hthere]
    rfl
  have hmissing : new.loadBytes .script "\uff21" = .error (missing .script "\uff21") := by
    rw [loadBytes, hnew.load]
    simp only [readThrough, readFile, hcapital, MediaKind.archive, habsent]
    rfl
  refine ⟨hfound, hmissing, fun hsame => ?_⟩
  have hlower : Text.lower "\uff41" = Text.lower "\uff21" := by decide +kernel
  have hother := (used_as_new_iff hnew).mp hsame .script _ _ _ hlower hfound (by decide)
  rw [hmissing] at hother
  cases hother

end MediaLibrary

end NovelScript
