import NovelScript.Proofs.Media.Cache
import Mathlib.Algebra.Order.BigOperators.Group.List
import Mathlib.Algebra.Order.Group.Nat
import Mathlib.Algebra.Ring.Nat
import Mathlib.Data.List.Nodup

/-! # What a byte cache keeps

After any requests the account of a cache is the bytes that it has, and within its budget. What it
gives for a name is what was put there last, and what it gives up for a new view is what was not
used for the longest time, no more of it than has to go. The room for it is found by sums, which
fit into 64 bits where the budget is no more than half of all addresses. The times at which entries were used last
are told by a clock that stands still for some requests, so they are compared with the places of
those uses among the requests. -/

namespace NovelScript

namespace ByteCache

/-- What a cache can be asked for: to give the view of a name, or to take one in. -/
inductive Request where
  | get (name : String)
  | insert (name : String) (view : View)

/-- The cache after a request. -/
def handle (c : ByteCache) : Request → ByteCache
  | .get name => (c.get? name).2
  | .insert name view => c.insert name view

/-- A new cache after some requests. The last request comes first. -/
def after (budget : Nat) : List Request → ByteCache
  | [] => empty budget
  | request :: earlier => (after budget earlier).handle request

/-- The name that a request finds in the cache or puts there. -/
def used? (c : ByteCache) : Request → Option String
  | .get name => if (c.entries.lookup name).isSome then some name else none
  | .insert name view => if view.length ≤ c.budget then some name else none

/-- How many requests there were up to the last one that used the name, or zero. -/
def lastUse (budget : Nat) (name : String) : List Request → Nat
  | [] => 0
  | request :: earlier =>
    if (after budget earlier).used? request = some name then earlier.length + 1
    else lastUse budget name earlier

/-- The view that was put under the name last, those not counted that are larger than the budget. -/
def lastKept (budget : Nat) (name : String) : List Request → Option View
  | [] => none
  | .get _ :: earlier => lastKept budget name earlier
  | .insert other view :: earlier =>
    if other = name ∧ view.length ≤ budget then some view else lastKept budget name earlier

/-- The bytes of some entries. -/
def weight (entries : List (String × CachedView)) : Nat :=
  (entries.map fun entry => entry.2.view.length).sum

/-- The names under which a cache has views. -/
def names (c : ByteCache) : List String :=
  c.entries.map Prod.fst

section Entries

variable {entries part : List (String × CachedView)} {entry other : String × CachedView}
variable {name : String} {cached : CachedView}

@[simp] theorem weight_nil : weight [] = 0 := rfl

@[simp] theorem weight_cons (entry : String × CachedView) (entries : List (String × CachedView)) :
    weight (entry :: entries) = entry.2.view.length + weight entries := by
  simp [weight]

theorem weight_le_of_sublist (h : part.Sublist entries) : weight part ≤ weight entries :=
  (h.map _).sum_le_sum fun _ _ => Nat.zero_le _

/-- Where names are told apart, an entry is known by its name. -/
theorem entry_eq_of_name (hnodup : (entries.map Prod.fst).Nodup) (hentry : entry ∈ entries)
    (hother : other ∈ entries) (hname : entry.1 = other.1) : entry = other :=
  List.inj_on_of_nodup_map hnodup hentry hother hname

/-- Where names are told apart, the entry that is looked up has the bytes that the others lack. -/
theorem weight_of_lookup (hnodup : (entries.map Prod.fst).Nodup)
    (h : entries.lookup name = some cached) :
    weight entries =
      cached.view.length + weight (entries.filter fun entry => entry.1 != name) := by
  induction entries with
  | nil => cases h
  | cons first rest ih =>
    obtain ⟨hfirst, hrest⟩ := List.nodup_cons.mp hnodup
    rw [List.lookup_cons] at h
    by_cases hname : name = first.1
    · have hothers : rest.filter (fun entry => entry.1 != name) = rest :=
        List.filter_eq_self.mpr fun entry hentry => bne_iff_ne.mpr fun hsame =>
          hfirst (List.mem_map.mpr ⟨entry, hentry, hsame.trans hname⟩)
      rw [beq_iff_eq.mpr hname] at h
      obtain rfl := Option.some.inj h
      simp [hothers, hname.symm]
    · rw [beq_false_of_ne hname] at h
      have hrest := ih hrest h
      simp [hrest, Ne.symm hname]
      omega

end Entries

section Accounts

variable {c : ByteCache} {name : String} {view : View} {needed : Nat}

/-- The names of a cache are told apart, and its account is the bytes that it has, which are no
more than its budget. -/
structure Balanced (c : ByteCache) : Prop where
  nodup : c.names.Nodup
  bytes_eq : c.bytes = weight c.entries
  bytes_le : c.bytes ≤ c.budget

theorem names_eq (c : ByteCache) : c.names = c.views.map Prod.fst := by
  simp [names, views]

theorem weight_eq (c : ByteCache) :
    weight c.entries = (c.views.map fun entry => entry.2.length).sum := by
  simp [weight, views, Function.comp_def]

theorem balanced_empty (budget : Nat) : (empty budget).Balanced :=
  ⟨List.nodup_nil, rfl, Nat.zero_le _⟩

@[simp] theorem views_get? (c : ByteCache) (name : String) : (c.get? name).2.views = c.views := by
  rw [get?]
  split
  · rfl
  · exact views_touch ..

/-- Whether a cache is balanced does not depend on the times of its entries. -/
theorem Balanced.of_views {c' : ByteCache} (h : c.Balanced) (hviews : c'.views = c.views)
    (hbytes : c'.bytes = c.bytes) (hbudget : c'.budget = c.budget) : c'.Balanced where
  nodup := by
    rw [names_eq, hviews, ← names_eq]
    exact h.nodup
  bytes_eq := by
    rw [hbytes, h.bytes_eq, weight_eq, weight_eq, hviews]
  bytes_le := by
    rw [hbytes, hbudget]
    exact h.bytes_le

theorem Balanced.tick (h : c.Balanced) : c.tick.Balanced :=
  h.of_views rfl rfl rfl

theorem Balanced.get? (h : c.Balanced) (name : String) : (c.get? name).2.Balanced := by
  refine h.of_views (views_get? ..) ?_ ?_ <;>
  · rw [ByteCache.get?]
    split <;> rfl

theorem Balanced.remove (h : c.Balanced) (name : String) : (c.remove name).Balanced := by
  have hnodup : (c.remove name).names.Nodup := by
    rw [names, entries_remove]
    exact (List.filter_sublist.map _).nodup h.nodup
  refine ⟨hnodup, ?_, ?_⟩
  · rw [entries_remove]
    unfold ByteCache.remove
    split
    · rename_i hlookup
      rw [h.bytes_eq, List.filter_eq_self.mpr fun entry hentry => ?_]
      rw [bne_comm]
      exact List.lookup_eq_none_iff.mp hlookup entry hentry
    · rename_i cached hlookup
      rw [h.bytes_eq, weight_of_lookup h.nodup hlookup]
      exact Nat.add_sub_cancel_left ..
  · rw [budget_remove]
    refine Nat.le_trans ?_ h.bytes_le
    unfold ByteCache.remove
    split
    · exact Nat.le_refl _
    · exact Nat.sub_le ..

theorem entries_of_oldest?_eq_none (h : c.oldest? = none) : c.entries = [] := by
  by_contra hsome
  rw [oldest?, List.minOn?_eq_some_minOn hsome] at h
  cases h

theorem lastUsed_oldest?_le {oldest other : String × CachedView} (h : c.oldest? = some oldest)
    (hother : other ∈ c.entries) : oldest.2.lastUsed ≤ other.2.lastUsed := by
  have hfirst := List.apply_get_minOn?_le_of_mem (f := fun entry : String × CachedView =>
    entry.2.lastUsed) hother
  simp only [← oldest?.eq_1, h, Option.get_some] at hfirst
  exact hfirst

theorem Balanced.makeRoom (h : c.Balanced) (needed : Nat) : (c.makeRoom needed).Balanced := by
  fun_induction ByteCache.makeRoom c needed with
  | case1 c _ _ => exact h
  | case2 c _ entry _ ih => exact ih (h.remove entry.1)
  | case3 c _ => exact h

/-- Room is made for all that is not larger than the budget. -/
theorem Balanced.makeRoom_fits (h : c.Balanced) (hneeded : needed ≤ c.budget) :
    (c.makeRoom needed).bytes + needed ≤ c.budget := by
  fun_induction ByteCache.makeRoom c needed with
  | case1 c hfull hnone =>
    have hempty : c.entries = [] := entries_of_oldest?_eq_none hnone
    rw [h.bytes_eq, hempty, weight_nil] at hfull
    omega
  | case2 c _ entry _ ih =>
    rw [budget_remove] at ih
    exact ih (h.remove entry.1) hneeded
  | case3 c hfits => exact Nat.le_of_not_lt hfits

/-- What has to go for some room is older than what stays. When it went, it and all that is not
older left too little of the budget. -/
theorem Balanced.evicted_by_makeRoom (h : c.Balanced) {gone : String × CachedView}
    (hgone : gone ∈ c.entries) (hafter : gone ∉ (c.makeRoom needed).entries) :
    (∀ kept ∈ (c.makeRoom needed).entries, gone.2.lastUsed ≤ kept.2.lastUsed) ∧
      c.budget < needed +
        weight (c.entries.filter fun entry => gone.2.lastUsed ≤ entry.2.lastUsed) := by
  fun_induction ByteCache.makeRoom c needed with
  | case1 c _ _ => exact absurd hgone hafter
  | case2 c hfull oldest holdest ih =>
    have hfirst : ∀ other ∈ c.entries, oldest.2.lastUsed ≤ other.2.lastUsed :=
      fun _ => lastUsed_oldest?_le holdest
    by_cases hname : gone.1 = oldest.1
    · obtain rfl := entry_eq_of_name h.nodup hgone (mem_of_oldest? holdest) hname
      refine ⟨fun kept hkept => hfirst kept ?_, ?_⟩
      · have hstill := (entries_makeRoom_sublist ..).subset hkept
        rw [entries_remove] at hstill
        exact (List.mem_filter.mp hstill).1
      · rw [List.filter_eq_self.mpr fun other hother => decide_eq_true (hfirst other hother),
          ← h.bytes_eq]
        omega
    · have hstill : gone ∈ (c.remove oldest.1).entries := by
        rw [entries_remove]
        exact List.mem_filter.mpr ⟨hgone, bne_iff_ne.mpr hname⟩
      obtain ⟨hold, hroom⟩ := ih (h.remove oldest.1) hstill hafter
      refine ⟨hold, ?_⟩
      rw [budget_remove, entries_remove] at hroom
      exact Nat.lt_of_lt_of_le hroom
        (Nat.add_le_add_left (weight_le_of_sublist (List.filter_sublist.filter _)) needed)
  | case3 c _ => exact absurd hgone hafter

/-- The cache without the name and with room for the view, before the one is put there under the
other. -/
def roomFor (c : ByteCache) (name : String) (view : View) : ByteCache :=
  (c.tick.remove name).makeRoom view.length

theorem insert_of_lt (h : c.budget < view.length) : c.insert name view = c :=
  if_pos h

theorem insert_of_le (h : view.length ≤ c.budget) :
    c.insert name view =
      { c.roomFor name view with
        entries := (name, ⟨view, (c.roomFor name view).clock⟩) :: (c.roomFor name view).entries
        bytes := min ((c.roomFor name view).bytes + view.length) maxAddress } :=
  if_neg (Nat.not_lt.mpr h)

@[simp] theorem clock_remove (c : ByteCache) (name : String) :
    (c.remove name).clock = c.clock := by
  unfold remove
  split <;> rfl

theorem clock_makeRoom (c : ByteCache) (needed : Nat) :
    (c.makeRoom needed).clock = c.clock := by
  fun_induction makeRoom c needed with
  | case1 c _ _ => rfl
  | case2 c _ entry _ ih => rw [ih, clock_remove]
  | case3 c _ => rfl

@[simp] theorem clock_roomFor (c : ByteCache) (name : String) (view : View) :
    (c.roomFor name view).clock = c.clock + 1 := by
  rw [roomFor, clock_makeRoom, clock_remove, tick]

@[simp] theorem budget_roomFor (c : ByteCache) (name : String) (view : View) :
    (c.roomFor name view).budget = c.budget := by
  rw [roomFor, budget_makeRoom, budget_remove, budget_tick]

theorem mem_of_mem_roomFor {entry : String × CachedView}
    (h : entry ∈ (c.roomFor name view).entries) : entry ∈ c.entries ∧ entry.1 ≠ name := by
  have hstill := (entries_makeRoom_sublist ..).subset h
  simpa [entries_remove, entries_tick] using hstill

theorem Balanced.insert (h : c.Balanced) (hbudget : c.budget ≤ maxAddress) (name : String)
    (view : View) : (c.insert name view).Balanced := by
  rcases Nat.lt_or_ge c.budget view.length with hlarge | hview
  · rw [insert_of_lt hlarge]
    exact h
  · have hroom : (c.roomFor name view).Balanced := (h.tick.remove name).makeRoom _
    have hfits : (c.roomFor name view).bytes + view.length ≤ (c.tick.remove name).budget :=
      (h.tick.remove name).makeRoom_fits (by rwa [budget_remove])
    rw [budget_remove, budget_tick] at hfits
    have hnew : name ∉ (c.roomFor name view).names := fun hmem => by
      obtain ⟨entry, hentry, hname⟩ := List.mem_map.mp hmem
      exact (mem_of_mem_roomFor hentry).2 hname
    rw [insert_of_le hview, Nat.min_eq_left (hfits.trans hbudget)]
    refine ⟨List.nodup_cons.mpr ⟨hnew, hroom.nodup⟩, ?_, ?_⟩
    · rw [weight_cons, hroom.bytes_eq, Nat.add_comm]
    · rwa [budget_roomFor]

/-- Nothing has to go for a view that is not taken in. -/
theorem le_budget_of_evicted {gone : String} (hgone : gone ∈ c.names)
    (hafter : gone ∉ (c.insert name view).names) : view.length ≤ c.budget := by
  by_contra hlarge
  rw [insert_of_lt (Nat.lt_of_not_le hlarge)] at hafter
  exact hafter hgone

/-- What has to go for a view has another name, is older than all that stays, and with what is not
older left too little of the budget. -/
theorem Balanced.evicted_by_insert (h : c.Balanced) {gone : String × CachedView}
    (hgone : gone ∈ c.entries) (hafter : gone.1 ∉ (c.insert name view).names) :
    (∀ kept ∈ (c.insert name view).entries,
        kept.1 = name ∨ kept ∈ c.entries ∧ gone.2.lastUsed ≤ kept.2.lastUsed) ∧
      c.budget < view.length + weight (c.entries.filter fun entry =>
        gone.2.lastUsed ≤ entry.2.lastUsed ∧ entry.1 ≠ name) := by
  have hview := le_budget_of_evicted (List.mem_map_of_mem hgone) hafter
  rw [insert_of_le hview] at hafter ⊢
  obtain ⟨hname, hroom⟩ := not_or.mp (mt List.mem_cons.mpr hafter)
  have hother : gone ∈ (c.tick.remove name).entries := by
    rw [entries_remove]
    exact List.mem_filter.mpr ⟨hgone, bne_iff_ne.mpr hname⟩
  obtain ⟨hold, hfull⟩ := (h.tick.remove name).evicted_by_makeRoom hother
    fun hstill => hroom (List.mem_map_of_mem hstill)
  constructor
  · intro kept hkept
    rcases List.mem_cons.mp hkept with rfl | hkept
    · exact .inl rfl
    · exact .inr ⟨(mem_of_mem_roomFor hkept).1, hold kept hkept⟩
  · rw [budget_remove, entries_remove, entries_tick, List.filter_filter] at hfull
    simpa [bne, beq_eq_decide] using hfull

theorem Balanced.handle (h : c.Balanced) (hbudget : c.budget ≤ maxAddress) (request : Request) :
    (c.handle request).Balanced := by
  cases request with
  | get name => exact h.get? name
  | insert name view => exact h.insert hbudget name view

@[simp] theorem budget_handle (c : ByteCache) (request : Request) :
    (c.handle request).budget = c.budget := by
  cases request with
  | get name =>
    rw [handle, get?]
    split <;> rfl
  | insert name view => exact budget_insert ..

@[simp] theorem budget_after (budget : Nat) (requests : List Request) :
    (after budget requests).budget = budget := by
  induction requests with
  | nil => rfl
  | cons request earlier ih => rw [after, budget_handle, ih]

theorem balanced_after {budget : Nat} (hbudget : budget ≤ maxAddress) (requests : List Request) :
    (after budget requests).Balanced := by
  induction requests with
  | nil => exact balanced_empty budget
  | cons request earlier ih => exact ih.handle (by rwa [budget_after]) request

end Accounts

/-! ## Sums of 64 bits -/

section Sums

variable {c : ByteCache} {needed : Nat}

/-- The cache with room made by sums of 64 bits, or none where such a sum overflows. -/
def makeRoom? (c : ByteCache) (needed : Nat) : Option ByteCache :=
  if maxAddress < c.bytes + needed then none
  else if c.budget < c.bytes + needed then
    match _holdest : c.oldest? with
    | none => some c
    | some entry => (c.remove entry.1).makeRoom? needed
  else some c
termination_by c.entries.length
decreasing_by exact length_remove_lt (mem_of_oldest? ‹_›)

theorem bytes_remove_le (c : ByteCache) (name : String) : (c.remove name).bytes ≤ c.bytes := by
  unfold remove
  split
  · exact Nat.le_refl _
  · exact Nat.sub_le ..

/-- What is held only falls, so all sums fit if the first one does. -/
theorem makeRoom?_eq (h : c.AddsUp needed) : c.makeRoom? needed = some (c.makeRoom needed) := by
  fun_induction makeRoom c needed with
  | case1 c hfull hnone =>
    rw [makeRoom?, if_neg (Nat.not_lt.mpr h), if_pos hfull]
    split
    · rfl
    · rename_i hsome
      rw [hnone] at hsome
      cases hsome
  | case2 c hfull entry holdest ih =>
    rw [makeRoom?, if_neg (Nat.not_lt.mpr h), if_pos hfull]
    split
    · rename_i hnone
      rw [holdest] at hnone
      cases hnone
    · rename_i other hother
      obtain rfl := Option.some.inj (holdest.symm.trans hother)
      exact ih (Nat.le_trans (Nat.add_le_add_right (bytes_remove_le c entry.1) needed) h)
  | case3 c hfits => rw [makeRoom?, if_neg (Nat.not_lt.mpr h), if_neg hfits]

/-- Within half of all addresses what is held and what is needed add up. -/
theorem Balanced.addsUp (h : c.Balanced) (hbudget : c.budget ≤ maxAddress / 2)
    (hneeded : needed ≤ c.budget) : c.AddsUp needed := by
  have hbytes := h.bytes_le
  rw [AddsUp]
  omega

/-- After any requests to a cache with such a budget no sum overflows for which room is made. -/
theorem makeRoom?_after {budget : Nat} (hbudget : budget ≤ maxAddress / 2) (requests : List Request)
    (name : String) {view : View} (hview : view.length ≤ budget) :
    ((after budget requests).tick.remove name).makeRoom? view.length =
      some ((after budget requests).roomFor name view) := by
  have hbalanced : ((after budget requests).tick.remove name).Balanced :=
    (balanced_after (by omega) requests).tick.remove name
  have hsame : ((after budget requests).tick.remove name).budget = budget := by
    rw [budget_remove, budget_tick, budget_after]
  exact makeRoom?_eq (hbalanced.addsUp (by rwa [hsame]) (by rwa [hsame]))

end Sums

section Uses

variable {c : ByteCache} {budget : Nat} {request : Request} {earlier requests : List Request}
variable {name other : String} {view : View}

theorem used?_get_eq_some :
    c.used? (.get other) = some name ↔
      other = name ∧ ∃ cached, c.entries.lookup other = some cached := by
  rw [← Option.isSome_iff_exists]
  simp [used?, and_comm]

theorem used?_insert_eq_some :
    c.used? (.insert other view) = some name ↔ other = name ∧ view.length ≤ c.budget := by
  simp [used?, and_comm]

/-- A request that uses no name leaves the entries as they are. -/
theorem entries_handle_of_unused (h : c.used? request = none) :
    (c.handle request).entries = c.entries := by
  cases request with
  | get name =>
    rw [handle, get?]
    split
    · rfl
    · rename_i cached hlookup
      cases h.symm.trans (used?_get_eq_some.mpr ⟨rfl, cached, hlookup⟩)
  | insert name view =>
    rw [handle, insert_of_lt]
    by_contra hview
    cases h.symm.trans (used?_insert_eq_some.mpr ⟨rfl, Nat.le_of_not_lt hview⟩)

/-- A request that uses a name moves the clock on. -/
theorem clock_handle_of_used (h : c.used? request = some name) :
    (c.handle request).clock = c.clock + 1 := by
  cases request with
  | get other =>
    rw [handle, get?]
    split <;> rfl
  | insert other view =>
    rw [handle, insert_of_le (used?_insert_eq_some.mp h).2]
    exact clock_roomFor ..

/-- After a request that uses a name its entry has the time of the clock, and all other entries are
as they were. -/
theorem mem_handle_of_used (h : c.used? request = some name) {entry : String × CachedView}
    (hentry : entry ∈ (c.handle request).entries) :
    (entry.1 = name ∧ entry.2.lastUsed = c.clock + 1) ∨ (entry ∈ c.entries ∧ entry.1 ≠ name) := by
  cases request with
  | get other =>
    obtain ⟨rfl, cached, hlookup⟩ := used?_get_eq_some.mp h
    rw [handle, get?, hlookup] at hentry
    obtain ⟨old, hold, rfl⟩ := List.mem_map.mp hentry
    by_cases hname : old.1 = other
    · rw [if_pos hname]
      exact .inl ⟨hname, rfl⟩
    · rw [if_neg hname]
      exact .inr ⟨hold, hname⟩
  | insert other view =>
    obtain ⟨rfl, hview⟩ := used?_insert_eq_some.mp h
    rw [handle, insert_of_le hview] at hentry
    rcases List.mem_cons.mp hentry with rfl | hold
    · exact .inl ⟨rfl, clock_roomFor ..⟩
    · exact .inr (mem_of_mem_roomFor hold)

/-- A request moves the clock on by at most one. -/
theorem clock_handle (c : ByteCache) (request : Request) :
    (c.handle request).clock = c.clock ∨ (c.handle request).clock = c.clock + 1 := by
  cases request with
  | get name =>
    rw [handle, get?]
    split <;> exact .inr rfl
  | insert name view =>
    rw [handle]
    rcases Nat.lt_or_ge c.budget view.length with hlarge | hview
    · rw [insert_of_lt hlarge]
      exact .inl rfl
    · rw [insert_of_le hview]
      exact .inr (clock_roomFor ..)

theorem lastUse_le_length (budget : Nat) (name : String) (requests : List Request) :
    lastUse budget name requests ≤ requests.length := by
  induction requests with
  | nil => exact Nat.le_refl _
  | cons request earlier ih =>
    rw [lastUse, List.length_cons]
    split
    · exact Nat.le_refl _
    · omega

/-- Two names are not used by one request. -/
theorem lastUse_inj (hused : 0 < lastUse budget name requests)
    (h : lastUse budget name requests = lastUse budget other requests) : name = other := by
  induction requests with
  | nil => exact absurd hused (Nat.lt_irrefl 0)
  | cons request earlier ih =>
    have hname := lastUse_le_length budget name earlier
    have hother := lastUse_le_length budget other earlier
    simp only [lastUse] at hused h
    split at h <;> split at h
    · exact Option.some.inj (‹_ = some name›.symm.trans ‹_›)
    · omega
    · omega
    · rw [if_neg ‹_›] at hused
      exact ih hused h

theorem lastUse_of_used (h : (after budget earlier).used? request = some name) :
    lastUse budget name (request :: earlier) = earlier.length + 1 :=
  if_pos h

theorem lastUse_of_ne (h : (after budget earlier).used? request ≠ some name) :
    lastUse budget name (request :: earlier) = lastUse budget name earlier :=
  if_neg h

/-- Times tell in which order the entries of a cache were used last. -/
structure Timed (budget : Nat) (requests : List Request) : Prop where
  clock_le : (after budget requests).clock.toNat ≤ requests.length
  lastUsed_le : ∀ entry ∈ (after budget requests).entries,
    entry.2.lastUsed.toNat ≤ (after budget requests).clock.toNat
  used : ∀ entry ∈ (after budget requests).entries, 0 < lastUse budget entry.1 requests
  lt_iff : ∀ entry ∈ (after budget requests).entries, ∀ other ∈ (after budget requests).entries,
    entry.2.lastUsed.toNat < other.2.lastUsed.toNat ↔
      lastUse budget entry.1 requests < lastUse budget other.1 requests

theorem timed_nil (budget : Nat) : Timed budget [] where
  clock_le := Nat.le_refl 0
  lastUsed_le := fun _ hentry => absurd hentry List.not_mem_nil
  used := fun _ hentry => absurd hentry List.not_mem_nil
  lt_iff := fun _ hentry => absurd hentry List.not_mem_nil

theorem Timed.unused (h : Timed budget earlier)
    (hunused : (after budget earlier).used? request = none)
    (hclock : (after budget earlier).clock.toNat ≤ (after budget (request :: earlier)).clock.toNat)
    (hlength : (after budget (request :: earlier)).clock.toNat ≤ earlier.length + 1) :
    Timed budget (request :: earlier) := by
  have hentries : (after budget (request :: earlier)).entries = (after budget earlier).entries :=
    entries_handle_of_unused hunused
  have hlast (name : String) :
      lastUse budget name (request :: earlier) = lastUse budget name earlier :=
    lastUse_of_ne fun hused => Option.some_ne_none name (hused.symm.trans hunused)
  refine ⟨hlength, ?_, ?_, ?_⟩
  · rw [hentries]
    exact fun entry hentry => (h.lastUsed_le entry hentry).trans hclock
  · simp only [hentries, hlast]
    exact h.used
  · simp only [hentries, hlast]
    exact h.lt_iff

theorem Timed.use (h : Timed budget earlier)
    (hused : (after budget earlier).used? request = some name)
    (hclock : (after budget (request :: earlier)).clock.toNat =
      (after budget earlier).clock.toNat + 1) :
    Timed budget (request :: earlier) := by
  -- an entry was used by the request, or it is as it was and was used before
  have hentries : ∀ entry ∈ (after budget (request :: earlier)).entries,
      (entry.2.lastUsed.toNat = (after budget earlier).clock.toNat + 1 ∧
        lastUse budget entry.1 (request :: earlier) = earlier.length + 1) ∨
      (entry ∈ (after budget earlier).entries ∧
        lastUse budget entry.1 (request :: earlier) = lastUse budget entry.1 earlier) := by
    intro entry hentry
    rcases mem_handle_of_used hused hentry with ⟨rfl, htime⟩ | ⟨hold, hname⟩
    · refine .inl ⟨?_, lastUse_of_used hused⟩
      rw [htime, ← clock_handle_of_used hused]
      exact hclock
    · refine .inr ⟨hold, lastUse_of_ne fun hsame => hname ?_⟩
      exact Option.some.inj (hsame.symm.trans hused)
  have hbound := h.clock_le
  refine ⟨by rw [hclock, List.length_cons]; omega, fun entry hentry => ?_, fun entry hentry => ?_,
    fun entry hentry other hother => ?_⟩
  · rcases hentries entry hentry with ⟨htime, -⟩ | ⟨hold, -⟩
    · omega
    · have := h.lastUsed_le entry hold
      omega
  · rcases hentries entry hentry with ⟨-, hlast⟩ | ⟨hold, hlast⟩
    · omega
    · rw [hlast]
      exact h.used entry hold
  · have hbefore (entry) (hold : entry ∈ (after budget earlier).entries) :=
      And.intro (h.lastUsed_le entry hold) (lastUse_le_length budget entry.1 earlier)
    rcases hentries entry hentry with ⟨htime, hlast⟩ | ⟨hold, hlast⟩ <;>
      rcases hentries other hother with ⟨htime', hlast'⟩ | ⟨hold', hlast'⟩ <;>
      rw [hlast, hlast']
    · omega
    · have := hbefore other hold'
      omega
    · have := hbefore entry hold
      omega
    · exact h.lt_iff entry hold other hold'

theorem timed (budget : Nat) (hlength : requests.length < 2 ^ 64) : Timed budget requests := by
  induction requests with
  | nil => exact timed_nil budget
  | cons request earlier ih =>
    rw [List.length_cons] at hlength
    have h := ih (by omega)
    have hbound := h.clock_le
    have hnext : ((after budget earlier).clock + 1).toNat =
        (after budget earlier).clock.toNat + 1 := by
      rw [UInt64.toNat_add, UInt64.toNat_one, Nat.mod_eq_of_lt (by omega)]
    cases hrequest : (after budget earlier).used? request with
    | none =>
      rcases clock_handle (after budget earlier) request with hclock | hclock <;>
        refine h.unused hrequest ?_ ?_ <;> rw [after, hclock] <;> omega
    | some name =>
      refine h.use hrequest ?_
      rw [after, clock_handle_of_used hrequest, hnext]

/-- What a cache has under a name was put there last. -/
theorem lastKept_of_mem_views {entry : String × View} (h : entry ∈ (after budget requests).views) :
    lastKept budget entry.1 requests = some entry.2 := by
  induction requests with
  | nil => cases h
  | cons request earlier ih =>
    cases request with
    | get name =>
      rw [after, handle, views_get?] at h
      exact ih h
    | insert name view =>
      rw [after, handle] at h
      rcases Nat.lt_or_ge budget view.length with hlarge | hview
      · rw [insert_of_lt (by rwa [budget_after])] at h
        rw [lastKept, if_neg fun hkept => Nat.not_le.mpr hlarge hkept.2]
        exact ih h
      · rw [insert_of_le (by rwa [budget_after])] at h
        rcases List.mem_cons.mp h with rfl | h
        · exact if_pos ⟨rfl, hview⟩
        · obtain ⟨old, hold, rfl⟩ := List.mem_map.mp h
          obtain ⟨hentry, hname⟩ := mem_of_mem_roomFor hold
          rw [lastKept, if_neg fun hkept => hname hkept.1.symm]
          exact ih (List.mem_map_of_mem hentry)

/-- The entries of other names than the given one that were used last when `gone` was, or later. -/
def usedSince (budget : Nat) (gone name : String) (requests : List Request) :
    List (String × CachedView) :=
  (after budget requests).entries.filter fun entry =>
    lastUse budget gone requests ≤ lastUse budget entry.1 requests ∧ entry.1 ≠ name

/-- What an insertion evicts was used last before all that it leaves, and as long as it was there
the new view did not fit. -/
theorem evicted_by_insert (hbudget : budget ≤ maxAddress) (hlength : earlier.length + 1 < 2 ^ 64)
    {gone : String} (hgone : gone ∈ (after budget earlier).names)
    (hafter : gone ∉ (after budget (.insert name view :: earlier)).names) :
    (∀ kept ∈ (after budget (.insert name view :: earlier)).names,
        lastUse budget gone earlier < lastUse budget kept (.insert name view :: earlier)) ∧
      budget < view.length + weight (usedSince budget gone name earlier) := by
  have htimed := timed budget (show earlier.length < 2 ^ 64 by omega)
  obtain ⟨old, hold, rfl⟩ := List.mem_map.mp hgone
  obtain ⟨hstay, hfull⟩ := (balanced_after hbudget earlier).evicted_by_insert hold hafter
  have hview := le_budget_of_evicted hgone hafter
  have hused : (after budget earlier).used? (.insert name view) = some name := if_pos hview
  have hle (entry) (hentry : entry ∈ (after budget earlier).entries) :
      old.2.lastUsed ≤ entry.2.lastUsed ↔
        lastUse budget old.1 earlier ≤ lastUse budget entry.1 earlier := by
    rw [UInt64.le_iff_toNat_le, ← Nat.not_lt, htimed.lt_iff entry hentry old hold, Nat.not_lt]
  constructor
  · intro kept hkept
    obtain ⟨entry, hentry, rfl⟩ := List.mem_map.mp hkept
    by_cases hname : entry.1 = name
    · rw [hname, lastUse_of_used hused]
      have := lastUse_le_length budget old.1 earlier
      omega
    · obtain ⟨hmem, htime⟩ := (hstay entry hentry).resolve_left hname
      rw [lastUse_of_ne fun hsame => hname (Option.some.inj (hused.symm.trans hsame)).symm]
      refine Nat.lt_of_le_of_ne ((hle entry hmem).mp htime) fun hsame => hafter ?_
      rw [lastUse_inj (htimed.used old hold) hsame]
      exact hkept
  · rw [budget_after] at hfull
    rwa [usedSince, List.filter_congr fun entry hentry =>
      decide_eq_decide.mpr (and_congr (hle entry hentry).symm Iff.rfl)]

/-- After fewer requests than there are times, the account of a cache is the bytes that it has, and
within the budget; what it gives for a name was put there last; and what an insertion evicts was
used last before all that it leaves, the new view not fitting as long as it was there. -/
theorem keeps_last_used (hbudget : budget ≤ maxAddress) (hlength : requests.length < 2 ^ 64) :
    let c := after budget requests
    c.bytes = weight c.entries ∧ c.bytes ≤ budget ∧
      (∀ name view, (c.get? name).1 = some view → lastKept budget name requests = some view) ∧
      ∀ name view earlier, requests = .insert name view :: earlier →
        ∀ gone ∈ (after budget earlier).names, gone ∉ c.names →
          (∀ kept ∈ c.names, lastUse budget gone earlier < lastUse budget kept requests) ∧
            budget < view.length + weight (usedSince budget gone name earlier) := by
  intro c
  have hbalanced : c.Balanced := balanced_after hbudget requests
  refine ⟨hbalanced.bytes_eq, ?_, fun name view hhit => ?_, ?_⟩
  · rw [← budget_after budget requests]
    exact hbalanced.bytes_le
  · have hfound : c.get? name = (some view, (c.get? name).2) := Prod.ext hhit rfl
    exact lastKept_of_mem_views (get?_eq_some hfound).1
  · rintro name view earlier rfl gone hgone hafter
    exact evicted_by_insert hbudget hlength hgone hafter

/-- Of two names the one is given up that was not asked for again. -/
theorem keeps_last_used_two_names :
    let view := View.ofBytes [0x53]
    let earlier := [.get "a", .insert "b" view, .insert "a" view]
    let requests := .insert "c" view :: earlier
    2 ≤ maxAddress ∧ requests.length < 2 ^ 64 ∧
      ((after 2 requests).get? "a").1 = some view ∧ lastKept 2 "a" requests = some view ∧
      "b" ∈ (after 2 earlier).names ∧ "b" ∉ (after 2 requests).names ∧
      lastUse 2 "b" earlier < lastUse 2 "a" requests ∧
      2 < view.length + weight (usedSince 2 "b" "c" earlier) := by
  intro view earlier requests
  have hbudget : 2 ≤ maxAddress := by decide
  have hlength : requests.length < 2 ^ 64 := by decide
  have hhit : ((after 2 requests).get? "a").1 = some view := by decide +kernel
  have hgone : "b" ∈ (after 2 earlier).names := by decide +kernel
  have hafter : "b" ∉ (after 2 requests).names := by decide +kernel
  obtain ⟨-, -, hkept, hevicted⟩ := keeps_last_used hbudget hlength
  obtain ⟨hlast, hfull⟩ := hevicted "c" view earlier rfl "b" hgone hafter
  exact ⟨hbudget, hlength, hhit, hkept "a" view hhit, hgone, hafter,
    hlast "a" (by decide +kernel), hfull⟩

end Uses

end ByteCache

end NovelScript
