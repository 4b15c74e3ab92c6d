import NovelScript.Proofs.Play.Calls

/-! # Rewinding

Going back to an entry of the backlog works from every player that a new one becomes, and is exact:
the player stands where it stood when the entry was made, with the token lists of that moment. -/

namespace NovelScript

namespace Play

variable {μ : Type} {serve : MediaKind → String → Except Fault View} {good : μ → Prop}

/-- Notes a player that was passed: `taken` holds, for each entry of the backlog, the player that
was passed when the entry was made. -/
def stamp (taken : List (Player μ)) (p : Player μ) : List (Player μ) :=
  if taken.length < p.backlog.length then taken ++ [p] else taken.take p.backlog.length

/-- What is known of the moment at which an entry of a backlog was made. -/
structure MadeAt (serve : MediaKind → String → Except Fault View) (p : Player μ) (index : Nat)
    (entry : BacklogEntry) (moment : Player μ) : Prop where
  backlog : moment.backlog = p.backlog.take (index + 1)
  shows : entry.Shows moment.state
  resumes : Resumes serve p.options entry.state moment.events moment.conv

/-- The moments at which the entries of a sound player's backlog were made. -/
structure Stamped (serve : MediaKind → String → Except Fault View) (good : μ → Prop)
    (taken : List (Player μ)) (p : Player μ) : Prop where
  sound : Sound serve good p
  length : taken.length = p.backlog.length
  madeAt : ∀ {index entry moment}, p.backlog[index]? = some entry → taken[index]? = some moment →
    MadeAt serve p index entry moment

theorem Stamped.cut {taken : List (Player μ)} {p p' : Player μ} (h : Stamped serve good taken p)
    (hsteps : Steps serve good p p') {count : Nat} (hcut : p'.backlog = p.backlog.take count) :
    Stamped serve good (stamp taken p') p' := by
  have hlength : ¬ taken.length < p'.backlog.length := by
    rw [hcut, h.length, List.length_take]
    omega
  rw [stamp, if_neg hlength]
  refine ⟨hsteps.sound, ?_, ?_⟩
  · rw [List.length_take]
    omega
  · intro index entry moment hentry hmoment
    have hindex : index < p'.backlog.length := (List.getElem?_eq_some_iff.mp hentry).1
    rw [List.getElem?_take_of_lt hindex] at hmoment
    have hcount : index < count := by
      rw [hcut, List.length_take] at hindex
      omega
    rw [hcut, List.getElem?_take_of_lt hcount] at hentry
    obtain ⟨hbacklog, hshows, hresumes⟩ := h.madeAt hentry hmoment
    refine ⟨?_, hshows, hsteps.options ▸ hresumes⟩
    rw [hbacklog, hcut, List.take_take, Nat.min_eq_left hcount]

/-- Every step keeps the moments. -/
theorem Stamped.step {taken : List (Player μ)} {p p' : Player μ} (h : Stamped serve good taken p)
    (hsteps : Steps serve good p p') : Stamped serve good (stamp taken p') p' := by
  cases hsteps.backlog with
  | keeps hkept =>
    rw [← List.take_length (l := p.backlog)] at hkept
    exact h.cut hsteps hkept
  | cuts count hcut => exact h.cut hsteps hcut
  | adds added hadded hshows hresumes =>
    have hlength : taken.length < p'.backlog.length := by
      rw [hadded, h.length, List.length_append]
      exact Nat.lt_succ_self _
    rw [stamp, if_pos hlength]
    refine ⟨hsteps.sound, ?_, ?_⟩
    · rw [hadded, List.length_append, List.length_append, h.length]
      rfl
    · intro index entry moment hentry hmoment
      rcases Nat.lt_or_ge index taken.length with hindex | hindex
      · have hold : index < p.backlog.length := h.length ▸ hindex
        rw [List.getElem?_append_left hindex] at hmoment
        rw [hadded, List.getElem?_append_left hold] at hentry
        obtain ⟨hbacklog, hshows, hresumes⟩ := h.madeAt hentry hmoment
        refine ⟨?_, hshows, hsteps.options ▸ hresumes⟩
        rw [hbacklog, hadded, List.take_append_of_le_length hold]
      · -- the only entry that the step did not find is the one that it added
        obtain ⟨hlast, hlastMoment⟩ : index = taken.length ∧ p' = moment := by
          have hbound := (List.getElem?_eq_some_iff.mp hmoment).1
          rw [List.length_append] at hbound
          obtain rfl : index = taken.length := by
            have : [p'].length = 1 := rfl
            omega
          exact ⟨rfl, by simpa using hmoment⟩
        subst hlast hlastMoment
        obtain rfl : added = entry := by simpa [hadded, h.length] using hentry
        refine ⟨?_, hshows, hresumes⟩
        rw [List.take_of_length_le]
        rw [hadded, List.length_append, h.length]
        exact Nat.le_refl _

variable [MediaSource μ]

/-- From every player that a new one becomes by calls, going back to an entry of the backlog
succeeds. It leaves the entries up to this one, the state that the entry holds but for the answer to
a choice, and the token lists that the player had when the entry was made. If there is no such entry
it fails and leaves the player as it is. -/
theorem jumpBack_returns_to_entry (hmedia : Serves serve good) {media : μ} (hgood : good media)
    {recorder : Recorder} {options : RuntimeOptions} {start : Player μ}
    (hnew : (Player.new media recorder options).1 = .ok start) (calls : List Call) (index : Nat) :
    let p := start.after calls
    let taken := (start.moments calls).foldl stamp []
    match p.backlog[index]? with
    | none => ∃ fault, jumpBack index p = (.error fault, p)
    | some entry => ∃ p' moment, jumpBack index p = (.ok (), p') ∧
      p'.backlog = p.backlog.take (index + 1) ∧ entry.Shows p'.state ∧
      taken[index]? = some moment ∧ moment.backlog = p.backlog.take (index + 1) ∧
      entry.Shows moment.state ∧ p'.events = moment.events ∧ p'.conv = moment.conv := by
  intro p taken
  have hstart := new_starts hmedia hgood hnew
  have hstamped : Stamped serve good taken p := by
    refine after_induct (P := Stamped serve good) (f := stamp) hmedia Stamped.sound Stamped.step
      calls ⟨hstart.sound, ?_, ?_⟩
    · rw [hstart.backlog]
      rfl
    · rw [hstart.backlog]
      rintro index entry moment ⟨⟩
  cases hentry : p.backlog[index]? with
  | none => exact ⟨_, jumpBack_of_none hentry⟩
  | some entry =>
    obtain ⟨p', hrun, hrewound⟩ := jumpBack_spec hmedia hstamped.sound hentry
    have hindex : index < taken.length := by
      rw [hstamped.length]
      exact (List.getElem?_eq_some_iff.mp hentry).1
    have hmoment := List.getElem?_eq_getElem hindex
    obtain ⟨hbacklog, hshows, hresumes⟩ := hstamped.madeAt hentry hmoment
    rw [← hrewound.options] at hresumes
    obtain ⟨hevents, hconv⟩ := hrewound.resumes.unique hresumes
    exact ⟨p', _, hrun, hrewound.backlog, hrewound.shows, hmoment, hbacklog, hshows, hevents, hconv⟩

/-- Back to the text of a conversation that is still shown. -/
theorem jumpBack_returns_to_shown_text :
    let media := FixedMedia.onlyScript "op00" [0x53, 0x43, 0x33, 0x00, 19, 0, 0, 0, 23, 0, 0, 0,
      16, 0, 0, 0, 0xff, 0, 0, 23, 0, 0, 0, 0x41, 0x02]
    ∃ start, (Player.new media (.new .first) .default).1 = .ok start ∧
      let p := start.after [.process 5]
      let taken := (start.moments [.process 5]).foldl stamp []
      ∃ entry p' moment, p.backlog[0]? = some entry ∧ jumpBack 0 p = (.ok (), p') ∧
        p'.backlog = p.backlog.take 1 ∧ entry.Shows p'.state ∧ taken[0]? = some moment ∧
        moment.backlog = p.backlog.take 1 ∧ entry.Shows moment.state ∧
        p'.events = moment.events ∧ p'.conv = moment.conv := by
  intro media
  obtain ⟨start, hstart, hlength⟩ : ∃ start ∈ (Player.new media (.new .first) .default).1.toOption,
      (start.after [.process 5]).backlog.length = 1 := by
    decide +kernel
  have hnew := ok_of_toOption hstart
  have h := jumpBack_returns_to_entry (FixedMedia.onlyScript_serves _ _) rfl hnew [.process 5] 0
  refine ⟨start, hnew, ?_⟩
  cases hentry : (start.after [.process 5]).backlog[0]? with
  | none =>
    have hempty := List.getElem?_eq_none_iff.mp hentry
    omega
  | some entry =>
    simp only [hentry] at h
    obtain ⟨p', moment, h⟩ := h
    exact ⟨entry, p', moment, hentry, h⟩

end Play

end NovelScript
