import NovelScript.Proofs.Play.Keeping

/-! # Well-formed players

The parts of a player belong together: the conversation that is loaded is the one that the state
stands in, the options of a choice are numbered, a status that waits for an answer has a question,
and every entry of the backlog holds the state that its item was shown in. Every player that a new
one becomes by calls is well formed, whatever its media answer. -/

namespace NovelScript

/-! ## Choices -/

/-- The options of a choice are numbered in their order and stand for candidates in ascending order,
and an answer is one of them. -/
structure Choice.WellFormed (c : Choice) : Prop where
  index : ∀ {k : Nat} {option : ChoiceOption}, c.options[k]? = some option → option.index = k
  ascending : c.options.Pairwise fun a b => a.candidate < b.candidate
  candidate : ∀ option ∈ c.options, option.candidate < c.candidates
  answer : ∀ k ∈ c.chosen, k < c.options.length

namespace Choice

theorem wellFormed_new (id : Option UInt16) : (new id).WellFormed where
  index h := by cases h
  ascending := .nil
  candidate _ h := by cases h
  answer _ h := by cases h

theorem WellFormed.add {c : Choice} (h : c.WellFormed) (text : String) (display : Bool) :
    (c.add text display).WellFormed := by
  have hlater : ∀ option ∈ c.options, option.candidate < c.candidates + 1 :=
    fun option hoption => Nat.lt_succ_of_lt (h.candidate option hoption)
  cases display with
  | false => exact ⟨h.index, h.ascending, hlater, h.answer⟩
  | true =>
    simp only [Choice.add, if_true]
    refine ⟨?_, ?_, ?_, ?_⟩
    · intro k option hoption
      rcases Nat.lt_or_ge k c.options.length with hk | hk
      · rw [List.getElem?_append_left hk] at hoption
        exact h.index hoption
      · rw [List.getElem?_append_right hk, List.getElem?_singleton] at hoption
        split at hoption
        · rename_i hlast
          cases hoption
          exact Nat.le_antisymm hk (Nat.sub_eq_zero_iff_le.mp hlast)
        · cases hoption
    · refine List.pairwise_append.mpr ⟨h.ascending, List.pairwise_singleton _ _, ?_⟩
      intro option hoption added hadded
      obtain rfl := List.mem_singleton.mp hadded
      exact h.candidate option hoption
    · intro option hoption
      rcases List.mem_append.mp hoption with hoption | hoption
      · exact hlater option hoption
      · obtain rfl := List.mem_singleton.mp hoption
        exact Nat.lt_succ_self _
    · intro k hk
      rw [List.length_append]
      exact Nat.lt_add_right _ (h.answer k hk)

/-- An answer keeps the options and is one of them. -/
theorem WellFormed.choose {c c' : Choice} (h : c.WellFormed) {index : Nat}
    (hchoose : c.choose index = .ok c') : c'.WellFormed ∧ c'.options = c.options := by
  unfold Choice.choose at hchoose
  split at hchoose
  · cases hchoose
  · split at hchoose
    · rename_i hindex
      cases hchoose
      refine ⟨⟨h.index, h.ascending, h.candidate, ?_⟩, rfl⟩
      rintro k ⟨⟩
      exact hindex
    · cases hchoose

theorem isAnswered_of_choose {c c' : Choice} {index : Nat} (h : c.choose index = .ok c') :
    c'.isAnswered = true := by
  unfold Choice.choose at h
  split at h
  · cases h
  · split at h
    · cases h
      rfl
    · cases h

end Choice

/-- The front end leaves a choice as it is or answers it with one of its options. -/
theorem Recorder.pose_answers (r : Recorder) (choice : Choice) :
    (r.pose choice).1 = choice ∨ ∃ index, choice.choose index = .ok (r.pose choice).1 := by
  unfold pose
  simp only
  split
  · exact .inl rfl
  · rename_i index _
    split
    · rename_i chosen hchosen
      exact .inr ⟨index, hchosen⟩
    · exact .inl rfl

theorem Recorder.pose_wellFormed (r : Recorder) {choice : Choice} (h : choice.WellFormed) :
    (r.pose choice).1.WellFormed ∧ (r.pose choice).1.options = choice.options := by
  rcases r.pose_answers choice with hsame | ⟨index, hchoose⟩
  · rw [hsame]
    exact ⟨h, rfl⟩
  · exact h.choose hchoose

/-! ## States, entries and players -/

/-- Something is shown: a colour, or else a picture. -/
def Background.WellFormed (b : Background) : Prop := b.fill = none → b.image ≠ none

/-- A choice is well formed, there is one with options if an answer is waited for, and something is
shown as the background. -/
structure PlayState.WellFormed (s : PlayState) : Prop where
  choice : ∀ c ∈ s.choice, c.WellFormed
  posed : s.status = .choice → ∃ c, s.choice = some c ∧ c.options ≠ []
  background : s.background.WellFormed

/-- A block of text was shown in a conversation. A choice was posed behind one, and is kept as it
was before an answer. -/
structure BacklogEntry.WellFormed (entry : BacklogEntry) : Prop where
  state : entry.state.WellFormed
  item : match entry.item with
    | .textblock .. => entry.state.conv ≠ none
    | .choice choice => choice.chosen = none ∧ choice.options ≠ [] ∧
      entry.state.choice = some choice ∧ entry.state.status = .choice ∧ entry.state.conv = none

/-- What is on stage is well formed, and what was shown before. -/
structure Player.Staged {μ : Type} (p : Player μ) : Prop where
  state : p.state.WellFormed
  backlog : ∀ entry ∈ p.backlog, entry.WellFormed

/-- A conversation is loaded if and only if the state stands in one, and it is the chunk of the
current script that the state stands in; what is on stage is well formed. -/
structure Player.WellFormed {μ : Type} (p : Player μ) : Prop extends Play.Loaded p, p.Staged

theorem PlayState.wellFormed_new (script : String) (seed : UInt64) :
    (PlayState.new script seed).WellFormed where
  choice := by rintro c ⟨⟩
  posed h := by cases h
  background h := by cases h

theorem PlayState.choicePending_iff {s : PlayState} :
    s.choicePending = true ↔ ∃ choice, s.choice = some choice ∧ choice.isAnswered = false := by
  unfold choicePending
  cases s.choice with
  | none => simp
  | some choice => simp

/-- The choice may be exchanged for one with the same options. -/
theorem PlayState.WellFormed.setChoice {s : PlayState} (h : s.WellFormed) {c c' : Choice}
    (hc : s.choice = some c) (hc' : c'.WellFormed) (hoptions : c'.options = c.options) :
    PlayState.WellFormed { s with choice := some c' } where
  choice := by
    rintro _ ⟨⟩
    exact hc'
  posed := by
    intro hstatus
    obtain ⟨posed, hposed, hne⟩ := h.posed hstatus
    obtain rfl := Option.some.inj (hc.symm.trans hposed)
    exact ⟨c', rfl, hoptions ▸ hne⟩
  background := h.background

theorem Player.Staged.log {μ : Type} {p : Player μ} (h : p.Staged) {entry : BacklogEntry}
    (hentry : entry.WellFormed) : Player.Staged { p with backlog := p.backlog ++ [entry] } where
  state := h.state
  backlog := by
    intro other hother
    rcases List.mem_append.mp hother with hother | hother
    · exact h.backlog other hother
    · obtain rfl := List.mem_singleton.mp hother
      exact hentry

namespace Play

variable {μ : Type}

/-! ## Playing a token -/

/-- What is on stage is well formed, no answer is waited for and nothing has failed. -/
structure Playing (p : Player μ) : Prop extends p.Staged where
  posed : p.state.status ≠ .choice
  unfailed : p.state.status ≠ .error

/-- Playback goes on, or pauses, with the choice and the backlog that it had. -/
theorem Playing.become {p p' : Player μ} (h : Playing p) (status : Status)
    (hstatus : p'.state.status = status) (hplaying : status ≠ .choice ∧ status ≠ .error)
    (hchoice : p'.state.choice = p.state.choice) (hbacklog : p'.backlog = p.backlog)
    (hbackground : p'.state.background.WellFormed) : Playing p' := by
  subst hstatus
  refine ⟨⟨⟨?_, fun hposed => absurd hposed hplaying.1, hbackground⟩, ?_⟩, hplaying.1, hplaying.2⟩
  · rw [hchoice]
    exact h.state.choice
  · rw [hbacklog]
    exact h.backlog

theorem Playing.goOn {p p' : Player μ} (h : Playing p) (hstatus : p'.state.status = p.state.status)
    (hchoice : p'.state.choice = p.state.choice) (hbacklog : p'.backlog = p.backlog)
    (hbackground : p'.state.background.WellFormed) : Playing p' :=
  h.become _ hstatus ⟨h.posed, h.unfailed⟩ hchoice hbacklog hbackground

theorem Playing.same {p p' : Player μ} (hsame : SameStage p p') (h : Playing p) : Playing p' := by
  refine h.goOn hsame.status hsame.choice hsame.backlog ?_
  rw [hsame.background]
  exact h.state.background

theorem Playing.setChoice {p : Player μ} (h : Playing p) (choice : Option Choice)
    (hchoice : ∀ c ∈ choice, c.WellFormed) :
    Playing { p with state := { p.state with choice := choice } } where
  state := ⟨hchoice, fun hstatus => absurd hstatus h.posed, h.state.background⟩
  backlog := h.backlog
  posed := h.posed
  unfailed := h.unfailed

/-- Operations that change nothing but the choice, and keep it well formed. -/
def OnChoice {α : Type} (op : Play μ α) : Prop :=
  ∀ p, ∃ choice, (op p).2 = { p with state := { p.state with choice := choice } } ∧
    ((∀ c ∈ p.state.choice, c.WellFormed) → ∀ c ∈ choice, c.WellFormed)

theorem onChoice_openChoice (id : Option UInt16) : OnChoice (openChoice (μ := μ) id) := by
  intro p
  rw [openChoice, bind_apply]
  simp only [state]
  cases hchoice : p.state.choice with
  | some choice => exact ⟨p.state.choice, rfl, fun hold => hchoice ▸ hold⟩
  | none =>
    refine ⟨some (.new id), rfl, fun _ => ?_⟩
    rintro _ ⟨⟩
    exact Choice.wellFormed_new id

theorem onChoice_addCandidate (text : String) (display : Bool) :
    OnChoice (addCandidate (μ := μ) text display) := by
  intro p
  rw [addCandidate, bind_apply]
  simp only [state]
  cases hchoice : p.state.choice with
  | none => exact ⟨p.state.choice, rfl, fun hold => hchoice ▸ hold⟩
  | some choice =>
    refine ⟨some (choice.add text display), rfl, fun hold => ?_⟩
    rintro _ ⟨⟩
    exact (hold choice rfl).add text display

theorem onChoice_takeChoice : OnChoice (takeChoice (μ := μ)) := by
  intro p
  rw [takeChoice, bind_apply]
  simp only [state]
  cases hchoice : p.state.choice with
  | none => exact ⟨p.state.choice, rfl, fun hold => hchoice ▸ hold⟩
  | some choice =>
    simp only
    split
    · refine ⟨none, rfl, fun _ => ?_⟩
      rintro _ ⟨⟩
    · exact ⟨p.state.choice, rfl, fun hold => hchoice ▸ hold⟩

theorem Playing.onChoice {α : Type} {op : Play μ α} (h : OnChoice op) : Keeps Playing op := by
  intro p hp
  obtain ⟨choice, hrun, hwell⟩ := h p
  rw [hrun]
  exact hp.setChoice choice (hwell hp.state.choice)

theorem Playing.unfadeTextbox (time : Duration) : Keeps Playing (unfadeTextbox (μ := μ) time) := by
  intro p hp
  rw [Play.unfadeTextbox, bind_apply]
  simp only [state]
  by_cases hfaded : p.state.textboxFaded = true
  · simp only [hfaded, if_true]
    exact hp.become .graphicsOp rfl (by decide) rfl rfl hp.state.background
  · simp only [hfaded]
    exact hp

variable [MediaSource μ]

theorem Playing.displayBackground (name : String) (viewport : Viewport) :
    Keeps Playing (displayBackground (μ := μ) name viewport) := by
  intro p hp
  rw [displayBackground_apply]
  rcases MediaSource.load p.media .background name with ⟨outcome, media⟩
  cases outcome with
  | error fault => exact hp.goOn rfl rfl rfl hp.state.background
  | ok view =>
    exact hp.become .graphicsOp rfl (by decide) rfl rfl fun _ h => by cases h

theorem Playing.drawCharacter (name : String) (slot x : Int64) :
    Keeps Playing (drawCharacter (μ := μ) name slot x) := by
  intro p hp
  have hfound := hp.same (OffStage.findCharacter name p).toSameStage
  rw [drawCharacter_apply]
  rcases hrun : findCharacter name p with ⟨outcome, p'⟩
  rw [hrun] at hfound
  cases outcome with
  | error fault => exact hfound
  | ok found =>
    exact hfound.become .graphicsOp rfl (by decide) rfl rfl hfound.state.background

theorem Playing.playMovie (name : String) : Keeps Playing (playMovie (μ := μ) name) := by
  intro p hp
  simp only [Play.playMovie, load_apply]
  cases (MediaSource.load p.media .movie name).1 with
  | ok view => exact hp.goOn rfl rfl rfl hp.state.background
  | error fault => exact hp.goOn rfl rfl rfl hp.state.background

theorem Playing.onStage : OnStage (μ := μ) (Keeps Playing) where
  stop _ hp := hp.become .ended rfl (by decide) rfl rfl hp.state.background
  await _ hp := hp.become .userAck rfl (by decide) rfl rfl hp.state.background
  displayBackground := Playing.displayBackground
  panZoom _ _ _ hp := hp.become .graphicsOp rfl (by decide) rfl rfl hp.state.background
  fillBackground _ _ _ hp := hp.goOn rfl rfl rfl fun h => by cases h
  drawCharacter := Playing.drawCharacter
  clearCharacter _ _ hp :=
    hp.become .graphicsOp rfl (by decide) rfl rfl hp.state.background
  clearAllCharacters _ _ hp :=
    hp.become .graphicsOp rfl (by decide) rfl rfl hp.state.background
  fadeTextbox _ _ hp :=
    hp.become .graphicsOp rfl (by decide) rfl rfl hp.state.background
  unfadeTextbox := Playing.unfadeTextbox
  playMovie := Playing.playMovie
  openChoice id := Playing.onChoice (onChoice_openChoice id)
  addCandidate text display := Playing.onChoice (onChoice_addCandidate text display)
  takeChoice := Playing.onChoice onChoice_takeChoice


/-- A block of text that is shown in a conversation is logged with it. -/
theorem Playing.newTextblock {p : Player μ} (h : Playing p) (lines : List String)
    (voice : Option String) (hconv : p.state.conv ≠ none) :
    Playing (newTextblock lines voice p).2 := by
  obtain ⟨fault, media, hrun⟩ | ⟨media, q, hq, hrun⟩ := newTextblock_cases lines voice p
  · rw [hrun]
    exact h.goOn rfl rfl rfl h.state.background
  · have htold : Playing { p with
        media := media
        recorder := p.recorder.record (.textblock lines voice) } :=
      h.goOn rfl rfl rfl h.state.background
    have hplaying : Playing q := hq ▸ Playing.unfadeTextbox .fade _ htold
    have hposition : q.state.conv = p.state.conv :=
      hq ▸ (loadedLaws.unfadeTextbox .fade _).stateConv
    have hentry : BacklogEntry.WellFormed ⟨.textblock lines voice, q.state⟩ :=
      ⟨hplaying.state, hposition ▸ hconv⟩
    rw [hrun]
    exact ⟨hplaying.log hentry, hplaying.posed, hplaying.unfailed⟩

omit [MediaSource μ] in
/-- A choice that is posed behind a conversation is logged as it is before an answer. -/
theorem Playing.poseChoice {p : Player μ} (h : Playing p) (hidle : p.state.conv = none)
    (hpending : p.state.choicePending = true) :
    (poseChoice p).2.Staged ∧ (poseChoice p).2.state.status ≠ .error := by
  obtain ⟨choice, hchoice, hunanswered⟩ := PlayState.choicePending_iff.mp hpending
  have hopen : choice.chosen = none := by simpa [Choice.isAnswered] using hunanswered
  have hwell := h.state.choice choice hchoice
  rw [poseChoice_apply hchoice]
  by_cases hempty : choice.options.isEmpty = true
  · rw [if_pos hempty]
    have hdropped := h.setChoice none fun _ hc => by cases hc
    exact ⟨hdropped.toStaged, h.unfailed⟩
  · rw [if_neg hempty]
    have hne : choice.options ≠ [] := by simpa using hempty
    have hposed : PlayState.WellFormed { p.state with status := .choice } :=
      ⟨h.state.choice, fun _ => ⟨choice, hchoice, hne⟩, h.state.background⟩
    have hentry : BacklogEntry.WellFormed ⟨.choice choice, { p.state with status := .choice }⟩ :=
      ⟨hposed, hopen, hne, hchoice, rfl, hidle⟩
    obtain ⟨hanswer, hoptions⟩ := p.recorder.pose_wellFormed hwell
    have hlogged := h.toStaged.log hentry
    exact ⟨⟨hposed.setChoice hchoice hanswer hoptions, hlogged.backlog⟩, fun h => by cases h⟩

theorem Playing.stageLaws :
    StageLaws (μ := μ) Playing fun p => p.Staged ∧ p.state.status ≠ .error where
  same := Playing.same
  onStage := Playing.onStage
  done h := ⟨h.toStaged, h.unfailed⟩
  newTextblock lines voice h hconv := h.newTextblock lines voice hconv
  poseChoice := Playing.poseChoice

end Play

namespace Player.WellFormed

open Play

variable {μ : Type} [MediaSource μ] {p : Player μ}

theorem advance (h : p.WellFormed) (hrunning : p.state.status = .running) :
    (advance p).2.WellFormed ∧ (advance p).2.state.status ≠ .error := by
  have hplaying : Playing p := ⟨h.toStaged, by simp [hrunning], by simp [hrunning]⟩
  obtain ⟨hstaged, hunfailed⟩ := Playing.stageLaws.advance h.toLoaded hplaying
  exact ⟨⟨h.toLoaded.advance, hstaged⟩, hunfailed⟩

omit [MediaSource μ] in
theorem setStatus (h : p.WellFormed) {status : Status} (hstatus : status ≠ .choice) :
    Player.WellFormed { p with state := { p.state with status := status } } where
  conv := h.conv
  events := h.events
  state := ⟨h.state.choice, fun hposed => absurd hposed hstatus, h.state.background⟩
  backlog := h.backlog

theorem process (budget : Nat) : Keeps Player.WellFormed (process (μ := μ) budget) := by
  refine process_keeps (fun h hstatus => h.setStatus ?_) (fun h hrunning => (h.advance hrunning).1)
    budget
  rcases hstatus with rfl | rfl
  · decide
  · decide

omit [MediaSource μ] in
/-- Exchanging the choice for one with the same options keeps a player well formed. -/
theorem setChoice (h : p.WellFormed) {c c' : Choice} (hc : p.state.choice = some c)
    (hc' : c'.WellFormed) (hoptions : c'.options = c.options) :
    Player.WellFormed { p with state := { p.state with choice := some c' } } where
  conv := h.conv
  events := h.events
  state := h.state.setChoice hc hc' hoptions
  backlog := h.backlog

omit [MediaSource μ] in
theorem choose (index : Nat) : Keeps Player.WellFormed (choose (μ := μ) index) := by
  intro p hp
  rw [choose_apply]
  cases hchoice : p.state.choice with
  | none => exact hp
  | some choice =>
    simp only
    cases hchoose : choice.choose index with
    | error fault => exact hp
    | ok answered =>
      obtain ⟨hanswered, hoptions⟩ := (hp.state.choice choice hchoice).choose hchoose
      exact hp.setChoice hchoice hanswered hoptions

omit [MediaSource μ] in
/-- A player that resumes at the state of an entry is well formed, with what is left of the
backlog. -/
theorem resumed (h : p.WellFormed) {entry : BacklogEntry} (hentry : entry ∈ p.backlog)
    {q : Player μ} (hq : Resumed p entry.state q) {backlog : List BacklogEntry}
    (hbacklog : backlog ⊆ q.backlog) (media : μ) (recorder : Recorder) :
    Player.WellFormed { q with media := media, recorder := recorder, backlog := backlog } where
  conv := hq.loaded.conv
  events := hq.loaded.events
  state := by
    rw [hq.state]
    exact (h.backlog entry hentry).state
  backlog := by
    rw [hq.backlog] at hbacklog
    exact fun other hother => h.backlog other (hbacklog hother)

theorem jumpBack (index : Nat) : Keeps Player.WellFormed (jumpBack (μ := μ) index) := by
  intro p hp
  have hback := jumpBack_goesBack index p
  generalize Play.jumpBack index p = run at hback ⊢
  cases hback with
  | refused fault media => exact ⟨⟨hp.conv, hp.events⟩, ⟨hp.state, hp.backlog⟩⟩
  | undrawn hentry hq fault media calls =>
    exact hp.resumed (List.mem_of_getElem? hentry) hq (List.Subset.refl _) media _
  | text hentry hitem hq media =>
    have hresumed := hp.resumed (List.mem_of_getElem? hentry) hq (List.take_subset (index + 1) _)
    rw [showTextblock_apply]
    split
    · exact hresumed _ _
    · split
      · exact hresumed _ _
      · exact hresumed _ _
  | @choice entry hentry choice hitem q hq media =>
    have hwell := hp.backlog entry (List.mem_of_getElem? hentry)
    have hresumed := hp.resumed (List.mem_of_getElem? hentry) hq (List.take_subset (index + 1) _)
    have hposed := hwell.item
    rw [hitem] at hposed
    have hchoice : q.state.choice = some choice := hq.state ▸ hposed.2.2.1
    let recorder := (withMediaAndCalls q media entry.state.redrawn).recorder
    obtain ⟨hanswer, hoptions⟩ := recorder.pose_wellFormed (hwell.state.choice choice hposed.2.2.1)
    exact (hresumed media (recorder.pose choice).2).setChoice hchoice hanswer hoptions

theorem new {media : μ} {recorder : Recorder} {options : RuntimeOptions}
    (h : (Player.new media recorder options).1 = .ok p) : p.WellFormed := by
  obtain ⟨hloaded, _, hbacklog, hstate⟩ := new_spec h
  refine ⟨hloaded, ⟨?_, ?_⟩⟩
  · rw [hstate]
    exact PlayState.wellFormed_new _ _
  · rw [hbacklog]
    rintro entry ⟨⟩

/-- Calls lead from well-formed players to well-formed players. -/
theorem after (h : p.WellFormed) (calls : List Call) : (p.after calls).WellFormed :=
  after_keeps process choose jumpBack h calls

/-- Playing on tells a status at which playback stands still. -/
theorem process_ok (h : p.WellFormed) {budget : Nat} {status : Status}
    (hok : (Play.process budget p).1 = .ok status) :
    (Play.process budget p).2.state.status = status ∧ status ≠ .running ∧ status ≠ .error := by
  rw [process_apply] at hok ⊢
  cases hrefusal : refusal? p.options p.state with
  | some fault =>
    rw [hrefusal] at hok
    cases hok
  | none =>
    rw [hrefusal] at hok
    have hrunning : Player.WellFormed { p with state := { p.state with status := .running } } :=
      h.setStatus (by decide)
    have hkept := playTokens_keeps (P := fun p => p.WellFormed ∧ p.state.status ≠ .error)
      (fun h hrunning => h.1.advance hrunning) ⟨hrunning, fun h => by cases h⟩ budget
    simp only at hok ⊢
    rcases hrun : playTokens budget
      { p with state := { p.state with status := .running } } with ⟨outcome, p'⟩
    rw [hrun] at hkept hok
    obtain rfl : outcome = .ok status := hok
    obtain ⟨⟨_, hunfailed⟩, hstatus, hstands⟩ := hkept
    exact ⟨hstatus, hstands, hstatus ▸ hunfailed⟩

end Player.WellFormed

namespace Play

variable {μ : Type} [MediaSource μ]

/-- Every player that a new one becomes by calls is well formed, and playing on from it tells the
status that it is left with, which is neither that of a running nor that of a failed playback. -/
theorem reachable_wellFormed {media : μ} {recorder : Recorder} {options : RuntimeOptions}
    {start : Player μ} (hnew : (Player.new media recorder options).1 = .ok start)
    (calls : List Call) :
    (start.after calls).WellFormed ∧ ∀ budget status,
      (process budget (start.after calls)).1 = .ok status →
        (process budget (start.after calls)).2.state.status = status ∧
          status ≠ .running ∧ status ≠ .error := by
  have hwell := (Player.WellFormed.new hnew).after calls
  exact ⟨hwell, fun _ _ hok => hwell.process_ok hok⟩

/-- Back from a choice that is left open to the text in front of it, and on to the choice again. -/
theorem reachable_wellFormed_before_choice :
    let media := FixedMedia.onlyScript "op00" [0x53, 0x43, 0x33, 0x00, 19, 0, 0, 0, 23, 0, 0, 0,
      16, 0, 0, 0, 0xff, 0, 0, 23, 0, 0, 0, 0x41, 0x0b, 0, 5, 0, 0x0b, 1, 0x42, 1]
    ∃ start, (Player.new media (.new .unanswered) .default).1 = .ok start ∧
      let p := start.after [.process 9, .jumpBack 0]
      p.WellFormed ∧ p.state.conv = some ⟨0, 1⟩ ∧ (process 9 p).1 = .ok .choice ∧
        (process 9 p).2.state.status = .choice := by
  intro media
  obtain ⟨start, hstart, hconv, hok⟩ :
      ∃ start ∈ (Player.new media (.new .unanswered) .default).1.toOption,
        (start.after [.process 9, .jumpBack 0]).state.conv = some ⟨0, 1⟩ ∧
        (process 9 (start.after [.process 9, .jumpBack 0])).1.toOption = some .choice := by
    decide +kernel
  have hnew := ok_of_toOption hstart
  obtain ⟨hwell, htold⟩ := reachable_wellFormed hnew [.process 9, .jumpBack 0]
  exact ⟨start, hnew, hwell, hconv, ok_of_toOption hok, (htold 9 .choice (ok_of_toOption hok)).1⟩

end Play

end NovelScript
