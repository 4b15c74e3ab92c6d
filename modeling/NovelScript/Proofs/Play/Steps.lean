import NovelScript.Proofs.Play.Soundness

/-! # Steps of sound players

Playing a token, and going back to an entry of the backlog, take a sound player to a sound player.
The backlog changes in three ways only: it stays, it gets an entry from which the player could be
resumed as it stands, or it is cut. -/

namespace NovelScript

/-- The states in which a player shows an entry: the entry's own, but for the answer that the front
end gave when a choice was posed. -/
def BacklogEntry.Shows (entry : BacklogEntry) (s : PlayState) : Prop :=
  match entry.item with
  | .textblock .. => s = entry.state
  | .choice choice => entry.state.choice = some choice ∧
    ∃ answer, s = { entry.state with choice := some { choice with chosen := answer } }

theorem Recorder.pose_choice (r : Recorder) (choice : Choice) :
    ∃ answer, (r.pose choice).1 = { choice with chosen := answer } := by
  unfold pose
  simp only
  split
  · exact ⟨choice.chosen, rfl⟩
  · rename_i index _
    split
    · rename_i chosen hchosen
      unfold Choice.choose at hchosen
      split at hchosen
      · cases hchosen
      · split at hchosen
        · cases hchosen
          exact ⟨some index, rfl⟩
        · cases hchosen
    · exact ⟨choice.chosen, rfl⟩

namespace Play

variable {μ : Type} {serve : MediaKind → String → Except Fault View} {good : μ → Prop}

/-- What a step may do to the backlog. An entry that it adds is shown by the player behind the step,
whose token lists are those that the entry resumes with. -/
inductive Logs (serve : MediaKind → String → Except Fault View) (p p' : Player μ) : Prop where
  | keeps (h : p'.backlog = p.backlog)
  | adds (entry : BacklogEntry) (h : p'.backlog = p.backlog ++ [entry])
      (hshows : entry.Shows p'.state)
      (hresumes : Resumes serve p'.options entry.state p'.events p'.conv)
  | cuts (count : Nat) (h : p'.backlog = p.backlog.take count)

/-- A step of a sound player. -/
structure Steps (serve : MediaKind → String → Except Fault View) (good : μ → Prop)
    (p p' : Player μ) : Prop where
  sound : Sound serve good p'
  options : p'.options = p.options
  backlog : Logs serve p p'

/-- A run that makes a step, and adds nothing to the backlog if it fails. -/
structure Runs (serve : MediaKind → String → Except Fault View) (good : μ → Prop) (p : Player μ)
    (run : Except Fault Unit × Player μ) : Prop extends Steps serve good p run.2 where
  failed : ∀ fault, run.1 = .error fault → run.2.backlog = p.backlog

theorem Arrives.runs {p : Player μ} {run : Except Fault Unit × Player μ}
    (h : Arrives serve good p run.2) : Runs serve good p run :=
  ⟨⟨h.sound, h.options, .keeps h.backlog⟩, fun _ _ => h.backlog⟩

/-- What stays in front of a run joins it. -/
theorem Runs.after {p p' : Player μ} {run : Except Fault Unit × Player μ}
    (h' : Runs serve good p' run) (hoptions : p'.options = p.options)
    (hbacklog : p'.backlog = p.backlog) : Runs serve good p run := by
  refine ⟨⟨h'.sound, h'.options.trans hoptions, ?_⟩,
    fun fault hfault => (h'.failed fault hfault).trans hbacklog⟩
  cases h'.backlog with
  | keeps h => exact .keeps (h.trans hbacklog)
  | adds entry h hshows hresumes => exact .adds entry (hbacklog ▸ h) hshows hresumes
  | cuts count h => exact .cuts count (hbacklog ▸ h)

/-- A sound player in a code chunk can be resumed as it stands. -/
theorem Sound.resumes {p : Player μ} (hp : Sound serve good p) (hcode : OnCode p) :
    Resumes serve p.options p.state p.events p.conv := by
  obtain ⟨script, hscript, hsame⟩ := hp.script
  refine ⟨⟨script, hscript, ?_, ?_⟩, hp.scene⟩
  · rw [Script.tokenizeEvent_congr hsame]
    exact hcode.events
  · rw [hp.conv, convTokens, convTokens]
    simp only [Script.tokenizeConv_congr hsame]

/-! ## Showing and posing -/

/-- An entry that a player in a code chunk adds for what it shows keeps it sound. -/
theorem Sound.log {p : Player μ} (hp : Sound serve good p) (hcode : OnCode p) {entry : BacklogEntry}
    (hrestorable : Restorable serve p.options entry) :
    Sound serve good { p with backlog := p.backlog ++ [entry] } where
  media := hp.media
  script := hp.script
  tokens := .inl ⟨hcode.events, hcode.targets⟩
  conv := hp.conv
  scene := hp.scene
  backlog := by
    intro other hother
    rcases List.mem_append.mp hother with hother | hother
    · exact hp.backlog other hother
    · obtain rfl := List.mem_singleton.mp hother
      exact hrestorable

theorem unfadeTextbox_ok (time : Duration) (p : Player μ) :
    (unfadeTextbox time p).1 = .ok () := by
  rw [unfadeTextbox, bind_apply]
  simp only [state]
  by_cases h : p.state.textboxFaded = true
  · simp only [h, if_true]
    rfl
  · simp only [h]
    rfl

/-- Handing a choice to the front end stays where it is. -/
theorem present_stays (choice : Choice) (p : Player μ) :
    Stays serve good p (present choice p).2 := by
  have hposed : PlayState.Plain fun s => { s with choice := some (p.recorder.pose choice).1 } :=
    .same fun _ => rfl
  exact (Stays.recorder p (p.recorder.pose choice).2).trans (.updateState hposed _)

/-- The choice that is handed to the front end is shown, whatever the answer. -/
theorem present_shows {choice : Choice} {p : Player μ} (h : p.state.choice = some choice) :
    BacklogEntry.Shows ⟨.choice choice, p.state⟩ (present choice p).2.state := by
  obtain ⟨answer, hanswer⟩ := p.recorder.pose_choice choice
  exact ⟨h, answer, by rw [← hanswer]; rfl⟩

/-- A choice that is posed comes into the backlog. -/
theorem poseChoice_runs {p : Player μ} (hp : Sound serve good p) (hcode : OnCode p) :
    Runs serve good p (poseChoice p) := by
  rw [poseChoice, bind_apply]
  simp only [state]
  cases hchoice : p.state.choice with
  | none => exact ((Stays.refl p).arrives hp hcode).runs
  | some choice =>
    simp only
    by_cases hempty : choice.options.isEmpty = true
    · rw [if_pos hempty, bind_apply]
      have hplain : PlayState.Plain fun s => { s with choice := none } := .same fun _ => rfl
      exact ((Stays.updateState hplain p).arrives hp hcode).runs
    · rw [if_neg hempty, bind_apply]
      have hplain : PlayState.Plain fun s => { s with status := .choice } := .same fun _ => rfl
      have hstays : Stays serve good p { p with state := { p.state with status := .choice } } :=
        .updateState hplain p
      have hcode' := hstays.onCode hcode
      have hresumes := (hstays.sound hp hcode).resumes hcode'
      have hrestorable : Restorable serve p.options
          ⟨.choice choice, { p.state with status := .choice }⟩ := ⟨⟨_, _, hresumes⟩, hchoice⟩
      have hlogged := (hstays.sound hp hcode).log hcode' hrestorable
      have hshows := present_shows (p := { p with
        state := { p.state with status := .choice }
        backlog := p.backlog ++ [⟨.choice choice, { p.state with status := .choice }⟩] }) hchoice
      refine ⟨⟨(present_stays choice _).sound hlogged ⟨hcode'.events, hcode'.targets⟩, rfl, ?_⟩,
        fun fault hfault => by cases hfault⟩
      exact .adds ⟨.choice choice, { p.state with status := .choice }⟩ rfl hshows hresumes

/-- The end of a conversation leaves a player between two event tokens. -/
theorem Sound.endConv {p : Player μ} (hp : Sound serve good p) (hcode : OnCode p) :
    Sound serve good { p with conv := none, state := { p.state with conv := none } } where
  media := hp.media
  script := hp.script
  tokens := .inl ⟨hcode.events, hcode.targets⟩
  conv := rfl
  scene := ⟨hp.scene.background, hp.scene.characters⟩
  backlog := hp.backlog

/-- The next token of a conversation leaves a player in the conversation. -/
theorem Sound.moveConv {p : Player μ} (hp : Sound serve good p) (hcode : OnCode p)
    {position : ConvPosition} (hposition : p.state.conv = some position) (token : Nat) :
    Sound serve good
      { p with state := { p.state with conv := some { position with token := token } } } where
  media := hp.media
  script := hp.script
  tokens := .inl ⟨hcode.events, hcode.targets⟩
  conv := by
    have hconv := hp.conv
    rw [convTokens, hposition] at hconv
    exact hconv
  scene := ⟨hp.scene.background, hp.scene.characters⟩
  backlog := hp.backlog

variable [MediaSource μ]

theorem showTextblock_apply (lines : List String) (voice : Option String) (p : Player μ) :
    showTextblock lines voice p =
      match voice with
      | none => (.ok (), { p with recorder := p.recorder.record (.textblock lines none) })
      | some name =>
        match MediaSource.load p.media .voice name with
        | (.error fault, media) => (.error fault, { p with media := media })
        | (.ok _, media) =>
          (.ok (), { p with
            media := media
            recorder := p.recorder.record (.textblock lines (some name)) }) := by
  cases voice with
  | none => rfl
  | some name =>
    rw [showTextblock]
    simp only [discard_eq]
    rw [bind_apply, bind_apply, load_apply]
    rcases MediaSource.load p.media .voice name with ⟨outcome, media⟩
    cases outcome with
    | error fault => rfl
    | ok view => rfl

/-- Showing a block of text stays where it is, and its voice could be loaded if it succeeds. -/
theorem showTextblock_spec (hmedia : Serves serve good) (lines : List String)
    (voice : Option String) (p : Player μ) :
    Stays serve good p (showTextblock lines voice p).2 ∧
      (good p.media → (showTextblock lines voice p).1 = .ok () →
        ∀ name ∈ voice, ∃ view, serve .voice name = .ok view) := by
  rw [showTextblock_apply]
  cases voice with
  | none => exact ⟨.recorder p _, fun _ _ name hname => by cases hname⟩
  | some name =>
    have hload := Stays.load hmedia p .voice name
    simp only
    rcases hanswer : MediaSource.load p.media .voice name with ⟨outcome, media⟩
    rw [hanswer] at hload
    cases outcome with
    | error fault => exact ⟨hload, fun _ h => by cases h⟩
    | ok view =>
      refine ⟨hload.trans (.recorder _ _), fun hgood _ other hother => ⟨view, ?_⟩⟩
      cases hother
      rw [← hmedia.answer hgood, hanswer]

/-- A block of text that is shown comes into the backlog. -/
theorem newTextblock_runs (hmedia : Serves serve good) {p : Player μ} (hp : Sound serve good p)
    (hcode : OnCode p) (lines : List String) (voice : Option String) :
    Runs serve good p (newTextblock lines voice p) := by
  rw [newTextblock, bind_apply]
  obtain ⟨hshow, hvoice⟩ := showTextblock_spec hmedia lines voice p
  rcases hrun : showTextblock lines voice p with ⟨outcome, p₁⟩
  rw [hrun] at hshow hvoice
  cases outcome with
  | error fault => exact (hshow.arrives hp hcode).runs
  | ok _ =>
    simp only
    rw [bind_apply]
    have hunfade := (soundLaws hmedia).unfadeTextbox .fade p₁
    have hok := unfadeTextbox_ok .fade p₁
    rcases hrun' : unfadeTextbox .fade p₁ with ⟨outcome, p₂⟩
    rw [hrun'] at hunfade hok
    simp only at hok
    subst hok
    have hstays := hshow.trans hunfade
    have hbacklog : p₂.backlog = p.backlog := hstays.backlog
    have hsound := hstays.sound hp hcode
    have hresumes := hsound.resumes (hstays.onCode hcode)
    have hrestorable : Restorable serve p₂.options ⟨.textblock lines voice, p₂.state⟩ :=
      ⟨⟨_, _, hresumes⟩, hvoice hp.media rfl⟩
    refine ⟨⟨hsound.log (hstays.onCode hcode) hrestorable, hstays.options, ?_⟩,
      fun fault hfault => by cases hfault⟩
    refine .adds ⟨.textblock lines voice, p₂.state⟩ ?_ rfl hresumes
    simp only [update, hbacklog]

/-! ## Playing a token -/

/-- Playing a token of a code chunk makes a step. Only event tokens have to be played between
conversations. -/
theorem playToken_runs (hmedia : Serves serve good) {p : Player μ} (hp : Sound serve good p)
    (hcode : OnCode p) (t : Token) (hidle : ∀ op, t.kind = .event op → Idle serve good p) :
    Runs serve good p (playToken t p) := by
  have laws := (soundLaws (μ := μ) hmedia).effects
  unfold playToken
  cases hkind : t.kind with
  | event op => exact (laws.playEvent op p (hidle op hkind) hcode).runs
  | conv op => exact ((laws.playConv op p).arrives hp hcode).runs
  | text text => exact ((laws.unplayable t p).arrives hp hcode).runs
  | data view => exact ((laws.unplayable t p).arrives hp hcode).runs
  | textblock block =>
    simp only
    rw [bind_apply]
    have hstays := laws.takeVoice block.voice p
    rcases hrun : takeVoice block.voice p with ⟨outcome, p'⟩
    rw [hrun] at hstays
    cases outcome with
    | error fault => exact (hstays.arrives hp hcode).runs
    | ok voice =>
      have hruns := newTextblock_runs hmedia (hstays.sound hp hcode) (hstays.onCode hcode)
        block.lines voice
      exact hruns.after hstays.options hstays.backlog

/-- Playing on by one token makes a step. -/
theorem advance_runs (hmedia : Serves serve good) {p : Player μ} (hp : Sound serve good p)
    (hrunning : p.state.status = .running) : Runs serve good p (advance p) := by
  rw [advance, bind_apply]
  simp only [player]
  cases hposition : p.state.conv with
  | some position =>
    have hcode : OnCode p := by
      rcases hp.tokens with hcode | hdata
      · exact hcode
      · rw [hdata.idle] at hposition
        cases hposition
    have hconv := hp.conv
    rw [convTokens, hposition] at hconv
    cases htokens : p.conv with
    | none =>
      rw [htokens] at hconv
      cases hconv
    | some tokens =>
      rw [htokens] at hconv
      have hresult : (p.script.tokenizeConv position.chunk false).result = .ok tokens :=
        (Option.some.inj hconv).symm
      simp only
      cases htoken : tokens[position.token]? with
      | some token =>
        simp only
        rw [bind_apply]
        have hmoved := hp.moveConv hcode hposition (position.token + 1)
        have hmem := List.mem_of_getElem? htoken
        refine (playToken_runs hmedia hmoved ⟨hcode.events, hcode.targets⟩ token ?_).after rfl rfl
        exact fun op hop => absurd hop (Script.kind_of_mem_tokenizeConv hresult hmem op)
      | none =>
        simp only
        rw [bind_apply]
        have hended := hp.endConv hcode
        simp only [update]
        by_cases hpending : p.state.choicePending = true
        · rw [if_pos hpending]
          exact (poseChoice_runs hended ⟨hcode.events, hcode.targets⟩).after rfl rfl
        · rw [if_neg hpending]
          exact Arrives.runs ⟨hended, rfl, rfl⟩
  | none =>
    have hidle : Idle serve good p := ⟨hp, hposition, hrunning⟩
    simp only [hp.conv_eq_none hposition]
    cases htoken : p.events[p.state.token]? with
    | none => exact (hidle.setEvent _).runs
    | some token =>
      simp only
      rw [bind_apply]
      have hplain : PlayState.Plain fun s => { s with token := s.token + 1 } := .same fun _ => rfl
      have hmoved := hp.updateState hplain (.inl rfl)
      rcases hp.tokens with hcode | hdata
      · exact (playToken_runs hmedia hmoved ⟨hcode.events, hcode.targets⟩ token
          (fun _ _ => ⟨hmoved, hposition, hrunning⟩)).after rfl rfl
      · -- the token of a data chunk cannot be played, which changes nothing
        obtain ⟨view, hevents⟩ := hdata.events
        rw [hevents] at htoken
        obtain rfl := List.mem_singleton.mp (List.mem_of_getElem? htoken)
        exact Arrives.runs ⟨hmoved, rfl, rfl⟩

end Play

end NovelScript
