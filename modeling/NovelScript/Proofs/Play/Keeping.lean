import NovelScript.Proofs.Play.Calls

/-! # What calls keep

An invariant of playback is about what is on stage, or about the token lists that are loaded.
Whatever moves a player through its script happens off stage, and what happens on stage leaves the
token lists alone. So an invariant of one kind has to be shown for a few operations only, and holds
of every player that calls lead to. Nothing is asked of media here. -/

namespace NovelScript

/-- The tokens of an event chunk are event tokens, or stand for a chunk that holds data. -/
theorem Script.kind_of_mem_events {s : Script} {known : DataChunks} {index : Nat}
    {events : List Token} (h : (s.tokenizeEvent known index false).result = .ok events) {t : Token}
    (ht : t ∈ events) : (∃ op, t.kind = .event op) ∨ ∃ view, t.kind = .data view := by
  by_cases hmem : index ∈ known
  · obtain ⟨chunk, rfl⟩ := s.tokenizeEvent_of_mem hmem h
    obtain rfl := List.mem_singleton.mp ht
    exact .inr ⟨chunk, rfl⟩
  · rw [s.tokenizeEvent_of_not_mem hmem] at h
    obtain ⟨_, rfl⟩ := result_eq_ok h
    exact .inl (kind_of_mem_tokenizeEvent ht)

/-- No token of an event chunk is a block of text. -/
theorem Script.kind_ne_textblock {s : Script} {known : DataChunks} {index : Nat}
    {events : List Token} (h : (s.tokenizeEvent known index false).result = .ok events) {t : Token}
    (ht : t ∈ events) (block : Textblock) : t.kind ≠ .textblock block := by
  rcases Script.kind_of_mem_events h ht with ⟨op, hkind⟩ | ⟨view, hkind⟩
  · rw [hkind]
    exact fun htext => by cases htext
  · rw [hkind]
    exact fun htext => by cases htext

namespace Play

variable {μ : Type}

/-- Operations that keep a property of players, also when they fail. -/
def Keeps (P : Player μ → Prop) {α : Type} (op : Play μ α) : Prop :=
  ∀ p, P p → P (op p).2

/-- A relation that two operations establish is established by one after the other. -/
theorem bind_relates {R : Player μ → Player μ → Prop}
    (htrans : ∀ {p p' p'' : Player μ}, R p p' → R p' p'' → R p p'') {α β : Type} {x : Play μ α}
    {f : α → Play μ β} (hx : ∀ p, R p (x p).2) (hf : ∀ a p, R p (f a p).2) (p : Player μ) :
    R p ((x >>= f) p).2 := by
  rw [bind_apply]
  have hfirst := hx p
  rcases hrun : x p with ⟨outcome, p'⟩
  rw [hrun] at hfirst
  cases outcome with
  | error fault => exact hfirst
  | ok a => exact htrans hfirst (hf a p')

theorem Keeps.bind {P : Player μ → Prop} {α β : Type} {x : Play μ α} {f : α → Play μ β}
    (hx : Keeps P x) (hf : ∀ a, Keeps P (f a)) : Keeps P (x >>= f) :=
  bind_relates (R := fun p p' => P p → P p') (fun h h' hp => h' (h hp)) hx hf

/-! ## Off stage -/

/-- From one player to another nothing has changed that is shown, asked or remembered, and there are
as many memory cells. -/
structure SameStage (p p' : Player μ) : Prop where
  recorder : p'.recorder = p.recorder
  backlog : p'.backlog = p.backlog
  background : p'.state.background = p.state.background
  textboxFaded : p'.state.textboxFaded = p.state.textboxFaded
  characters : p'.state.characters = p.state.characters
  choice : p'.state.choice = p.state.choice
  status : p'.state.status = p.state.status
  cells : p'.state.memory.size = p.state.memory.size

/-- From one player to another nothing has changed on stage or in the conversation, and event tokens
that are new were read from a script. -/
structure OffStage (p p' : Player μ) : Prop extends SameStage p p' where
  conv : p'.conv = p.conv
  position : p'.state.conv = p.state.conv
  events : p'.events = p.events ∨ ∃ script : Script, ∃ known chunk,
    (script.tokenizeEvent known chunk false).result = .ok p'.events

namespace OffStage

theorem refl (p : Player μ) : OffStage p p :=
  ⟨⟨rfl, rfl, rfl, rfl, rfl, rfl, rfl, rfl⟩, rfl, rfl, .inl rfl⟩

theorem trans {p p' p'' : Player μ} (h : OffStage p p') (h' : OffStage p' p'') :
    OffStage p p'' where
  recorder := h'.recorder.trans h.recorder
  backlog := h'.backlog.trans h.backlog
  background := h'.background.trans h.background
  textboxFaded := h'.textboxFaded.trans h.textboxFaded
  characters := h'.characters.trans h.characters
  choice := h'.choice.trans h.choice
  status := h'.status.trans h.status
  cells := h'.cells.trans h.cells
  conv := h'.conv.trans h.conv
  position := h'.position.trans h.position
  events := by
    rcases h'.events with hsame | hread
    · rw [hsame]
      exact h.events
    · exact .inr hread

theorem bind {α β : Type} {x : Play μ α} {f : α → Play μ β} (hx : ∀ p, OffStage p (x p).2)
    (hf : ∀ a p, OffStage p (f a p).2) (p : Player μ) : OffStage p ((x >>= f) p).2 :=
  bind_relates (R := OffStage) trans hx hf p

theorem lift {α : Type} (result : Except Fault α) (p : Player μ) :
    OffStage p (Play.lift result p).2 := refl p

theorem evaluating {α : Type} {e : Evaluation PlayState α} (he : e.OnCells) (p : Player μ) :
    OffStage p (Play.evaluating e p).2 := by
  obtain ⟨memory, rng, hsize, hstate⟩ := he p.state
  have hresult : (Play.evaluating e p).2 = { p with state := (e p.state).2 } := rfl
  rw [hresult, hstate]
  exact ⟨⟨rfl, rfl, rfl, rfl, rfl, rfl, rfl, hsize⟩, rfl, rfl, .inl rfl⟩

theorem number {α : Type} (op : OpToken α) (index : Nat) (p : Player μ) :
    OffStage p (Play.number op index p).2 :=
  bind (lift _) (fun value => evaluating value.onCells_evaluateOne) p

/-- Setting what is neither shown nor a place. -/
theorem setRegister (register : Option Int64) (p : Player μ) :
    OffStage p (updateState (fun s => { s with register := register }) p).2 :=
  ⟨⟨rfl, rfl, rfl, rfl, rfl, rfl, rfl, rfl⟩, rfl, rfl, .inl rfl⟩

theorem setVoice (voice : Option String) (p : Player μ) :
    OffStage p (updateState (fun s => { s with pushedVoice := voice }) p).2 :=
  ⟨⟨rfl, rfl, rfl, rfl, rfl, rfl, rfl, rfl⟩, rfl, rfl, .inl rfl⟩

theorem setFrame (frame : PlayState → Option CallFrame) (p : Player μ) :
    OffStage p (updateState (fun s => { s with callFrame := frame s }) p).2 :=
  ⟨⟨rfl, rfl, rfl, rfl, rfl, rfl, rfl, rfl⟩, rfl, rfl, .inl rfl⟩

theorem pushVoice (name : String) (p : Player μ) : OffStage p (Play.pushVoice name p).2 := by
  rw [Play.pushVoice, bind_apply]
  simp only [state]
  cases p.state.pushedVoice with
  | some pending => exact refl p
  | none => exact setVoice _ p

theorem pushPosition (p : Player μ) : OffStage p (Play.pushPosition p).2 := by
  rw [Play.pushPosition, bind_apply]
  simp only [state]
  cases p.state.callFrame with
  | some frame => exact refl p
  | none => exact setFrame _ p

theorem enterCurrent (name : String) (chunk token : Nat) (p : Player μ) :
    OffStage p (Play.enterCurrent name chunk token p).2 := by
  rw [enterCurrent_apply]
  simp only
  cases hresult : (p.script.tokenizeEvent p.dataChunks chunk false).result with
  | error fault => exact ⟨⟨rfl, rfl, rfl, rfl, rfl, rfl, rfl, rfl⟩, rfl, rfl, .inl rfl⟩
  | ok events =>
    exact ⟨⟨rfl, rfl, rfl, rfl, rfl, rfl, rfl, rfl⟩, rfl, rfl, .inr ⟨_, _, _, hresult⟩⟩

theorem enterLoaded (script : Script) (name : String) (chunk token : Nat) (p : Player μ) :
    OffStage p (Play.enterLoaded script name chunk token p).2 := by
  rw [enterLoaded_apply]
  simp only
  cases hresult : (script.tokenizeEvent [] chunk false).result with
  | error fault => exact refl p
  | ok events =>
    exact ⟨⟨rfl, rfl, rfl, rfl, rfl, rfl, rfl, rfl⟩, rfl, rfl, .inr ⟨_, _, _, hresult⟩⟩

theorem setEvent (chunk : Nat) (p : Player μ) : OffStage p (Play.setEvent chunk p).2 := by
  rw [Play.setEvent, bind_apply]
  exact enterCurrent p.state.script chunk 0 p

variable [MediaSource μ]

theorem load (kind : MediaKind) (name : String) (p : Player μ) :
    OffStage p (Play.load kind name p).2 :=
  ⟨⟨rfl, rfl, rfl, rfl, rfl, rfl, rfl, rfl⟩, rfl, rfl, .inl rfl⟩

theorem findCharacter (name : String) (p : Player μ) :
    OffStage p (Play.findCharacter name p).2 := by
  have hfirst := load .characterArt name p
  simp only [Play.findCharacter]
  rcases hload : Play.load .characterArt name p with ⟨outcome, p'⟩
  rw [hload] at hfirst
  cases outcome with
  | ok view => exact hfirst
  | error fault =>
    simp only
    split
    · cases baseVariant? name with
      | none => exact hfirst
      | some base =>
        have hsecond := hfirst.trans (load .characterArt base p')
        simp only
        rcases hbase : Play.load .characterArt base p' with ⟨outcome, p''⟩
        rw [hbase] at hsecond
        cases outcome with
        | ok view => exact hsecond
        | error fault => exact hsecond
    · exact hfirst

theorem loadAndEnter (name : String) (chunk token : Nat) (p : Player μ) :
    OffStage p
      ((loadScript name >>= fun script => Play.enterLoaded script name chunk token) p).2 :=
  bind (bind (load _ _) fun _ => bind refl fun _ => lift _)
    (fun script => enterLoaded script name chunk token) p

theorem setScript (name : String) (p : Player μ) : OffStage p (Play.setScript name p).2 :=
  loadAndEnter name 0 0 p

theorem setScriptOrForget (name : String) (p : Player μ) :
    OffStage p (Play.setScriptOrForget name p).2 := by
  have hset := setScript name p
  simp only [Play.setScriptOrForget]
  rcases hrun : Play.setScript name p with ⟨outcome, p'⟩
  rw [hrun] at hset
  cases outcome with
  | error fault => exact hset.trans (setFrame (fun _ => none) p')
  | ok _ => exact hset

theorem returnToPosition (p : Player μ) : OffStage p (Play.returnToPosition p).2 := by
  rw [Play.returnToPosition, bind_apply]
  simp only [state]
  cases p.state.callFrame with
  | none => exact refl p
  | some frame =>
    simp only
    by_cases hcase : Text.equalIgnoringAsciiCase frame.script p.state.script = true
    · rw [if_pos hcase]
      exact bind (enterCurrent _ _ _) (fun _ => setFrame fun _ => none) p
    · rw [if_neg hcase, ← bind_assoc]
      exact bind (loadAndEnter _ _ _) (fun _ => setFrame fun _ => none) p

end OffStage

theorem setConversation_apply (chunk : Nat) (p : Player μ) :
    setConversation chunk p =
      match p.state.conv with
      | some active => (.error (.state (.conversationActive active.chunk)), p)
      | none =>
        match (p.script.tokenizeConv chunk false).result with
        | .error fault => (.error fault, p)
        | .ok tokens =>
          (.ok (), { p with
            conv := some tokens
            state := { p.state with conv := some ⟨chunk, 0⟩ } }) := by
  rw [setConversation, bind_apply]
  simp only [state]
  cases p.state.conv with
  | some active => rfl
  | none =>
    simp only
    rw [bind_apply]
    simp only [player]
    rw [bind_apply]
    simp only [lift]
    cases (p.script.tokenizeConv chunk false).result with
    | error fault => rfl
    | ok tokens => rfl

theorem setConversation_sameStage (chunk : Nat) (p : Player μ) :
    SameStage p (setConversation chunk p).2 := by
  rw [setConversation_apply]
  cases p.state.conv with
  | some active => exact (OffStage.refl p).toSameStage
  | none =>
    cases (p.script.tokenizeConv chunk false).result with
    | error fault => exact (OffStage.refl p).toSameStage
    | ok tokens => exact ⟨rfl, rfl, rfl, rfl, rfl, rfl, rfl, rfl⟩

/-- A property of what is on stage that the operations on stage keep is kept by everything that
tokens are put together from. -/
theorem OnStage.effects [MediaSource μ] {P : Player μ → Prop} (h : OnStage (Keeps P))
    (hsame : ∀ {p p' : Player μ}, SameStage p p' → P p → P p') :
    Effects (μ := μ) (Keeps P) (Keeps P) (Keeps P) where
  toOnStage := h
  calmly := id
  quietly := id
  pure _ _ hp := hp
  bind := Keeps.bind
  bindLast := Keeps.bind
  lift _ _ hp := hp
  ask _ _ hp := hp
  number op index p hp := hsame (OffStage.number op index p).toSameStage hp
  pushPosition p hp := hsame (OffStage.pushPosition p).toSameStage hp
  evaluating he p hp := hsame (OffStage.evaluating he p).toSameStage hp
  setRegister _ p hp := hsame (OffStage.setRegister _ p).toSameStage hp
  pushVoice name p hp := hsame (OffStage.pushVoice name p).toSameStage hp
  dropVoice p hp := hsame (OffStage.setVoice none p).toSameStage hp
  setEvent chunk p hp := hsame (OffStage.setEvent chunk p).toSameStage hp
  setScript name p hp := hsame (OffStage.setScript name p).toSameStage hp
  setScriptOrForget name p hp := hsame (OffStage.setScriptOrForget name p).toSameStage hp
  returnToPosition p hp := hsame (OffStage.returnToPosition p).toSameStage hp
  setConversation chunk p hp := hsame (setConversation_sameStage chunk p) hp

/-! ## On screen -/

/-- From one player to another nothing has changed but media, what is shown and the status. -/
inductive Shows (p : Player μ) : Player μ → Prop where
  | intro (media : μ) (recorder : Recorder) (background : Background) (textboxFaded : Bool)
      (characters : Slots) (status : Status) :
      Shows p { p with
        media := media
        recorder := recorder
        state := { p.state with
          background := background
          textboxFaded := textboxFaded
          characters := characters
          status := status } }

theorem Shows.refl (p : Player μ) : Shows p p := .intro _ _ _ _ _ _

theorem Shows.choice {p p' : Player μ} (h : Shows p p') : p'.state.choice = p.state.choice := by
  cases h
  rfl

theorem Shows.memory {p p' : Player μ} (h : Shows p p') : p'.state.memory = p.state.memory := by
  cases h
  rfl

section

variable [MediaSource μ]

theorem findCharacter_media (name : String) (p : Player μ) :
    ∃ media, (findCharacter name p).2 = { p with media := media } := by
  simp only [findCharacter, load_apply]
  cases (MediaSource.load p.media .characterArt name).1 with
  | ok view => exact ⟨_, rfl⟩
  | error fault =>
    simp only
    split
    · cases baseVariant? name with
      | none => exact ⟨_, rfl⟩
      | some base =>
        simp only
        cases (MediaSource.load (MediaSource.load p.media .characterArt name).2
            .characterArt base).1 with
        | ok view => exact ⟨_, rfl⟩
        | error fault => exact ⟨_, rfl⟩
    · exact ⟨_, rfl⟩

theorem Shows.displayBackground (name : String) (viewport : Viewport) (p : Player μ) :
    Shows p (displayBackground name viewport p).2 := by
  rw [displayBackground_apply]
  rcases MediaSource.load p.media .background name with ⟨outcome, media⟩
  cases outcome with
  | error fault => exact .intro _ _ _ _ _ _
  | ok view => exact .intro _ _ _ _ _ _

theorem Shows.drawCharacter (name : String) (slot x : Int64) (p : Player μ) :
    Shows p (drawCharacter name slot x p).2 := by
  obtain ⟨media, hfound⟩ := findCharacter_media name p
  rw [drawCharacter_apply]
  rcases hrun : findCharacter name p with ⟨outcome, p'⟩
  rw [hrun] at hfound
  subst hfound
  cases outcome with
  | error fault => exact .intro _ _ _ _ _ _
  | ok found => exact .intro _ _ _ _ _ _

theorem Shows.playMovie (name : String) (p : Player μ) : Shows p (playMovie name p).2 := by
  simp only [Play.playMovie, load_apply]
  cases (MediaSource.load p.media .movie name).1 with
  | ok view => exact .intro _ _ _ _ _ _
  | error fault => exact .intro _ _ _ _ _ _

/-- What holds of all operations that only show something holds of what event tokens show. -/
theorem OnScreen.of_shows {quiet : ∀ {α : Type}, Play μ α → Prop}
    (h : ∀ {op : Play μ Unit}, (∀ p, Shows p (op p).2) → quiet op) : OnScreen quiet where
  stop := h fun _ => .intro _ _ _ _ _ _
  displayBackground name viewport := h (.displayBackground name viewport)
  panZoom _ _ := h fun _ => .intro _ _ _ _ _ _
  fillBackground _ _ := h fun _ => .intro _ _ _ _ _ _
  drawCharacter name slot x := h (.drawCharacter name slot x)
  clearCharacter _ := h fun _ => .intro _ _ _ _ _ _
  clearAllCharacters _ := h fun _ => .intro _ _ _ _ _ _
  fadeTextbox _ := h fun _ => .intro _ _ _ _ _ _
  playMovie name := h (.playMovie name)

end

theorem Shows.unfadeTextbox (time : Duration) (p : Player μ) :
    Shows p (unfadeTextbox time p).2 := by
  rw [Play.unfadeTextbox, bind_apply]
  simp only [Play.state]
  by_cases hfaded : p.state.textboxFaded = true
  · simp only [hfaded, if_true]
    exact .intro _ _ _ _ _ _
  · simp only [hfaded]
    exact .refl p

/-! ## Token lists -/

/-- The tokens of a conversation are loaded if the player stands in one, and blocks of text are in
conversations only. -/
structure Loaded (p : Player μ) : Prop where
  conv : p.conv.map .ok = convTokens p.script p.state
  events : ∀ t ∈ p.events, ∀ block, t.kind ≠ .textblock block

namespace Loaded

variable {serve : MediaKind → String → Except Fault View} {good : μ → Prop}

theorem conv_eq_none {p : Player μ} (hp : Loaded p) (h : p.state.conv = none) : p.conv = none := by
  have hconv := hp.conv
  rw [convTokens, h] at hconv
  exact Option.map_eq_none_iff.mp hconv

theorem conv_eq_some {p : Player μ} (hp : Loaded p) {position : ConvPosition}
    (h : p.state.conv = some position) :
    ∃ tokens, p.conv = some tokens ∧
      (p.script.tokenizeConv position.chunk false).result = .ok tokens := by
  have hconv := hp.conv
  rw [convTokens, h] at hconv
  obtain ⟨tokens, htokens, hresult⟩ := Option.map_eq_some_iff.mp hconv
  exact ⟨tokens, htokens, hresult.symm⟩

theorem stays {p p' : Player μ} (hp : Loaded p) (h : Stays serve good p p') : Loaded p' where
  conv := by
    rw [h.conv, h.script, convTokens, h.stateConv]
    exact hp.conv
  events := by
    rw [h.events]
    exact hp.events

/-- Between conversations the script may change. -/
theorem offStage {p p' : Player μ} (hp : Loaded p) (hidle : p.state.conv = none)
    (h : OffStage p p') : Loaded p' where
  conv := by
    rw [h.conv, hp.conv_eq_none hidle, convTokens, h.position, hidle]
    rfl
  events := by
    rcases h.events with hsame | ⟨script, known, chunk, hread⟩
    · rw [hsame]
      exact hp.events
    · exact fun t ht => Script.kind_ne_textblock hread ht

theorem setConversation {p : Player μ} (hp : Loaded p) (hidle : p.state.conv = none)
    (chunk : Nat) : Loaded (setConversation chunk p).2 := by
  rw [setConversation_apply, hidle]
  cases hconv : (p.script.tokenizeConv chunk false).result with
  | error fault => exact hp
  | ok tokens =>
    refine ⟨?_, hp.events⟩
    simp only [convTokens, Option.map_some, hconv]

end Loaded

variable [MediaSource μ]

/-- Media of which nothing is known: the laws of sound players then say what stays. -/
theorem serves_unknown : Serves (μ := μ) (fun _ _ => .error .exhausted) fun _ => False where
  answer h := h.elim
  keeps h := h.elim
  ignoresCase _ h := by cases h

/-- Operations that change neither the token lists nor the place in the conversation. -/
abbrev Still {α : Type} (op : Play μ α) : Prop :=
  Quiet (fun _ _ => .error .exhausted) (fun _ => False) op

/-- Operations that keep the token lists loaded when they are done between conversations. They may
start one. -/
def Leads {α : Type} (op : Play μ α) : Prop :=
  ∀ p, Loaded p → p.state.conv = none → Loaded (op p).2

/-- The laws that keep the token lists loaded. -/
theorem loadedLaws : Laws (μ := μ) Still Still Leads where
  calmly := id
  quietly h p hp _ := hp.stays (h p)
  pure := (soundLaws serves_unknown).pure
  bind := (soundLaws serves_unknown).bind
  bindLast := by
    intro α β x f hx hf p hp hidle
    have hstays := hx p
    rw [bind_apply]
    rcases hrun : x p with ⟨outcome, p'⟩
    rw [hrun] at hstays
    cases outcome with
    | error fault => exact hp.stays hstays
    | ok a => exact hf a p' (hp.stays hstays) (hstays.stateConv.trans hidle)
  lift _ p := .refl p
  ask _ p := .refl p
  number op index p := (Calm.number op index p).1
  pushPosition p := (Calm.pushPosition p).1
  evaluating he p := (Calm.evaluating he p).1
  updateState := (soundLaws serves_unknown).updateState
  tell := (soundLaws serves_unknown).tell
  displayBackground := (soundLaws serves_unknown).displayBackground
  drawCharacter := (soundLaws serves_unknown).drawCharacter
  playMovie := (soundLaws serves_unknown).playMovie
  setEvent chunk p hp hidle := hp.offStage hidle (OffStage.setEvent chunk p)
  setScript name p hp hidle := hp.offStage hidle (OffStage.setScript name p)
  setScriptOrForget name p hp hidle := hp.offStage hidle (OffStage.setScriptOrForget name p)
  returnToPosition p hp hidle := hp.offStage hidle (OffStage.returnToPosition p)
  setConversation chunk _ hp hidle := hp.setConversation hidle chunk

theorem showTextblock_still (lines : List String) (voice : Option String) :
    Still (showTextblock (μ := μ) lines voice) :=
  fun p => (showTextblock_spec serves_unknown lines voice p).1

theorem takeVoice_still (source : VoiceSource) : Still (takeVoice (μ := μ) source) :=
  loadedLaws.effects.takeVoice source

theorem newTextblock_loaded (lines : List String) (voice : Option String) :
    Keeps Loaded (newTextblock (μ := μ) lines voice) := by
  refine Keeps.bind (fun p hp => hp.stays (showTextblock_still lines voice p)) fun _ => ?_
  refine Keeps.bind (fun p hp => hp.stays (loadedLaws.unfadeTextbox .fade p)) fun _ => ?_
  exact fun p hp => ⟨hp.conv, hp.events⟩

omit [MediaSource μ] in
theorem poseChoice_loaded : Keeps Loaded (poseChoice (μ := μ)) := by
  refine Keeps.bind (fun p hp => hp) fun s => ?_
  cases s.choice with
  | none => exact fun p hp => hp
  | some choice =>
    simp only
    split
    · exact fun p hp => ⟨hp.conv, hp.events⟩
    · exact fun p hp => ⟨hp.conv, hp.events⟩

/-! ## Showing and posing -/

omit [MediaSource μ] in
theorem poseChoice_apply {p : Player μ} {choice : Choice} (h : p.state.choice = some choice) :
    poseChoice p =
      if choice.options.isEmpty then
        (.error (.playback (.nothingToDisplay choice.candidates)),
          { p with state := { p.state with choice := none } })
      else
        present choice { p with
          state := { p.state with status := .choice }
          backlog := p.backlog ++ [⟨.choice choice, { p.state with status := .choice }⟩] } := by
  rw [poseChoice, bind_apply]
  conv => lhs; simp only [state, h]
  split
  · rfl
  · rfl

/-- A block of text cannot be shown, or comes into the backlog behind the textbox. -/
theorem newTextblock_cases (lines : List String) (voice : Option String) (p : Player μ) :
    (∃ fault media, newTextblock lines voice p = (.error fault, { p with media := media })) ∨
      ∃ media q, q = (unfadeTextbox .fade { p with
          media := media
          recorder := p.recorder.record (.textblock lines voice) }).2 ∧
        newTextblock lines voice p =
          (.ok (), { q with backlog := q.backlog ++ [⟨.textblock lines voice, q.state⟩] }) := by
  have hshown : ∀ media, showTextblock lines voice p = (.ok (), { p with
      media := media
      recorder := p.recorder.record (.textblock lines voice) }) → ∃ media q,
      q = (unfadeTextbox .fade { p with
        media := media
        recorder := p.recorder.record (.textblock lines voice) }).2 ∧
      newTextblock lines voice p =
        (.ok (), { q with backlog := q.backlog ++ [⟨.textblock lines voice, q.state⟩] }) := by
    intro media hshow
    refine ⟨media, _, rfl, ?_⟩
    rw [newTextblock, bind_apply, hshow]
    simp only
    rw [bind_apply]
    have hok := unfadeTextbox_ok .fade { p with
      media := media
      recorder := p.recorder.record (.textblock lines voice) }
    rcases hrun : unfadeTextbox .fade { p with
      media := media
      recorder := p.recorder.record (.textblock lines voice) } with ⟨outcome, q⟩
    rw [hrun] at hok
    obtain rfl : outcome = .ok () := hok
    rfl
  cases voice with
  | none => exact .inr (hshown p.media (showTextblock_apply lines none p))
  | some name =>
    have happly := showTextblock_apply lines (some name) p
    simp only at happly
    rcases hload : MediaSource.load p.media .voice name with ⟨outcome, media⟩
    rw [hload] at happly
    cases outcome with
    | ok view => exact .inr (hshown media happly)
    | error fault =>
      refine .inl ⟨fault, media, ?_⟩
      rw [newTextblock, bind_apply, happly]

/-! ## Playing a token -/

/-- What playing on by one token comes down to. -/
inductive Advances (p : Player μ) : Except Fault Unit × Player μ → Prop where
  | event (t : Token) (hidle : p.state.conv = none)
      (hkind : ∀ block, t.kind ≠ .textblock block) :
      Advances p (playToken t { p with state := { p.state with token := p.state.token + 1 } })
  | chunk (hidle : p.state.conv = none) : Advances p (setEvent (p.state.chunk + 1) p)
  | conv (t : Token) (position : ConvPosition) (hposition : p.state.conv = some position)
      (hkind : ∀ op, t.kind ≠ .event op) :
      Advances p (playToken t { p with
        state := { p.state with conv := some { position with token := position.token + 1 } } })
  | poses (hpending : p.state.choicePending = true) :
      Advances p (poseChoice { p with conv := none, state := { p.state with conv := none } })
  | ends : Advances p (.ok (), { p with conv := none, state := { p.state with conv := none } })

theorem Loaded.advances {p : Player μ} (hp : Loaded p) : Advances p (advance p) := by
  rw [advance, bind_apply]
  simp only [player]
  cases hposition : p.state.conv with
  | none =>
    simp only [hp.conv_eq_none hposition]
    cases htoken : p.events[p.state.token]? with
    | none => exact .chunk hposition
    | some t => exact .event t hposition (hp.events t (List.mem_of_getElem? htoken))
  | some position =>
    obtain ⟨tokens, htokens, hresult⟩ := hp.conv_eq_some hposition
    simp only [htokens]
    cases htoken : tokens[position.token]? with
    | some t =>
      have hmem := List.mem_of_getElem? htoken
      exact .conv t position hposition fun op => Script.kind_of_mem_tokenizeConv hresult hmem op
    | none =>
      simp only
      rw [bind_apply]
      simp only [update]
      by_cases hpending : p.state.choicePending = true
      · rw [if_pos hpending]
        exact .poses hpending
      · rw [if_neg hpending]
        exact .ends

omit [MediaSource μ] in
theorem Loaded.endConv {p : Player μ} (hp : Loaded p) :
    Loaded { p with conv := none, state := { p.state with conv := none } } :=
  ⟨rfl, hp.events⟩

/-- Playing a token keeps the token lists loaded. Event tokens are played between conversations. -/
theorem Loaded.playToken {p : Player μ} (hp : Loaded p) (t : Token)
    (hidle : ∀ op, t.kind = .event op → p.state.conv = none) : Loaded (playToken t p).2 := by
  have laws := (loadedLaws (μ := μ)).effects
  unfold Play.playToken
  cases hkind : t.kind with
  | event op => exact laws.playEvent op p hp (hidle op hkind)
  | conv op => exact hp.stays (laws.playConv op p)
  | text text => exact hp.stays (laws.unplayable t p)
  | data view => exact hp.stays (laws.unplayable t p)
  | textblock block =>
    have htake : Keeps Loaded (takeVoice (μ := μ) block.voice) :=
      fun p hp => hp.stays (takeVoice_still block.voice p)
    exact htake.bind (fun voice => newTextblock_loaded block.lines voice) p hp

theorem Loaded.advance {p : Player μ} (hp : Loaded p) : Loaded (advance p).2 := by
  have hadvances := hp.advances
  generalize Play.advance p = run at hadvances ⊢
  cases hadvances with
  | event t hidle hkind =>
    have hmoved : Loaded { p with state := { p.state with token := p.state.token + 1 } } :=
      ⟨hp.conv, hp.events⟩
    exact hmoved.playToken t fun _ _ => hidle
  | chunk hidle => exact hp.offStage hidle (OffStage.setEvent _ p)
  | conv t position hposition hkind =>
    have hconv := hp.conv
    rw [convTokens, hposition] at hconv
    have hmoved : Loaded { p with
        state := { p.state with conv := some { position with token := position.token + 1 } } } :=
      ⟨hconv, hp.events⟩
    exact hmoved.playToken t fun op hop => absurd hop (hkind op)
  | poses hpending => exact poseChoice_loaded _ hp.endConv
  | ends => exact hp.endConv

/-- What has to be known of a property `P` of what is on stage so that a player of which it holds
plays on by one token to one of which `Q` holds: posing a choice ends the playing, so that it does
not have to keep `P`. -/
structure StageLaws (P Q : Player μ → Prop) : Prop where
  same : ∀ {p p' : Player μ}, SameStage p p' → P p → P p'
  onStage : OnStage (μ := μ) (Keeps P)
  done : ∀ {p : Player μ}, P p → Q p
  newTextblock : ∀ {p : Player μ} (lines : List String) (voice : Option String), P p →
    p.state.conv ≠ none → P (newTextblock lines voice p).2
  poseChoice : ∀ {p : Player μ}, P p → p.state.conv = none → p.state.choicePending = true →
    Q (poseChoice p).2

theorem StageLaws.playToken {P Q : Player μ → Prop} (laws : StageLaws P Q) {p : Player μ} (h : P p)
    (t : Token) (htext : ∀ block, t.kind = .textblock block → p.state.conv ≠ none) :
    P (playToken t p).2 := by
  have effects := laws.onStage.effects laws.same
  unfold Play.playToken
  cases hkind : t.kind with
  | event op => exact effects.playEvent op p h
  | conv op => exact effects.playConv op p h
  | text text => exact effects.unplayable t p h
  | data view => exact effects.unplayable t p h
  | textblock block =>
    have hvoice := effects.takeVoice block.voice p h
    have hstill := takeVoice_still block.voice p
    simp only
    rw [bind_apply]
    rcases hrun : takeVoice block.voice p with ⟨outcome, p'⟩
    rw [hrun] at hvoice hstill
    cases outcome with
    | error fault => exact hvoice
    | ok voice =>
      refine laws.newTextblock block.lines voice hvoice ?_
      rw [hstill.stateConv]
      exact htext block hkind

theorem StageLaws.advance {P Q : Player μ → Prop} (laws : StageLaws P Q) {p : Player μ}
    (hp : Loaded p) (h : P p) : Q (advance p).2 := by
  -- no place in the script is on stage
  have hplace : ∀ token conv position,
      P { p with conv := conv, state := { p.state with token := token, conv := position } } :=
    fun _ _ _ => laws.same (p := p) ⟨rfl, rfl, rfl, rfl, rfl, rfl, rfl, rfl⟩ h
  have hadvances := hp.advances
  generalize Play.advance p = run at hadvances ⊢
  cases hadvances with
  | event t hidle hkind =>
    refine laws.done (laws.playToken (hplace _ p.conv p.state.conv) t ?_)
    exact fun block hblock => absurd hblock (hkind block)
  | chunk hidle => exact laws.done (laws.same (OffStage.setEvent _ p).toSameStage h)
  | conv t position hposition hkind =>
    refine laws.done (laws.playToken (hplace p.state.token p.conv _) t ?_)
    exact fun _ _ hnone => by cases hnone
  | poses hpending => exact laws.poseChoice (hplace p.state.token none none) rfl hpending
  | ends => exact laws.done (hplace p.state.token none none)

/-! ## Playing on -/

/-- What every token keeps is kept by playing on, but for the status that a failure leaves. -/
theorem playTokens_keeps {P : Player μ → Prop}
    (hadvance : ∀ {p : Player μ}, P p → p.state.status = .running → P (advance p).2)
    {p : Player μ} (h : P p) (budget : Nat) :
    match playTokens budget p with
    | (.ok status, p') => P p' ∧ p'.state.status = status ∧ status ≠ .running
    | (.error _, p') =>
      P p' ∨ ∃ q, P q ∧ p' = { q with state := { q.state with status := .error } } := by
  induction budget generalizing p with
  | zero => exact .inl h
  | succ budget ih =>
    by_cases hrunning : p.state.status = .running
    · have hplayed := hadvance h hrunning
      rw [playTokens_succ hrunning]
      rcases hrun : advance p with ⟨outcome, p'⟩
      rw [hrun] at hplayed
      cases outcome with
      | ok _ => exact ih hplayed
      | error fault =>
        simp only
        by_cases hskip : (p'.options.continueOnError && fault.isPlayback) = true
        · rw [if_pos hskip]
          exact ih hplayed
        · rw [if_neg hskip]
          exact .inr ⟨p', hplayed, rfl⟩
    · rw [playTokens_stands hrunning]
      exact ⟨h, rfl, hrunning⟩

theorem process_keeps {P : Player μ → Prop}
    (hstatus : ∀ {p : Player μ} {status : Status}, P p → status = .running ∨ status = .error →
      P { p with state := { p.state with status := status } })
    (hadvance : ∀ {p : Player μ}, P p → p.state.status = .running → P (advance p).2)
    (budget : Nat) : Keeps P (process budget) := by
  intro p hp
  rw [process_apply]
  cases refusal? p.options p.state with
  | some fault => exact hp
  | none =>
    have hkept := playTokens_keeps hadvance (hstatus hp (.inl rfl)) budget
    simp only
    rcases hrun : playTokens budget
      { p with state := { p.state with status := .running } } with ⟨outcome, p'⟩
    rw [hrun] at hkept
    cases outcome with
    | ok status => exact hkept.1
    | error fault =>
      rcases hkept with hkept | ⟨q, hq, rfl⟩
      · exact hkept
      · exact hstatus hq (.inr rfl)

/-! ## Going back -/

end Play

/-- Every event chunk that is known to hold data is referred to in the script. -/
def Player.Referred {μ : Type} (p : Player μ) : Prop :=
  ∀ i ∈ p.dataChunks, ∃ known chunk, i ∈ (p.script.tokenizeEvent known chunk false).targets

/-- The calls that draw a background again. -/
def Background.redrawn (b : Background) : List FrontendCall :=
  match b.fill, b.image with
  | some colour, _ => [.fadeBackgroundFill colour .zero]
  | none, some name => [.displayBackground name b.viewport .zero]
  | none, none => []

/-- The calls that draw characters again. -/
def CharacterArt.redrawn (entries : List (Int64 × CharacterArt)) : List FrontendCall :=
  entries.map fun (slot, art) => .displayCharacter art.image slot art.x .zero

/-- The calls that draw the scene of a state again. -/
def PlayState.redrawn (s : PlayState) : List FrontendCall :=
  .clearAllCharacters .zero :: (s.background.redrawn ++
    (CharacterArt.redrawn s.characters.entries ++
      [if s.textboxFaded then .fadeTextbox .zero else .unfadeTextbox .zero]))

namespace Play

variable {μ : Type}

/-- An operation does no more than load media and tell the front end, and it has made exactly these
calls if it succeeds. -/
def Makes (calls : List FrontendCall) (op : Play μ Unit) (p : Player μ) : Prop :=
  ∃ media told, (op p).2 = withMediaAndCalls p media told ∧ ((op p).1 = .ok () → told = calls)

theorem Makes.nothing (p : Player μ) : Makes [] (pure ()) p :=
  ⟨p.media, [], by simp [withMediaAndCalls]; rfl, fun _ => rfl⟩

theorem Makes.tell (call : FrontendCall) (p : Player μ) : Makes [call] (Play.tell call) p :=
  ⟨p.media, [call], rfl, fun _ => rfl⟩

theorem Makes.bind {calls more : List FrontendCall} {x : Play μ Unit} {f : Unit → Play μ Unit}
    {p : Player μ} (hx : Makes calls x p)
    (hf : ∀ media told, Makes more (f ()) (withMediaAndCalls p media told)) :
    Makes (calls ++ more) (x >>= f) p := by
  obtain ⟨media, told, hplayer, hcalls⟩ := hx
  obtain ⟨media', told', hplayer', hcalls'⟩ := hf media told
  unfold Makes
  rw [bind_apply]
  rcases hrun : x p with ⟨outcome, p'⟩
  rw [hrun] at hplayer hcalls
  obtain rfl : p' = _ := hplayer
  cases outcome with
  | error fault => exact ⟨media, told, rfl, fun h => by cases h⟩
  | ok _ =>
    refine ⟨media', told ++ told', ?_, fun h => ?_⟩
    · refine hplayer'.trans ?_
      simp only [withMediaAndCalls, List.append_assoc]
    · rw [hcalls rfl, hcalls' h]

variable [MediaSource μ]

theorem Makes.load (kind : MediaKind) (name : String) (p : Player μ) :
    Makes [] (discard (Play.load kind name)) p := by
  refine ⟨(MediaSource.load p.media kind name).2, [], ?_, fun _ => rfl⟩
  rw [discard_eq, bind_apply, load_apply]
  cases (MediaSource.load p.media kind name).1 with
  | error fault => simp [withMediaAndCalls]
  | ok view => simp [withMediaAndCalls]; rfl

theorem Makes.redrawCharacters (entries : List (Int64 × CharacterArt)) (p : Player μ) :
    Makes (CharacterArt.redrawn entries) (Play.redrawCharacters entries) p := by
  induction entries generalizing p with
  | nil => exact .nothing p
  | cons entry entries ih =>
    obtain ⟨slot, art⟩ := entry
    exact (Makes.load .characterArt art.image p).bind fun _ _ =>
      (Makes.tell (.displayCharacter art.image slot art.x .zero) _).bind fun _ _ => ih _

/-- Drawing the scene again tells the front end the whole scene. -/
theorem Makes.redraw (p : Player μ) : Makes p.state.redrawn Play.redraw p := by
  have hrest : ∀ p' : Player μ, Makes (CharacterArt.redrawn p.state.characters.entries ++
      [if p.state.textboxFaded then .fadeTextbox .zero else .unfadeTextbox .zero])
      (Play.redrawCharacters p.state.characters.entries >>= fun _ =>
        if p.state.textboxFaded then Play.tell (.fadeTextbox .zero)
        else Play.tell (.unfadeTextbox .zero)) p' := by
    intro p'
    refine (Makes.redrawCharacters _ p').bind fun media told => ?_
    by_cases hfaded : p.state.textboxFaded = true
    · rw [if_pos hfaded, if_pos hfaded]
      exact .tell _ _
    · rw [if_neg hfaded, if_neg hfaded]
      exact .tell _ _
  refine (Makes.tell (.clearAllCharacters .zero) p).bind fun media told => ?_
  have hread : ∀ f : PlayState → Play μ Unit,
      (state >>= f) (withMediaAndCalls p media told) =
        f p.state (withMediaAndCalls p media told) := fun f => rfl
  unfold Makes
  rw [hread]
  cases hfill : p.state.background.fill with
  | some colour =>
    simp only [Background.redrawn, hfill]
    exact (Makes.tell _ _).bind fun _ _ => hrest _
  | none =>
    cases himage : p.state.background.image with
    | none =>
      simp only [Background.redrawn, hfill, himage]
      exact hrest _
    | some name =>
      simp only [Background.redrawn, hfill, himage]
      exact (Makes.load .background name _).bind fun _ _ =>
        (Makes.tell _ _).bind fun _ _ => hrest _

/-- The player in which the scene of a restored state is drawn. -/
structure Resumed (p : Player μ) (s : PlayState) (q : Player μ) : Prop where
  loaded : Loaded q
  referred : q.Referred
  recorder : q.recorder = p.recorder
  backlog : q.backlog = p.backlog
  state : q.state = s

/-- Restoring fails before anything but media has changed, or draws the scene in a player that
stands at the state. -/
theorem restore_cases (s : PlayState) (p : Player μ) :
    (∃ fault media, restore s p = (.error fault, { p with media := media })) ∨
      ∃ q, Resumed p s q ∧ restore s p = redraw q := by
  rw [restore, bind_apply, loadScript, bind_apply, load_apply]
  cases (MediaSource.load p.media .script s.script).1 with
  | error fault => exact .inl ⟨fault, _, rfl⟩
  | ok view =>
    simp only
    rw [bind_apply]
    simp only [player, lift]
    cases Script.parse view s.script p.options.title p.options.parse with
    | error fault => exact .inl ⟨fault, _, rfl⟩
    | ok script =>
      simp only
      rw [bind_apply]
      cases hevents : (script.tokenizeEvent [] s.chunk false).result with
      | error fault => exact .inl ⟨fault, _, rfl⟩
      | ok events =>
        have hkind : ∀ t ∈ events, ∀ block, t.kind ≠ .textblock block :=
          fun t ht => Script.kind_ne_textblock hevents ht
        let resumed (conv : Option (List Token)) : Player μ := { p with
          media := (MediaSource.load p.media .script s.script).2
          script := script
          dataChunks := DataChunks.extend [] (script.tokenizeEvent [] s.chunk false).targets
          events := events
          conv := conv
          state := s }
        have hreferred : ∀ conv, (resumed conv).Referred := fun conv i hi =>
          ⟨[], s.chunk, (DataChunks.mem_extend.mp hi).resolve_left List.not_mem_nil⟩
        simp only [lift]
        cases hposition : s.conv with
        | none =>
          refine .inr ⟨resumed none, ⟨⟨?_, hkind⟩, hreferred none, rfl, rfl, rfl⟩, rfl⟩
          simp [resumed, convTokens, hposition]
        | some position =>
          simp only
          cases hconv : (script.tokenizeConv position.chunk false).result with
          | error fault => exact .inl ⟨fault, _, rfl⟩
          | ok tokens =>
            refine .inr ⟨resumed (some tokens),
              ⟨⟨?_, hkind⟩, hreferred (some tokens), rfl, rfl, rfl⟩, rfl⟩
            simp [resumed, convTokens, hposition, hconv]

/-- What going back to an entry comes down to: it is refused, or the scene cannot be drawn, or the
item of the entry is shown again. -/
inductive GoesBack (p : Player μ) (index : Nat) : Except Fault Unit × Player μ → Prop where
  | refused (fault : Fault) (media : μ) : GoesBack p index (.error fault, { p with media := media })
  | undrawn {entry : BacklogEntry} (hentry : p.backlog[index]? = some entry) {q : Player μ}
      (hq : Resumed p entry.state q) (fault : Fault) (media : μ) (calls : List FrontendCall) :
      GoesBack p index (.error fault, withMediaAndCalls q media calls)
  | text {entry : BacklogEntry} (hentry : p.backlog[index]? = some entry) {lines : List String}
      {voice : Option String} (hitem : entry.item = .textblock lines voice) {q : Player μ}
      (hq : Resumed p entry.state q) (media : μ) :
      GoesBack p index (showTextblock lines voice
        { withMediaAndCalls q media entry.state.redrawn with
          backlog := q.backlog.take (index + 1) })
  | choice {entry : BacklogEntry} (hentry : p.backlog[index]? = some entry) {choice : Choice}
      (hitem : entry.item = .choice choice) {q : Player μ} (hq : Resumed p entry.state q)
      (media : μ) :
      GoesBack p index (present choice
        { withMediaAndCalls q media entry.state.redrawn with
          backlog := q.backlog.take (index + 1) })

theorem jumpBack_goesBack (index : Nat) (p : Player μ) : GoesBack p index (jumpBack index p) := by
  cases hentry : p.backlog[index]? with
  | none =>
    rw [jumpBack_of_none hentry]
    exact .refused _ p.media
  | some entry =>
    rw [jumpBack, bind_apply]
    simp only [player, hentry]
    rw [bind_apply]
    obtain ⟨fault, media, hrestore⟩ | ⟨q, hq, hrestore⟩ := restore_cases entry.state p
    · rw [hrestore]
      exact .refused fault media
    · obtain ⟨media, told, hplayer, hcalls⟩ := Makes.redraw q
      rw [hrestore]
      rcases hrun : redraw q with ⟨outcome, q'⟩
      rw [hrun] at hplayer hcalls
      obtain rfl : q' = _ := hplayer
      cases outcome with
      | error fault => exact .undrawn hentry hq fault media told
      | ok _ =>
        obtain rfl := hcalls rfl
        rw [hq.state]
        simp only
        rw [bind_apply]
        cases hitem : entry.item with
        | textblock lines voice => exact .text hentry hitem hq media
        | choice choice => exact .choice hentry hitem hq media

/-! ## Calls -/

/-- A new player stands at the start of its script, and nothing was shown yet. -/
theorem new_spec {media : μ} {recorder : Recorder} {options : RuntimeOptions} {p : Player μ}
    (h : (Player.new media recorder options).1 = .ok p) :
    Loaded p ∧ p.recorder = recorder ∧ p.backlog = [] ∧
      p.state = .new options.start (options.seed.getD 0) := by
  obtain ⟨_, script, events, _, _, hevents, rfl⟩ := new_ok h
  exact ⟨⟨rfl, fun t ht => Script.kind_ne_textblock hevents ht⟩, rfl, rfl, rfl⟩

/-- What every call keeps holds of every player that calls lead to. -/
theorem after_keeps {P : Player μ → Prop} (hprocess : ∀ budget, Keeps P (process budget))
    (hchoose : ∀ index, Keeps P (choose index)) (hback : ∀ index, Keeps P (jumpBack index))
    {p : Player μ} (h : P p) (calls : List Call) : P (p.after calls) := by
  induction calls generalizing p with
  | nil => exact h
  | cons call calls ih =>
    rw [Player.after_cons]
    refine ih ?_
    cases call with
    | process budget =>
      rw [Call.run_process]
      exact hprocess budget p h
    | choose index =>
      rw [Call.run, Call.run_of_unit]
      exact hchoose index p h
    | jumpBack index =>
      rw [Call.run, Call.run_of_unit]
      exact hback index p h

end Play

end NovelScript
