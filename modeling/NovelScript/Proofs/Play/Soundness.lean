import NovelScript.Proofs.Play.Laws

/-! # Sound players

A player is sound if what it holds could be read again: its script from the name in the state, its
tokens from the script and the position, its pictures from their names, and the same for every state
in the backlog. Media are taken to answer by a fixed function of kind and name, to which the case of
ASCII letters does not matter. Every player that a new one becomes is sound. -/

namespace NovelScript

/-- Media that answer by the function `serve` as long as their own state is `good`, which loading
keeps. What can be loaded can be loaded under every name that differs in the case of ASCII letters
only. -/
structure Serves {μ : Type} [MediaSource μ] (serve : MediaKind → String → Except Fault View)
    (good : μ → Prop) : Prop where
  answer : ∀ {m : μ}, good m → ∀ kind name, (MediaSource.load m kind name).1 = serve kind name
  keeps : ∀ {m : μ}, good m → ∀ kind name, good (MediaSource.load m kind name).2
  ignoresCase : ∀ {kind : MediaKind} {a b : String} {view : View},
    Text.equalIgnoringAsciiCase a b = true → serve kind a = .ok view → serve kind b = .ok view

namespace FixedMedia

/-- Media that hold one script and nothing else. -/
def onlyScript (name : String) (bytes : Bytes) : FixedMedia where
  find kind asked :=
    if kind = .script ∧ Text.equalIgnoringAsciiCase asked name = true then some bytes else none

theorem load_snd (m : FixedMedia) (kind : MediaKind) (name : String) :
    (MediaSource.load m kind name).2 = m := by
  simp only [MediaSource.load]
  split
  · rfl
  · rfl

theorem equalIgnoringAsciiCase_congr {a b : String} (h : Text.equalIgnoringAsciiCase a b = true)
    (name : String) :
    Text.equalIgnoringAsciiCase a name = Text.equalIgnoringAsciiCase b name := by
  simp only [Text.equalIgnoringAsciiCase, beq_iff_eq] at h ⊢
  rw [h]

/-- Fixed media serve if the case of ASCII letters does not matter for them. -/
theorem serves {m : FixedMedia}
    (h : ∀ {kind a b}, Text.equalIgnoringAsciiCase a b = true → m.find kind a = m.find kind b) :
    Serves (fun kind asked => (MediaSource.load m kind asked).1) (· = m) where
  answer := by
    rintro _ rfl kind asked
    rfl
  keeps := by
    rintro _ rfl kind asked
    exact load_snd _ kind asked
  ignoresCase := by
    intro kind a b view hcase hload
    simp only [MediaSource.load, h hcase] at hload ⊢
    split at hload
    · exact hload
    · cases hload

theorem onlyScript_serves (name : String) (bytes : Bytes) :
    Serves (fun kind asked => (MediaSource.load (onlyScript name bytes) kind asked).1)
      (· = onlyScript name bytes) := by
  refine serves fun hcase => ?_
  simp only [onlyScript, equalIgnoringAsciiCase_congr hcase name]

end FixedMedia

namespace Play

section Invariant

variable {μ : Type} (serve : MediaKind → String → Except Fault View) (good : μ → Prop)

/-- The script that a name stands for. -/
def scriptNamed (options : RuntimeOptions) (name : String) : Except Fault Script := do
  Script.parse (← serve .script name) name options.title options.parse

/-- Every picture on screen can be loaded. -/
structure SceneLoads (s : PlayState) : Prop where
  background : ∀ name, s.background.image = some name → ∃ view, serve .background name = .ok view
  characters : ∀ entry ∈ s.characters.entries, ∃ view, serve .characterArt entry.2.image = .ok view

/-- The tokens of the conversation that a state stands in, if it stands in one. -/
def convTokens (script : Script) (s : PlayState) : Option (Except Fault (List Token)) :=
  s.conv.map fun position => (script.tokenizeConv position.chunk false).result

/-- A state can be resumed at, with these token lists. -/
structure Resumes (options : RuntimeOptions) (s : PlayState) (events : List Token)
    (conv : Option (List Token)) : Prop where
  tokens : ∃ script, scriptNamed serve options s.script = .ok script ∧
    (script.tokenizeEvent [] s.chunk false).result = .ok events ∧
    conv.map .ok = convTokens script s
  scene : SceneLoads serve s

/-- An entry of the backlog can be gone back to: its state can be resumed at, and its item shown
again. -/
structure Restorable (options : RuntimeOptions) (entry : BacklogEntry) : Prop where
  resumes : ∃ events conv, Resumes serve options entry.state events conv
  item : match entry.item with
    | .textblock _ voice => ∀ name ∈ voice, ∃ view, serve .voice name = .ok view
    | .choice choice => entry.state.choice = some choice

/-- The player stands in an event chunk that was read as code. -/
structure OnCode (p : Player μ) : Prop where
  events : (p.script.tokenizeEvent [] p.state.chunk false).result = .ok p.events
  targets : ∀ i ∈ (p.script.tokenizeEvent [] p.state.chunk false).targets, i ∈ p.dataChunks

/-- The player stands in an event chunk that is known to hold data, and is passing it. -/
structure OnData (p : Player μ) : Prop where
  events : ∃ chunk : View, p.events = [⟨chunk.offset, none, .data chunk⟩]
  known : p.state.chunk ∈ p.dataChunks
  idle : p.state.conv = none
  status : p.state.status = .running ∨ p.state.status = .error

/-- What the player holds could be read again from the names and positions in its state. -/
structure Sound (p : Player μ) : Prop where
  media : good p.media
  script : ∃ script, scriptNamed serve p.options p.state.script = .ok script ∧
    script.anonymous = p.script.anonymous
  tokens : OnCode p ∨ OnData p
  conv : p.conv.map .ok = convTokens p.script p.state
  scene : SceneLoads serve p.state
  backlog : ∀ entry ∈ p.backlog, Restorable serve p.options entry

end Invariant

variable {μ : Type} {serve : MediaKind → String → Except Fault View} {good : μ → Prop}

/-! ## Staying in a chunk -/

/-- From one player to another nothing has changed that the token lists and the backlog depend on,
and no picture has come on screen that cannot be loaded. -/
structure Stays (serve : MediaKind → String → Except Fault View) (good : μ → Prop)
    (p p' : Player μ) : Prop where
  options : p'.options = p.options
  script : p'.script = p.script
  dataChunks : p'.dataChunks = p.dataChunks
  events : p'.events = p.events
  conv : p'.conv = p.conv
  backlog : p'.backlog = p.backlog
  position : (p'.state.script, p'.state.chunk, p'.state.conv) =
    (p.state.script, p.state.chunk, p.state.conv)
  media : good p.media → good p'.media
  scene : good p.media → SceneLoads serve p.state → SceneLoads serve p'.state

namespace Stays

variable {p p' p'' : Player μ}

theorem refl (p : Player μ) : Stays serve good p p :=
  ⟨rfl, rfl, rfl, rfl, rfl, rfl, rfl, id, fun _ => id⟩

theorem trans (h : Stays serve good p p') (h' : Stays serve good p' p'') :
    Stays serve good p p'' where
  options := h'.options.trans h.options
  script := h'.script.trans h.script
  dataChunks := h'.dataChunks.trans h.dataChunks
  events := h'.events.trans h.events
  conv := h'.conv.trans h.conv
  backlog := h'.backlog.trans h.backlog
  position := h'.position.trans h.position
  media := fun hgood => h'.media (h.media hgood)
  scene := fun hgood hscene => h'.scene (h.media hgood) (h.scene hgood hscene)

theorem stateScript (h : Stays serve good p p') : p'.state.script = p.state.script :=
  congrArg (·.1) h.position

theorem stateChunk (h : Stays serve good p p') : p'.state.chunk = p.state.chunk :=
  congrArg (·.2.1) h.position

theorem stateConv (h : Stays serve good p p') : p'.state.conv = p.state.conv :=
  congrArg (·.2.2) h.position

theorem onCode (h : Stays serve good p p') (hp : OnCode p) : OnCode p' where
  events := by
    rw [h.script, h.stateChunk, h.events]
    exact hp.events
  targets := by
    rw [h.script, h.stateChunk, h.dataChunks]
    exact hp.targets

/-- A player that stays in a code chunk stays sound. -/
theorem sound (h : Stays serve good p p') (hp : Sound serve good p) (hcode : OnCode p) :
    Sound serve good p' where
  media := h.media hp.media
  script := by
    rw [h.options, h.script, h.stateScript]
    exact hp.script
  tokens := .inl (h.onCode hcode)
  conv := by
    rw [h.conv, h.script, convTokens, h.stateConv]
    exact hp.conv
  scene := h.scene hp.media hp.scene
  backlog := by
    rw [h.options, h.backlog]
    exact hp.backlog

/-- A change of the state alone that stays at the position and puts no new picture on screen. -/
theorem updateState {f : PlayState → PlayState} (hf : PlayState.Plain f) (p : Player μ) :
    Stays serve good p { p with state := f p.state } where
  options := rfl
  script := rfl
  dataChunks := rfl
  events := rfl
  conv := rfl
  backlog := rfl
  position := by simp only [hf.script, hf.chunk, hf.conv]
  media := id
  scene := by
    intro _ hscene
    refine ⟨fun name hname => hscene.background name (hf.image p.state ▸ hname), ?_⟩
    exact fun entry hentry => hscene.characters entry (hf.characters p.state hentry)

theorem recorder (p : Player μ) (recorder : Recorder) :
    Stays serve good p { p with recorder := recorder } :=
  ⟨rfl, rfl, rfl, rfl, rfl, rfl, rfl, id, fun _ => id⟩

end Stays

/-- Operations that stay where they are. -/
def Quiet (serve : MediaKind → String → Except Fault View) (good : μ → Prop) {α : Type}
    (op : Play μ α) : Prop :=
  ∀ p, Stays serve good p (op p).2

/-- Operations that stay where they are and leave the status alone. -/
def Calm (serve : MediaKind → String → Except Fault View) (good : μ → Prop) {α : Type}
    (op : Play μ α) : Prop :=
  ∀ p, Stays serve good p (op p).2 ∧ (op p).2.state.status = p.state.status

theorem Quiet.bind {α β : Type} {x : Play μ α} {f : α → Play μ β} (hx : Quiet serve good x)
    (hf : ∀ a, Quiet serve good (f a)) : Quiet serve good (x >>= f) := by
  intro p
  rw [bind_apply]
  have hfirst := hx p
  rcases hrun : x p with ⟨outcome, p'⟩
  rw [hrun] at hfirst
  cases outcome with
  | error fault => exact hfirst
  | ok a => exact hfirst.trans (hf a p')

theorem Calm.evaluating {α : Type} {e : Evaluation PlayState α} (he : e.OnCells) :
    Calm serve good (Play.evaluating (μ := μ) e) := by
  intro p
  obtain ⟨memory, rng, -, hstate⟩ := he p.state
  have hplain : PlayState.Plain fun s => { s with memory := memory, rng := rng } :=
    .same fun _ => rfl
  have hresult : (Play.evaluating e p).2 = { p with state := (e p.state).2 } := rfl
  rw [hresult, hstate]
  exact ⟨Stays.updateState hplain p, rfl⟩

theorem Calm.number {α : Type} (op : OpToken α) (index : Nat) :
    Calm serve good (Play.number (μ := μ) op index) := by
  intro p
  rw [Play.number, bind_apply]
  simp only [Play.lift]
  cases op.value index with
  | error fault => exact ⟨.refl p, rfl⟩
  | ok value => exact Calm.evaluating value.onCells_evaluateOne p

theorem Calm.pushPosition : Calm serve good (Play.pushPosition (μ := μ)) := by
  intro p
  rw [Play.pushPosition, bind_apply]
  simp only [Play.state]
  cases p.state.callFrame with
  | some frame => exact ⟨.refl p, rfl⟩
  | none =>
    have hplain : PlayState.Plain fun s : PlayState =>
        { s with callFrame := some ⟨s.script, s.chunk, s.token⟩ } := .same fun _ => rfl
    exact ⟨Stays.updateState hplain p, rfl⟩

/-! ## Moving to another chunk -/

/-- A player between two event tokens. -/
structure Idle (serve : MediaKind → String → Except Fault View) (good : μ → Prop)
    (p : Player μ) : Prop where
  sound : Sound serve good p
  conv : p.state.conv = none
  status : p.state.status = .running

/-- A sound player with the backlog that it had. -/
structure Arrives (serve : MediaKind → String → Except Fault View) (good : μ → Prop)
    (p p' : Player μ) : Prop where
  sound : Sound serve good p'
  backlog : p'.backlog = p.backlog
  options : p'.options = p.options

theorem Stays.arrives {p p' : Player μ} (h : Stays serve good p p') (hp : Sound serve good p)
    (hcode : OnCode p) : Arrives serve good p p' :=
  ⟨h.sound hp hcode, h.backlog, h.options⟩

theorem enterCurrent_apply (name : String) (chunk token : Nat) (p : Player μ) :
    enterCurrent name chunk token p =
      let read := p.script.tokenizeEvent p.dataChunks chunk false
      let known := p.dataChunks.extend read.targets
      match read.result with
      | .error fault => (.error fault, { p with dataChunks := known })
      | .ok events =>
        (.ok (), { p with
          dataChunks := known
          events := events
          state := { p.state with script := name, chunk := chunk, token := token } }) := by
  rw [enterCurrent, bind_apply]
  simp only [player]
  rw [bind_apply]
  simp only [update]
  rw [bind_apply]
  cases (p.script.tokenizeEvent p.dataChunks chunk false).result with
  | error fault => rfl
  | ok events => rfl

theorem enterLoaded_apply (script : Script) (name : String) (chunk token : Nat) (p : Player μ) :
    enterLoaded script name chunk token p =
      let read := script.tokenizeEvent [] chunk false
      match read.result with
      | .error fault => (.error fault, p)
      | .ok events =>
        (.ok (), { p with
          script := script
          dataChunks := DataChunks.extend [] read.targets
          events := events
          state := { p.state with script := name, chunk := chunk, token := token } }) := by
  rw [enterLoaded, bind_apply]
  simp only [lift]
  cases (script.tokenizeEvent [] chunk false).result with
  | error fault => rfl
  | ok events => rfl

theorem Sound.conv_eq_none {p : Player μ} (hp : Sound serve good p) (h : p.state.conv = none) :
    p.conv = none := by
  have hconv := hp.conv
  rw [convTokens, h] at hconv
  exact Option.map_eq_none_iff.mp hconv

/-- Knowing more data chunks keeps a player sound. -/
theorem Sound.extend {p : Player μ} (hp : Sound serve good p) (targets : List Nat) :
    Sound serve good { p with dataChunks := p.dataChunks.extend targets } where
  media := hp.media
  script := hp.script
  tokens := by
    rcases hp.tokens with hcode | hdata
    · exact .inl ⟨hcode.events, fun i hi => DataChunks.mem_extend.mpr (.inl (hcode.targets i hi))⟩
    · exact .inr ⟨hdata.events, DataChunks.mem_extend.mpr (.inl hdata.known), hdata.idle,
        hdata.status⟩
  conv := hp.conv
  scene := hp.scene
  backlog := hp.backlog

/-- A plain change of the state keeps a player sound, if it leaves the status alone or playback goes
on or has failed. -/
theorem Sound.updateState {p : Player μ} (hp : Sound serve good p) {f : PlayState → PlayState}
    (hf : PlayState.Plain f)
    (hstatus : (f p.state).status = p.state.status ∨ (f p.state).status = .running ∨
      (f p.state).status = .error) :
    Sound serve good { p with state := f p.state } := by
  have hstays : Stays serve good p { p with state := f p.state } := .updateState hf p
  rcases hp.tokens with hcode | hdata
  · exact hstays.sound hp hcode
  · refine ⟨hp.media, ?_, .inr ⟨hdata.events, ?_, ?_, ?_⟩, ?_, hstays.scene hp.media hp.scene,
      hp.backlog⟩
    · rw [hstays.stateScript]
      exact hp.script
    · rw [hstays.stateChunk]
      exact hdata.known
    · rw [hstays.stateConv]
      exact hdata.idle
    · rcases hstatus with hsame | hset
      · rw [hsame]
        exact hdata.status
      · exact hset
    · rw [convTokens, hstays.stateConv]
      exact hp.conv

/-- Moving inside the current script keeps a player sound: the chunk entered was read as code unless
it is known to hold data. -/
theorem Idle.enterCurrent {p : Player μ} (hp : Idle serve good p) {name : String}
    (hname : ∃ script, scriptNamed serve p.options name = .ok script ∧
      script.anonymous = p.script.anonymous) (chunk token : Nat) :
    Arrives serve good p (enterCurrent name chunk token p).2 := by
  rw [enterCurrent_apply]
  simp only
  cases hresult : (p.script.tokenizeEvent p.dataChunks chunk false).result with
  | error fault => exact ⟨hp.sound.extend _, rfl, rfl⟩
  | ok events =>
    refine ⟨⟨hp.sound.media, hname, ?_, hp.sound.conv,
      ⟨hp.sound.scene.background, hp.sound.scene.characters⟩, hp.sound.backlog⟩, rfl, rfl⟩
    by_cases hmem : chunk ∈ p.dataChunks
    · obtain ⟨view, hevents⟩ := p.script.tokenizeEvent_of_mem hmem hresult
      exact .inr ⟨⟨view, hevents⟩, DataChunks.mem_extend.mpr (.inl hmem), hp.conv,
        .inl hp.status⟩
    · have hread := p.script.tokenizeEvent_of_not_mem hmem false
      rw [hread] at hresult
      refine .inl ⟨hresult, fun i hi => DataChunks.mem_extend.mpr (.inr ?_)⟩
      rw [hread]
      exact hi

/-- Moving to a script that was just loaded keeps a player sound. -/
theorem Idle.enterLoaded {p : Player μ} (hp : Idle serve good p) {name : String} {script : Script}
    (hname : scriptNamed serve p.options name = .ok script) (chunk token : Nat) :
    Arrives serve good p (enterLoaded script name chunk token p).2 := by
  rw [enterLoaded_apply]
  simp only
  cases hresult : (script.tokenizeEvent [] chunk false).result with
  | error fault => exact ⟨hp.sound, rfl, rfl⟩
  | ok events =>
    have hconv := hp.sound.conv_eq_none hp.conv
    refine ⟨⟨hp.sound.media, ⟨script, hname, rfl⟩, .inl ⟨hresult, ?_⟩, ?_,
      ⟨hp.sound.scene.background, hp.sound.scene.characters⟩, hp.sound.backlog⟩, rfl, rfl⟩
    · exact fun i hi => DataChunks.mem_extend.mpr (.inr hi)
    · simp [convTokens, hp.conv, hconv]

/-- Going on with another chunk keeps a player sound. -/
theorem Idle.setEvent {p : Player μ} (hp : Idle serve good p) (chunk : Nat) :
    Arrives serve good p (setEvent chunk p).2 := by
  rw [Play.setEvent, bind_apply]
  exact hp.enterCurrent hp.sound.script chunk 0

theorem Arrives.forget {p p' : Player μ} (h : Arrives serve good p p') :
    Arrives serve good p { p' with state := { p'.state with callFrame := none } } :=
  ⟨h.sound.updateState (f := fun s => { s with callFrame := none }) (.same fun _ => rfl) (.inl rfl),
    h.backlog, h.options⟩

/-- Operations that take a player from between two tokens of a code chunk to a sound player. -/
def Moves (serve : MediaKind → String → Except Fault View) (good : μ → Prop) {α : Type}
    (op : Play μ α) : Prop :=
  ∀ p, Idle serve good p → OnCode p → Arrives serve good p (op p).2

theorem Moves.setConversation (chunk : Nat) :
    Moves serve good (Play.setConversation (μ := μ) chunk) := by
  intro p hp hcode
  rw [Play.setConversation, bind_apply]
  simp only [state, hp.conv]
  rw [bind_apply]
  simp only [player]
  rw [bind_apply]
  simp only [lift]
  cases hconv : (p.script.tokenizeConv chunk false).result with
  | error fault => exact ⟨hp.sound, rfl, rfl⟩
  | ok tokens =>
    refine ⟨⟨hp.sound.media, hp.sound.script, .inl ⟨hcode.events, hcode.targets⟩, ?_,
      ⟨hp.sound.scene.background, hp.sound.scene.characters⟩, hp.sound.backlog⟩, rfl, rfl⟩
    simp only [convTokens, update, Option.map_some, hconv]

theorem Moves.bind {α β : Type} {x : Play μ α} {f : α → Play μ β} (hx : Calm serve good x)
    (hf : ∀ a, Moves serve good (f a)) : Moves serve good (x >>= f) := by
  intro p hp hcode
  rw [bind_apply]
  obtain ⟨hstays, hstatus⟩ := hx p
  rcases hrun : x p with ⟨outcome, p'⟩
  rw [hrun] at hstays hstatus
  cases outcome with
  | error fault => exact hstays.arrives hp.sound hcode
  | ok a =>
    have hidle : Idle serve good p' :=
      ⟨hstays.sound hp.sound hcode, hstays.stateConv.trans hp.conv, hstatus.trans hp.status⟩
    have harrives := hf a p' hidle (hstays.onCode hcode)
    exact ⟨harrives.sound, harrives.backlog.trans hstays.backlog,
      harrives.options.trans hstays.options⟩

/-! ## Loading -/

variable [MediaSource μ]

theorem Stays.load (hmedia : Serves serve good) (p : Player μ) (kind : MediaKind) (name : String) :
    Stays serve good p { p with media := (MediaSource.load p.media kind name).2 } :=
  ⟨rfl, rfl, rfl, rfl, rfl, rfl, rfl, fun hgood => hmedia.keeps hgood kind name, fun _ => id⟩

theorem displayBackground_apply (name : String) (viewport : Viewport) (p : Player μ) :
    displayBackground name viewport p =
      match MediaSource.load p.media .background name with
      | (.error fault, media) => (.error fault, { p with media := media })
      | (.ok _, media) =>
        (.ok (), { p with
          media := media
          recorder := (p.recorder.record (.clearAllCharacters .zero)).record
            (.displayBackground name viewport .fade)
          state := { p.state with
            background := ⟨some name, none, viewport⟩
            characters := .empty
            status := .graphicsOp } }) := by
  rw [displayBackground, discard_eq, bind_apply, bind_apply]
  simp only [Play.load]
  rcases MediaSource.load p.media .background name with ⟨outcome, media⟩
  cases outcome with
  | error fault => rfl
  | ok view => rfl

theorem load_apply (kind : MediaKind) (name : String) (p : Player μ) :
    load kind name p = ((MediaSource.load p.media kind name).1,
      { p with media := (MediaSource.load p.media kind name).2 }) := rfl

/-- The picture that is found for a character can be loaded, and finding it changes nothing. -/
theorem findCharacter_spec (hmedia : Serves serve good) (name : String) (p : Player μ) :
    Stays serve good p (findCharacter name p).2 ∧
      (good p.media → ∀ found, (findCharacter name p).1 = .ok found →
        ∃ view, serve .characterArt found = .ok view) := by
  have hfirst := Stays.load hmedia p .characterArt name
  simp only [findCharacter, load_apply]
  cases hload : (MediaSource.load p.media .characterArt name).1 with
  | ok view =>
    refine ⟨hfirst, fun hgood found hfound => ⟨view, ?_⟩⟩
    cases hfound
    rw [← hmedia.answer hgood, hload]
  | error fault =>
    simp only
    split
    · cases baseVariant? name with
      | none => exact ⟨hfirst, fun _ found hfound => by cases hfound⟩
      | some base =>
        have hsecond := hfirst.trans (Stays.load hmedia _ .characterArt base)
        simp only
        cases hbase : (MediaSource.load (MediaSource.load p.media .characterArt name).2
            .characterArt base).1 with
        | ok view =>
          refine ⟨hsecond, fun hgood found hfound => ⟨view, ?_⟩⟩
          cases hfound
          exact (hmedia.answer (hfirst.media hgood) _ _).symm.trans hbase
        | error fault' => exact ⟨hsecond, fun _ found hfound => by cases hfound⟩
    · exact ⟨hfirst, fun _ found hfound => by cases hfound⟩

theorem drawCharacter_apply (name : String) (slot x : Int64) (p : Player μ) :
    drawCharacter name slot x p =
      match findCharacter name p with
      | (.error fault, p') => (.error fault, p')
      | (.ok found, p') =>
        (.ok (), { p' with
          recorder := p'.recorder.record (.displayCharacter found slot x .fade)
          state := { p'.state with
            characters := p'.state.characters.insert slot ⟨found, x⟩
            status := .graphicsOp } }) := by
  rw [drawCharacter, bind_apply]
  rcases findCharacter name p with ⟨outcome, p'⟩
  cases outcome with
  | error fault => rfl
  | ok found => rfl

theorem Quiet.displayBackground (hmedia : Serves serve good) (name : String) (viewport : Viewport) :
    Quiet serve good (Play.displayBackground (μ := μ) name viewport) := by
  intro p
  rw [displayBackground_apply]
  have hload := Stays.load hmedia p .background name
  rcases hanswer : MediaSource.load p.media .background name with ⟨outcome, media⟩
  rw [hanswer] at hload
  cases outcome with
  | error fault => exact hload
  | ok view =>
    refine { hload with scene := fun hgood _ => ⟨?_, ?_⟩ }
    · rintro shown ⟨⟩
      exact ⟨view, by rw [← hmedia.answer hgood, hanswer]⟩
    · intro entry hentry
      cases hentry

theorem Quiet.drawCharacter (hmedia : Serves serve good) (name : String) (slot x : Int64) :
    Quiet serve good (Play.drawCharacter (μ := μ) name slot x) := by
  intro p
  rw [drawCharacter_apply]
  obtain ⟨hstays, hfound⟩ := findCharacter_spec hmedia name p
  rcases hrun : findCharacter name p with ⟨outcome, p'⟩
  rw [hrun] at hstays hfound
  cases outcome with
  | error fault => exact hstays
  | ok found =>
    refine { hstays with scene := fun hgood hscene => ⟨?_, ?_⟩ }
    · exact (hstays.scene hgood hscene).background
    · intro entry hentry
      rcases Slots.mem_insertInto hentry with rfl | hentry
      · exact hfound hgood found rfl
      · exact (hstays.scene hgood hscene).characters entry hentry

theorem Quiet.playMovie (hmedia : Serves serve good) (name : String) :
    Quiet serve good (Play.playMovie (μ := μ) name) := by
  intro p
  have hload := Stays.load hmedia p .movie name
  simp only [Play.playMovie, load_apply]
  cases (MediaSource.load p.media .movie name).1 with
  | ok view => exact hload.trans (Stays.recorder _ _)
  | error fault => exact hload

theorem loadScript_apply (hmedia : Serves serve good) {p : Player μ} (hgood : good p.media)
    (name : String) :
    loadScript name p = (scriptNamed serve p.options name,
      { p with media := (MediaSource.load p.media .script name).2 }) := by
  rw [loadScript, bind_apply, load_apply, hmedia.answer hgood]
  simp only [scriptNamed]
  cases serve .script name with
  | error fault => rfl
  | ok view => rfl

/-- Loading leaves a player between two tokens. -/
theorem Idle.load (hmedia : Serves serve good) {p : Player μ} (hp : Idle serve good p)
    (kind : MediaKind) (name : String) :
    Idle serve good { p with media := (MediaSource.load p.media kind name).2 } := by
  refine ⟨?_, hp.conv, hp.status⟩
  exact ⟨hmedia.keeps hp.sound.media kind name, hp.sound.script,
    hp.sound.tokens.imp (fun h => ⟨h.events, h.targets⟩)
      (fun h => ⟨h.events, h.known, h.idle, h.status⟩),
    hp.sound.conv, hp.sound.scene, hp.sound.backlog⟩

/-- Loading a script and moving to it keeps a player sound. -/
theorem Idle.loadAndEnter (hmedia : Serves serve good) {p : Player μ} (hp : Idle serve good p)
    (name : String) (chunk token : Nat) :
    Arrives serve good p
      ((loadScript name >>= fun script => Play.enterLoaded script name chunk token) p).2 := by
  rw [bind_apply, loadScript_apply hmedia hp.sound.media]
  have hloaded := hp.load hmedia .script name
  cases hscript : scriptNamed serve p.options name with
  | error fault => exact ⟨hloaded.sound, rfl, rfl⟩
  | ok script =>
    have harrives := hloaded.enterLoaded hscript chunk token
    exact ⟨harrives.sound, harrives.backlog, harrives.options⟩

/-- The script of a saved position is the current one if only the case of letters tells their names
apart. -/
theorem Sound.scriptNamed_ignoringCase (hmedia : Serves serve good) {p : Player μ}
    (hp : Sound serve good p) {name : String}
    (h : Text.equalIgnoringAsciiCase name p.state.script = true) :
    ∃ script, scriptNamed serve p.options name = .ok script ∧
      script.anonymous = p.script.anonymous := by
  obtain ⟨script, hscript, hsame⟩ := hp.script
  obtain ⟨view, hview, hparse⟩ := exceptBind_eq_ok hscript
  have hother : Text.equalIgnoringAsciiCase p.state.script name = true := by
    simp only [Text.equalIgnoringAsciiCase, beq_iff_eq] at h ⊢
    exact h.symm
  refine ⟨{ script with name := name }, ?_, hsame⟩
  rw [scriptNamed, hmedia.ignoresCase hother hview]
  exact Script.parse_rename hparse name

/-- Returning keeps a player sound. -/
theorem Idle.returnToPosition (hmedia : Serves serve good) {p : Player μ}
    (hp : Idle serve good p) : Arrives serve good p (returnToPosition p).2 := by
  have hforget : ∀ x : Play μ Unit, Arrives serve good p (x p).2 →
      Arrives serve good p
        ((x >>= fun _ => Play.updateState fun s => { s with callFrame := none }) p).2 := by
    intro x hx
    rw [bind_apply]
    rcases hrun : x p with ⟨outcome, p'⟩
    rw [hrun] at hx
    cases outcome with
    | error fault => exact hx
    | ok _ => exact hx.forget
  rw [Play.returnToPosition, bind_apply]
  simp only [state]
  cases hframe : p.state.callFrame with
  | none => exact ⟨hp.sound, rfl, rfl⟩
  | some frame =>
    simp only
    by_cases hcase : Text.equalIgnoringAsciiCase frame.script p.state.script = true
    · rw [if_pos hcase]
      exact hforget _ (hp.enterCurrent (hp.sound.scriptNamed_ignoringCase hmedia hcase) _ _)
    · rw [if_neg hcase, ← bind_assoc]
      exact hforget _ (hp.loadAndEnter hmedia _ _ _)

theorem Moves.setScriptOrForget (hmedia : Serves serve good) (name : String) :
    Moves serve good (Play.setScriptOrForget (μ := μ) name) := by
  intro p hp _
  have harrives := hp.loadAndEnter hmedia name 0 0
  rw [← Play.setScript] at harrives
  simp only [Play.setScriptOrForget]
  rcases hrun : Play.setScript name p with ⟨outcome, p'⟩
  rw [hrun] at harrives
  cases outcome with
  | error fault => exact harrives.forget
  | ok _ => exact harrives

/-- The laws that keep players sound. -/
theorem soundLaws (hmedia : Serves serve good) :
    Laws (μ := μ) (Calm serve good) (Quiet serve good) (Moves serve good) where
  calmly h p := (h p).1
  quietly h p hp hcode := (h p).arrives hp.sound hcode
  pure _ p := .refl p
  bind := Quiet.bind
  bindLast := Moves.bind
  lift _ p := ⟨.refl p, rfl⟩
  ask _ p := ⟨.refl p, rfl⟩
  number := Calm.number
  pushPosition := Calm.pushPosition
  evaluating he p := (Calm.evaluating he p).1
  updateState hf p := .updateState hf p
  tell _ p := .recorder p _
  displayBackground := Quiet.displayBackground hmedia
  drawCharacter := Quiet.drawCharacter hmedia
  playMovie := Quiet.playMovie hmedia
  setEvent chunk _ hp _ := hp.setEvent chunk
  setScript name _ hp _ := hp.loadAndEnter hmedia name 0 0
  setScriptOrForget := Moves.setScriptOrForget hmedia
  returnToPosition _ hp _ := hp.returnToPosition hmedia
  setConversation := Moves.setConversation

end Play

end NovelScript
