import NovelScript.Media.Library
import NovelScript.Proofs.CallGraph.Edges
import NovelScript.Proofs.Play.Turns

/-! # Playback along the call graph

The edges of a call graph are read off the tokens of the chunks, and from whether the last token of
a chunk ends it. Playback jumps to where the tokens lead, and runs on into the next chunk at the end
of one. It never runs on behind a token that ends its chunk: such a token leads elsewhere, ends
playback or fails. That is kept at every place that playback can come back to, by a return or by
going back, so that whatever is played in a script file without data moves along the edges of its
graph. Names that differ in case only have to stand for the same media, since a return stays in the
script file that it finds loaded under such a name. -/

namespace NovelScript

/-! ## Tokens that end a chunk -/

/-- The actions that never lead on to the token behind theirs. -/
def EventAction.departs : EventAction → Bool
  | .stop | .jump | .jumpTable | .return | .fileJump => true
  | _ => false

theorem Title.departs_of_endsChunk (title : Title) :
    ∀ entry ∈ title.eventTable.definitions, entry.2.endsChunk = true →
      entry.2.action.departs = true := by
  cases title <;> decide +kernel

namespace Script

theorem readOp_definition {α : Type} {s : Script} {table : OpcodeTable α}
    {kind : OpToken α → TokenKind} {capture : Bool} {c after : Cursor} {t : Token}
    (h : (s.readOp table kind capture c).outcome = .ok (t, after)) :
    ∃ op, t.kind = kind op ∧ ∃ entry ∈ table.definitions, op.definition = entry.2 := by
  unfold readOp at h
  split at h
  · cases h
  · rename_i hlookup
    simp only at h
    split at h
    · cases h
    · split at h
      · cases h
      · cases h
        exact ⟨_, rfl, _, OpcodeTable.mem_definitions_of_lookup hlookup, rfl⟩

/-- An event token that ends its chunk never leads on behind it. -/
theorem departs_of_mem_tokenizeEvent {s : Script} {index : Nat} {capture : Bool} {t : Token}
    (h : t ∈ (s.tokenizeEvent [] index capture).tokens) :
    ∃ op, t.kind = .event op ∧ (t.endsChunk = true → op.definition.action.departs = true) := by
  unfold tokenizeEvent at h
  split at h
  · cases h
  · refine readTokens_forall (P := fun t => ∃ op, t.kind = .event op ∧
      (t.endsChunk = true → op.definition.action.departs = true)) (fun hread => ?_) _ _ t h
    obtain ⟨op, hkind, entry, hentry, hdefinition⟩ := readOp_definition hread
    refine ⟨op, hkind, fun hends => ?_⟩
    simp only [Token.endsChunk, hkind] at hends
    rw [hdefinition] at hends ⊢
    exact s.title.departs_of_endsChunk entry hentry hends

end Script

namespace Play

variable {μ : Type} {serve : MediaKind → String → Except Fault View} {good : μ → Prop}

/-! ## Open places -/

/-- No token in front of a place ends the chunk. -/
def OpenAt (serve : MediaKind → String → Except Fault View) (options : RuntimeOptions)
    (place : CallFrame) : Prop :=
  ∀ script tokens, scriptNamed serve options place.script = .ok script →
    (script.tokenizeEvent [] place.chunk false).result = .ok tokens →
    ∀ t ∈ tokens.take place.token, t.endsChunk = false

theorem OpenAt.start (options : RuntimeOptions) (name : String) (chunk : Nat) :
    OpenAt serve options ⟨name, chunk, 0⟩ := by
  intro script tokens _ _ t ht
  cases ht

/-- In a code chunk the tokens that the player holds tell whether a place is open. -/
theorem Sound.openAt_iff {p : Player μ} (hp : Sound serve good p) (hcode : OnCode p)
    (token : Nat) : OpenAt serve p.options ⟨p.state.script, p.state.chunk, token⟩ ↔
      ∀ t ∈ p.events.take token, t.endsChunk = false := by
  obtain ⟨script, hscript, hread, _⟩ := (hp.resumes hcode).tokens
  constructor
  · exact fun h => h script p.events hscript hread
  · intro h script' tokens' hscript' hread'
    obtain rfl := Except.ok.inj (hscript.symm.trans hscript')
    obtain rfl := Except.ok.inj (hread.symm.trans hread')
    exact h

/-- The place behind a token that does not end its chunk is open if that of the token is. -/
theorem Sound.openAt_succ {p : Player μ} (hp : Sound serve good p) (hcode : OnCode p)
    (hopen : OpenAt serve p.options p.state.here) {t : Token}
    (ht : p.events[p.state.token]? = some t) (hgoes : t.endsChunk = false) :
    OpenAt serve p.options ⟨p.state.script, p.state.chunk, p.state.token + 1⟩ := by
  rw [hp.openAt_iff hcode, List.take_add_one, ht]
  intro other hother
  rcases List.mem_append.mp hother with hother | hother
  · exact (hp.openAt_iff hcode p.state.token).mp hopen other hother
  · obtain rfl := List.mem_singleton.mp hother
    exact hgoes

/-- The place of a state and its saved position are open. -/
structure Unclosed (serve : MediaKind → String → Except Fault View) (options : RuntimeOptions)
    (s : PlayState) : Prop where
  here : OpenAt serve options s.here
  frame : ∀ f ∈ s.callFrame, OpenAt serve options f

/-- A sound player in strict mode that has not run off a chunk that a token ends, and cannot do so
by a return or by going back. -/
structure OnTrack (serve : MediaKind → String → Except Fault View) (good : μ → Prop)
    (p : Player μ) : Prop extends Sound serve good p where
  strict : p.options.continueOnError = false
  referred : p.Referred
  frame : ∀ f ∈ p.state.callFrame, OpenAt serve p.options f
  here : p.state.status = .ended ∨ p.state.status = .error ∨ OpenAt serve p.options p.state.here
  entries : ∀ entry ∈ p.backlog, Unclosed serve p.options entry.state

theorem OnTrack.openHere {p : Player μ} (h : OnTrack serve good p)
    (hrunning : p.state.status = .running) : OpenAt serve p.options p.state.here := by
  rcases h.here with hended | hfailed | hopen
  · rw [hrunning] at hended
    cases hended
  · rw [hrunning] at hfailed
    cases hfailed
  · exact hopen

/-- The tokens of a conversation are no event tokens. -/
theorem Sound.kind_of_mem_conv {p : Player μ} (hp : Sound serve good p) {tokens : List Token}
    {position : ConvPosition} (hconv : p.conv = some tokens)
    (hposition : p.state.conv = some position) {t : Token} (ht : t ∈ tokens)
    (op : OpToken EventAction) : t.kind ≠ .event op := by
  have hread := hp.conv
  rw [convTokens, hconv, hposition] at hread
  exact Script.kind_of_mem_tokenizeConv (Option.some.inj hread).symm ht op

theorem Sound.isIdle_of_event {p : Player μ} (hp : Sound serve good p) {t : Token}
    {op : OpToken EventAction} (htoken : p.nextToken? = some t) (hkind : t.kind = .event op) :
    p.isIdle = true := by
  cases hidle : p.isIdle with
  | true => rfl
  | false =>
    obtain ⟨tokens, position, hconv, hposition⟩ := Player.isIdle_eq_false hidle
    rw [Player.nextToken?_of_talking hconv hposition] at htoken
    exact absurd hkind (hp.kind_of_mem_conv hconv hposition (List.mem_of_getElem? htoken) op)

/-! ## Turns -/

/-- What a turn of a player on track comes down to: if it does not fail, it leads to an open place,
or ends playback and shows nothing. -/
structure Tracks (serve : MediaKind → String → Except Fault View) (options : RuntimeOptions)
    (backlog : List BacklogEntry) (run : Except Fault Unit × Player μ) : Prop where
  referred : run.2.Referred
  frame : ∀ f ∈ run.2.state.callFrame, OpenAt serve options f
  here : run.1 = .ok () → OpenAt serve options run.2.state.here ∨
    run.2.state.status = .ended ∧ run.2.backlog = backlog

/-- An operation that makes no move tracks if the place is open. -/
theorem Unmoved.tracks {p : Player μ} {run : Except Fault Unit × Player μ}
    (h : Unmoved p run.2) (hreferred : p.Referred)
    (hframe : ∀ f ∈ p.state.callFrame, OpenAt serve p.options f)
    (hhere : run.1 = .ok () → OpenAt serve p.options p.state.here) :
    Tracks serve p.options p.backlog run := by
  refine ⟨h.referred hreferred, ?_, fun hok => .inl ?_⟩
  · rw [h.frame]
    exact hframe
  · rw [h.here]
    exact hhere hok

/-- Coming to the start of a chunk. -/
theorem Arrived.tracks {p p' : Player μ} {name : String} {chunk : Nat}
    (h : Arrived p ⟨name, chunk, 0⟩ p') (hreferred : p.Referred)
    (hframe : ∀ f ∈ p.state.callFrame, OpenAt serve p.options f) (backlog : List BacklogEntry) :
    Tracks serve p.options backlog (.ok (), p') := by
  refine ⟨h.referred hreferred, ?_, fun _ => .inl ?_⟩
  · rw [h.frame]
    exact hframe
  · rw [h.here]
    exact .start p.options name chunk

/-- A token that may move leads to an open place if it does not fail. -/
theorem Goes.tracks {op : OpToken EventAction} {p : Player μ}
    {run : Except Fault Unit × Player μ} (h : Goes op p run) (hreferred : p.Referred)
    (hframe : ∀ f ∈ p.state.callFrame, OpenAt serve p.options f)
    (hhere : op.definition.action.departs = false → OpenAt serve p.options p.state.here) :
    Tracks serve p.options p.backlog run := by
  -- the saved position is the place behind the token of a call, which does not end its chunk
  have hsaved : op.definition.action.departs = false → ∀ f ∈ p.saved.state.callFrame,
      OpenAt serve p.options f := by
    intro hgoes f hf
    obtain rfl := Option.some.inj hf
    exact hhere hgoes
  cases h with
  | stays hstage hunmoved hpasses =>
    refine hunmoved.tracks hreferred hframe fun hok => ?_
    rcases hpasses hok with haction | haction
    · exact hhere (by rw [haction]; rfl)
    · exact hhere (by rw [haction]; rfl)
  | savesOnly haction hnone hstage hunmoved =>
    refine ⟨hunmoved.referred hreferred, ?_, fun hok => by cases hok⟩
    rw [hunmoved.frame]
    exact hsaved (by rw [haction]; rfl)
  | jumps haction htarget hscript harrived => exact harrived.tracks hreferred hframe p.backlog
  | calls haction hnone htarget hscript harrived =>
    exact harrived.tracks hreferred (hsaved (by rw [haction]; rfl)) p.backlog
  | @returns frame p' haction hframe' harrived =>
    have hplace : p'.state.here = frame := harrived.here
    have hopen := hframe frame hframe'
    rw [← hplace] at hopen
    refine ⟨harrived.referred hreferred, fun f hf => ?_, fun _ => .inl hopen⟩
    cases hf
  | switches haction harrived => exact harrived.tracks hreferred hframe p.backlog
  | callsFile haction hnone harrived =>
    exact harrived.tracks hreferred (hsaved (by rw [haction]; rfl)) p.backlog
  | converses haction hidle =>
    exact ⟨hreferred, hframe, fun _ => .inl (hhere (by rw [haction]; rfl))⟩

variable [MediaSource μ]

/-- An event token that makes no move but never leads on either ends playback or fails. -/
theorem playEvent_departs {op : OpToken EventAction} (hmoves : op.definition.action.moves = false)
    (hdeparts : op.definition.action.departs = true) (p : Player μ) :
    playEvent op p = (.ok (), p.withStatus .ended) ∨
      ∃ fault, (playEvent op p).1 = .error fault := by
  unfold playEvent
  cases haction : op.definition.action with
  | stop => exact .inl rfl
  | jumpTable => exact .inr ⟨_, rfl⟩
  | _ => simp [EventAction.moves, EventAction.departs, haction] at hmoves hdeparts

theorem OnTrack.token {p : Player μ} (h : OnTrack serve good p)
    (hopen : OpenAt serve p.options p.state.here) {t : Token} (htoken : p.nextToken? = some t) :
    Tracks serve p.options p.backlog (playToken t p.pastToken) := by
  cases hidle : p.isIdle with
  | true =>
    rw [Player.nextToken?_of_idle hidle] at htoken
    rw [Player.pastToken_of_idle hidle]
    have hmem := List.mem_of_getElem? htoken
    let past : Player μ := { p with state := { p.state with token := p.state.token + 1 } }
    rcases h.tokens with hcode | hdata
    · have hevents := (Script.result_eq_ok hcode.events).2
      obtain ⟨op, hkind, hends⟩ := Script.departs_of_mem_tokenizeEvent (hevents ▸ hmem)
      have hhere : op.definition.action.departs = false →
          OpenAt serve past.options past.state.here := by
        intro hgoes
        refine h.openAt_succ hcode hopen htoken ?_
        cases hcloses : t.endsChunk with
        | false => rfl
        | true => exact absurd ((hends hcloses).symm.trans hgoes) (by decide)
      simp only [playToken, hkind]
      cases hmoves : op.definition.action.moves with
      | true => exact (playEvent_goes hmoves past).tracks h.referred h.frame hhere
      | false =>
        have hunmoved : Unmoved past (playEvent op past).2 :=
          stationaryLaws.playEvent hmoves past
        cases hdeparts : op.definition.action.departs with
        | false => exact hunmoved.tracks h.referred h.frame fun _ => hhere hdeparts
        | true =>
          rcases playEvent_departs hmoves hdeparts past with hrun | ⟨fault, hfault⟩
          · rw [hrun]
            exact ⟨h.referred, h.frame, fun _ => .inr ⟨rfl, rfl⟩⟩
          · refine hunmoved.tracks h.referred h.frame fun hok => ?_
            rw [hfault] at hok
            cases hok
    · obtain ⟨view, hevents⟩ := hdata.events
      rw [hevents] at hmem
      obtain rfl := List.mem_singleton.mp hmem
      exact ⟨h.referred, h.frame, fun hok => by cases hok⟩
  | false =>
    obtain ⟨tokens, position, hconv, hposition⟩ := Player.isIdle_eq_false hidle
    rw [Player.nextToken?_of_talking hconv hposition] at htoken
    rw [Player.pastToken_of_talking hconv hposition]
    have hkind := h.toSound.kind_of_mem_conv hconv hposition (List.mem_of_getElem? htoken)
    have hunmoved := Stationary.playToken (μ := μ) (t := t) fun op hop => absurd hop (hkind op)
    let past : Player μ := { p with
      state := { p.state with conv := some { position with token := position.token + 1 } } }
    exact (hunmoved past).tracks h.referred h.frame fun _ => hopen

/-- One turn of a player on track. -/
theorem OnTrack.turn {p : Player μ} (h : OnTrack serve good p)
    (hopen : OpenAt serve p.options p.state.here) :
    Tracks serve p.options p.backlog (advance p) := by
  have hturn := advance_turn p
  generalize advance p = run at hturn ⊢
  cases hturn with
  | token htoken => exact h.token hopen htoken
  | chunk hidle htoken =>
    have henters := setEvent_enters (p.state.chunk + 1) p
    generalize setEvent (p.state.chunk + 1) p = run at henters ⊢
    cases henters with
    | fails hstage hunmoved => exact hunmoved.tracks h.referred h.frame fun hok => by cases hok
    | arrives harrived => exact harrived.tracks h.referred h.frame p.backlog
  | poses htalks htoken hpending =>
    exact (Stationary.poseChoice p.outOfConversation).tracks h.referred h.frame fun _ => hopen
  | ends htalks htoken hpending => exact ⟨h.referred, h.frame, fun _ => .inl hopen⟩

omit [MediaSource μ] in
/-- An entry has the place and the saved position of the states that show it. -/
theorem Unclosed.shown {options : RuntimeOptions} {entry : BacklogEntry} {s : PlayState}
    (hshows : entry.Shows s) :
    Unclosed serve options s ↔ Unclosed serve options entry.state := by
  unfold BacklogEntry.Shows at hshows
  split at hshows
  · rw [hshows]
  · obtain ⟨_, answer, rfl⟩ := hshows
    exact ⟨fun h => ⟨h.here, h.frame⟩, fun h => ⟨h.here, h.frame⟩⟩

/-- A turn that does not fail keeps a player on track: what it adds to the backlog is shown where the
player stands then. -/
theorem OnTrack.advance (hmedia : Serves serve good) {p : Player μ} (h : OnTrack serve good p)
    (hrunning : p.state.status = .running) (hok : (advance p).1 = .ok ()) :
    OnTrack serve good (advance p).2 := by
  have hruns := advance_runs hmedia h.toSound hrunning
  have htracks := h.turn (h.openHere hrunning)
  have hentries : ∀ {entry}, entry ∈ p.backlog →
      Unclosed serve (Play.advance p).2.options entry.state := by
    intro entry hentry
    rw [hruns.options]
    exact h.entries entry hentry
  refine ⟨hruns.sound, ?_, htracks.referred, ?_, ?_, ?_⟩
  · rw [hruns.options]
    exact h.strict
  · rw [hruns.options]
    exact htracks.frame
  · rw [hruns.options]
    rcases htracks.here hok with hhere | ⟨hended, _⟩
    · exact .inr (.inr hhere)
    · exact .inl hended
  · intro entry hentry
    rcases htracks.here hok with hhere | ⟨_, hbacklog⟩
    · cases hruns.backlog with
      | keeps hbacklog =>
        rw [hbacklog] at hentry
        exact hentries hentry
      | adds added hbacklog hshows hresumes =>
        rw [hbacklog] at hentry
        rcases List.mem_append.mp hentry with hentry | hentry
        · exact hentries hentry
        · obtain rfl := List.mem_singleton.mp hentry
          rw [← Unclosed.shown hshows, hruns.options]
          exact ⟨hhere, htracks.frame⟩
      | cuts count hbacklog =>
        rw [hbacklog] at hentry
        exact hentries (List.mem_of_mem_take hentry)
    · rw [hbacklog] at hentry
      exact hentries hentry

/-! ## Runs -/

/-- A turn that fails leaves a player on track, as playback is stopped then. -/
theorem OnTrack.stopped (hmedia : Serves serve good) {p : Player μ} (h : OnTrack serve good p)
    (hrunning : p.state.status = .running) {fault : Fault}
    (hfault : (Play.advance p).1 = .error fault) :
    OnTrack serve good ((Play.advance p).2.withStatus .error) := by
  have hruns := advance_runs hmedia h.toSound hrunning
  have htracks := h.turn (h.openHere hrunning)
  have hplain : PlayState.Plain fun s => { s with status := .error } := .same fun _ => rfl
  refine ⟨hruns.sound.updateState hplain (.inr (.inr rfl)), ?_, htracks.referred, ?_,
    .inr (.inl rfl), ?_⟩
  · exact hruns.options ▸ h.strict
  · exact hruns.options ▸ htracks.frame
  · intro entry hentry
    have hkept : (Play.advance p).2.backlog = p.backlog := hruns.failed fault hfault
    have hopen := h.entries entry (hkept ▸ hentry)
    rw [← hruns.options] at hopen
    exact hopen

theorem onTrackLaws (hmedia : Serves serve good) :
    RunLaws (μ := μ) (fun _ => False) (OnTrack serve good) where
  begins {p} h hallowed := by
    have hplain : PlayState.Plain fun s => { s with status := .running } := .same fun _ => rfl
    refine ⟨h.toSound.updateState hplain (.inr (.inl rfl)), h.strict, h.referred, h.frame,
      .inr (.inr ?_), h.entries⟩
    -- a player that has ended or failed is refused
    rcases h.here with hended | hfailed | hopen
    · exact absurd (.inr (.inl hended)) hallowed
    · exact absurd (.inr (.inr ⟨hfailed, h.strict⟩)) hallowed
    · exact hopen
  plays h hrunning _ hok := h.advance hmedia hrunning hok
  skips {p _} h hrunning _ hskip := by
    have hoptions := (advance_runs hmedia h.toSound hrunning).options
    rw [hoptions, h.strict] at hskip
    cases hskip
  stops h hrunning hfault := h.stopped hmedia hrunning hfault
  choose index p h := by
    have hsteps := choose_steps h.toSound index
    obtain ⟨choice, hchoice⟩ := choose_snd index p
    rw [hchoice] at hsteps ⊢
    exact ⟨hsteps.sound, h.strict, h.referred, h.frame, h.here, h.entries⟩

theorem jumpBack_referred {p : Player μ} (h : p.Referred) (index : Nat) :
    (jumpBack index p).2.Referred := by
  have hback := jumpBack_goesBack index p
  generalize jumpBack index p = run at hback ⊢
  cases hback with
  | refused fault media => exact h
  | undrawn hentry hq fault media calls => exact hq.referred
  | text hentry hitem hq media =>
    rw [showTextblock_apply]
    split
    · exact hq.referred
    · split
      · exact hq.referred
      · exact hq.referred
  | choice hentry hitem hq media => exact hq.referred

/-- Going back leads to an open place. -/
theorem OnTrack.jumpBack (hmedia : Serves serve good) (index : Nat) :
    Keeps (OnTrack serve good) (jumpBack (μ := μ) index) := by
  intro p h
  have hreferred := jumpBack_referred h.referred index
  cases hentry : p.backlog[index]? with
  | none =>
    rw [jumpBack_of_none hentry]
    exact h
  | some entry =>
    obtain ⟨p', hrun, hrewound⟩ := jumpBack_spec hmedia h.toSound hentry
    rw [hrun] at hreferred ⊢
    have hopen := h.entries entry (List.mem_of_getElem? hentry)
    rw [← Unclosed.shown hrewound.shows, ← hrewound.options] at hopen
    refine ⟨hrewound.sound, hrewound.options ▸ h.strict, hreferred, hopen.frame,
      .inr (.inr hopen.here), fun other hother => ?_⟩
    rw [hrewound.backlog] at hother
    rw [hrewound.options]
    exact h.entries other (List.mem_of_mem_take hother)

theorem OnTrack.new (hmedia : Serves serve good) {media : μ} (hgood : good media)
    {recorder : Recorder} {options : RuntimeOptions} (hstrict : options.continueOnError = false)
    {p : Player μ} (h : (Player.new media recorder options).1 = .ok p) :
    OnTrack serve good p := by
  have hstarts := new_starts hmedia hgood h
  obtain ⟨_, script, events, _, _, hevents, rfl⟩ := new_ok h
  refine ⟨hstarts.sound, hstrict, fun i hi => ⟨[], 0, ?_⟩, ?_, .inr (.inr (.start _ _ _)), ?_⟩
  · exact (DataChunks.mem_extend.mp hi).resolve_left List.not_mem_nil
  · rintro f ⟨⟩
  · rintro entry ⟨⟩

/-! ## Edges -/

/-- A turn departs if it leads elsewhere than behind its token, or, at the end of a chunk, than to
where the player stands. -/
def Departs (q : Player μ) : Prop :=
  (advance q).2.state.here ≠
    (match q.nextToken? with
      | some _ => q.pastToken
      | none => q).state.here

instance (q : Player μ) : Decidable (Departs q) := inferInstanceAs (Decidable (_ ≠ _))

omit [MediaSource μ] in
theorem setEvent_lt {chunk : Nat} {p : Player μ} (h : (setEvent chunk p).1 = .ok ()) :
    chunk < p.script.events.length := by
  rw [setEvent, bind_apply] at h
  simp only [state] at h
  rw [enterCurrent_apply] at h
  simp only at h
  cases hresult : (p.script.tokenizeEvent p.dataChunks chunk false).result with
  | error fault =>
    rw [hresult] at h
    cases h
  | ok events => exact Script.lt_of_tokenizeEvent hresult

section InScript

variable {s : Script} (hs : s.CodeOnly) {q : Player μ} (hq : OnTrack serve good q)
  (hsame : q.script.anonymous = s.anonymous)
include hs hq hsame

omit [MediaSource μ] in
/-- In a script file without data a player stands in a code chunk. -/
theorem OnTrack.onCode : OnCode q := by
  rcases hq.tokens with hcode | hdata
  · exact hcode
  · obtain ⟨known, chunk, hmem⟩ := hq.referred _ hdata.known
    rw [Script.tokenizeEvent_congr hsame, hs.targets_eq_nil] at hmem
    cases hmem

omit [MediaSource μ] in
theorem OnTrack.mem_edges (capture : Bool) {chunk : Nat}
    (hleaves : CallGraph.LeavesChunk s q.state.chunk q.events
      (CallGraph.nodeOf s q.state.chunk, CallGraph.nodeOf s chunk)) :
    (CallGraph.nodeOf s q.state.chunk, CallGraph.nodeOf s chunk) ∈
      (CallGraph.ofScript s capture).edges := by
  have hread := (hq.onCode hs hsame).events
  rw [Script.tokenizeEvent_congr hsame] at hread
  rw [CallGraph.mem_edges_ofScript hs]
  refine ⟨q.state.chunk, Script.lt_of_tokenizeEvent hread, ?_⟩
  rw [(Script.result_eq_ok hread).2]
  exact hleaves

omit [MediaSource μ] in
/-- A chunk at whose end a player stands runs on into the next one. -/
theorem OnTrack.fallsThrough (hrunning : q.state.status = .running)
    (hend : q.events[q.state.token]? = none) (hnext : q.state.chunk + 1 < s.events.length) :
    CallGraph.fallsThrough s [] q.state.chunk q.events = true := by
  have hcode := hq.onCode hs hsame
  have hopen := (hq.openAt_iff hcode q.state.token).mp (hq.openHere hrunning)
  rw [List.take_of_length_le (List.getElem?_eq_none_iff.mp hend)] at hopen
  have hlast : q.events.getLast?.any (·.endsChunk) = false := by
    cases hlast : q.events.getLast? with
    | none => rfl
    | some last => exact hopen last (List.mem_of_getLast? hlast)
  simp [CallGraph.fallsThrough, hlast, hnext]

/-- Every departure of a player on track in a script file without data is along an edge, if it is
not by a return or to another script. -/
theorem OnTrack.departs_along (hrunning : q.state.status = .running) (capture : Bool)
    (hdeparts : Departs q) (hreturn : ¬ Plans .return q) (hswitch : ¬ Plans .fileJump q)
    (hcall : ¬ Plans .returnableFileJump q) :
    (Play.advance q).2.script = q.script ∧
      (CallGraph.nodeOf s q.state.chunk, CallGraph.nodeOf s (Play.advance q).2.state.chunk) ∈
        (CallGraph.ofScript s capture).edges := by
  unfold Departs at hdeparts
  have hturn := advance_turn q
  generalize Play.advance q = run at hturn hdeparts ⊢
  cases hturn with
  | @token t htoken =>
    rw [htoken] at hdeparts
    simp only at hdeparts
    rcases playToken_cases t q.pastToken with ⟨hunmoved, _⟩ | ⟨op, hkind, hgoes⟩
    · exact absurd hunmoved.here hdeparts
    · have hplans := Plans.of_token htoken hkind
      have hidle := hq.toSound.isIdle_of_event htoken hkind
      rw [Player.nextToken?_of_idle hidle] at htoken
      let past : Player μ := { q with state := { q.state with token := q.state.token + 1 } }
      rw [Player.pastToken_of_idle hidle] at hgoes hdeparts ⊢
      -- a jump leads along the edge of its token
      have hjumps : ∀ {chunk : Nat} {p' : Player μ}, op.jumpTarget? = some chunk →
          p'.state.here = ⟨q.state.script, chunk, 0⟩ →
          (CallGraph.nodeOf s q.state.chunk, CallGraph.nodeOf s p'.state.chunk) ∈
            (CallGraph.ofScript s capture).edges := by
        intro chunk p' htarget hhere
        have hchunk : p'.state.chunk = chunk := congrArg CallFrame.chunk hhere
        rw [hchunk]
        exact hq.mem_edges hs hsame capture (.inl ⟨t, List.mem_of_getElem? htoken, .toChunk chunk,
          Token.mem_edges_of_jumpTarget hkind htarget s, rfl⟩)
      generalize playToken t past = run at hgoes hdeparts ⊢
      cases hgoes with
      | stays hstage hunmoved hpasses => exact absurd hunmoved.here hdeparts
      | savesOnly haction hnone hstage hunmoved => exact absurd hunmoved.here hdeparts
      | jumps haction htarget hscript harrived => exact ⟨hscript, hjumps htarget harrived.here⟩
      | calls haction hnone htarget hscript harrived =>
        exact ⟨hscript, hjumps htarget harrived.here⟩
      | returns haction hframe harrived => exact absurd (haction ▸ hplans) hreturn
      | switches haction harrived => exact absurd (haction ▸ hplans) hswitch
      | callsFile haction hnone harrived => exact absurd (haction ▸ hplans) hcall
      | converses haction hidle => exact absurd rfl hdeparts
  | chunk hidle htoken =>
    rw [htoken] at hdeparts
    rw [Player.nextToken?_of_idle hidle] at htoken
    have henters := setEvent_enters (q.state.chunk + 1) q
    have hscript := setEvent_script (q.state.chunk + 1) q
    have hlength : (setEvent (q.state.chunk + 1) q).1 = .ok () →
        q.state.chunk + 1 < q.script.events.length := setEvent_lt
    generalize setEvent (q.state.chunk + 1) q = run at henters hscript hdeparts hlength ⊢
    cases henters with
    | fails hstage hunmoved => exact absurd hunmoved.here hdeparts
    | arrives harrived =>
      have hchunk := congrArg CallFrame.chunk harrived.here
      have hevents : q.script.anonymous.events = s.anonymous.events := congrArg Script.events hsame
      have hnext : q.state.chunk + 1 < s.events.length := hevents ▸ hlength rfl
      have hfalls := hq.fallsThrough hs hsame hrunning htoken hnext
      refine ⟨hscript, hq.mem_edges hs hsame capture (.inr ⟨hfalls, ?_⟩)⟩
      exact congrArg (fun chunk => (_, CallGraph.nodeOf s chunk)) hchunk
  | poses htalks htoken hpending =>
    rw [htoken] at hdeparts
    exact absurd (Stationary.poseChoice q.outOfConversation).here hdeparts
  | ends htalks htoken hpending =>
    rw [htoken] at hdeparts
    exact absurd rfl hdeparts

end InScript

/-- Playback follows the call graph. Take a script file whose event chunks can all be read and refer
to no chunk for its bytes. Whatever is called from a new player in strict mode on, each departure
from one of its event chunks, by a token or at the end of the chunk, stays in the script file and is
along an edge of its graph, unless it is by a return or a token that leads to another script. -/
theorem departures_are_edges (hmedia : Serves serve good) {media : μ} (hgood : good media)
    {recorder : Recorder} {options : RuntimeOptions} (hstrict : options.continueOnError = false)
    {start : Player μ} (hnew : (Player.new media recorder options).1 = .ok start)
    (calls : List Call) {s : Script} (hs : s.CodeOnly) (capture : Bool) :
    ∀ q ∈ start.turns calls, q.script.anonymous = s.anonymous → Departs q →
      ¬ Plans .return q → ¬ Plans .fileJump q → ¬ Plans .returnableFileJump q →
      (advance q).2.script = q.script ∧
        (CallGraph.nodeOf s q.state.chunk, CallGraph.nodeOf s (advance q).2.state.chunk) ∈
          (CallGraph.ofScript s capture).edges := by
  intro q hq hsame hdeparts hreturn hswitch hcall
  have hback : ∀ index, .jumpBack index ∈ calls →
      Keeps (OnTrack serve good) (jumpBack (μ := μ) index) :=
    fun index _ => OnTrack.jumpBack hmedia index
  have hturns := ((onTrackLaws hmedia).always hback (.new hmedia hgood hstrict hnew)).1
  obtain ⟨htrack, hrunning⟩ := hturns q hq
  exact htrack.departs_along hs hsame hrunning capture hdeparts hreturn hswitch hcall

/-- A chunk calls the next one, which fades the textbox out and returns; behind the call the first
chunk has no more tokens and runs on into the next one. -/
theorem departures_are_edges_behind_return :
    let media := FixedMedia.onlyScript "op00" [0x53, 0x43, 0x33, 0x00, 28, 0, 0, 0, 28, 0, 0, 0,
      20, 0, 0, 0, 24, 0, 0, 0, 0x00, 0x0b, 1, 0, 0x10, 0x18, 0x00, 0x0e]
    let strict := { RuntimeOptions.default with continueOnError := false }
    ∃ start, (Player.new media (.new .first) strict).1 = .ok start ∧ start.script.CodeOnly ∧
      ∃ q ∈ start.turns [.process 9, .process 9], q.nextToken? = none ∧ Departs q ∧
        (CallGraph.nodeOf start.script q.state.chunk,
          CallGraph.nodeOf start.script (advance q).2.state.chunk) ∈
            (CallGraph.ofScript start.script false).edges := by
  intro media strict
  obtain ⟨start, hstart, hcode, q, hq, hend, hsame, hdeparts, hreturn, hswitch, hcall⟩ :
      ∃ start ∈ (Player.new media (.new .first) strict).1.toOption, start.script.CodeOnly ∧
        ∃ q ∈ start.turns [.process 9, .process 9], q.nextToken? = none ∧
          q.script.anonymous = start.script.anonymous ∧ Departs q ∧ ¬ Plans .return q ∧
          ¬ Plans .fileJump q ∧ ¬ Plans .returnableFileJump q := by
    decide +kernel
  refine ⟨start, ok_of_toOption hstart, hcode, q, hq, hend, hdeparts, ?_⟩
  exact (departures_are_edges (FixedMedia.onlyScript_serves "op00" _) rfl rfl
    (ok_of_toOption hstart) _ hcode false q hq hsame hdeparts hreturn hswitch hcall).2

/-- Two script files of a folder differ in the case of their names. The first one calls its second
chunk, which leads to the other file. There the first chunk jumps to the third, and this returns. The
player then is behind the only token of the first chunk, in the other file still, and runs on into
the second chunk, to which that file has no edge. -/
theorem departures_leave_edges_by_case :
    let tree : FileTree := ⟨[
      (["script", "op00.scr"], [0x53, 0x43, 0x33, 0x00, 33, 0, 0, 0, 33, 0, 0, 0, 20, 0, 0, 0,
        26, 0, 0, 0, 0x00, 0x0b, 1, 0, 0x00, 0x06, 0x10, 0x01, 0x4f, 0x50, 0x30, 0x30, 0x00]),
      (["script", "OP00.scr"], [0x53, 0x43, 0x33, 0x00, 32, 0, 0, 0, 32, 0, 0, 0, 24, 0, 0, 0,
        28, 0, 0, 0, 30, 0, 0, 0, 0x00, 0x07, 2, 0, 0x10, 0x18, 0x00, 0x0e])], []⟩
    let strict := { RuntimeOptions.default with continueOnError := false }
    ∃ start, (Player.new (MediaLibrary.ofFolders tree [] .ever17 0) (.new .first) strict).1 =
        .ok start ∧
      ∃ q ∈ start.turns [.process 9], q.script.name = "OP00" ∧ q.script.CodeOnly ∧ Departs q ∧
        ¬ Plans .return q ∧ ¬ Plans .fileJump q ∧ ¬ Plans .returnableFileJump q ∧
        (advance q).2.script = q.script ∧
        (CallGraph.nodeOf q.script q.state.chunk,
          CallGraph.nodeOf q.script (advance q).2.state.chunk) ∉
            (CallGraph.ofScript q.script false).edges := by
  intro tree strict
  obtain ⟨start, hstart, hleaves⟩ :
      ∃ start ∈ (Player.new (MediaLibrary.ofFolders tree [] .ever17 0) (.new .first)
        strict).1.toOption,
      ∃ q ∈ start.turns [.process 9], q.script.name = "OP00" ∧ q.script.CodeOnly ∧ Departs q ∧
        ¬ Plans .return q ∧ ¬ Plans .fileJump q ∧ ¬ Plans .returnableFileJump q ∧
        (advance q).2.script = q.script ∧
        (CallGraph.nodeOf q.script q.state.chunk,
          CallGraph.nodeOf q.script (advance q).2.state.chunk) ∉
            (CallGraph.ofScript q.script false).edges := by
    decide +kernel
  exact ⟨start, ok_of_toOption hstart, hleaves⟩

end Play

end NovelScript
