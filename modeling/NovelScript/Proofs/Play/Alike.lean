import NovelScript.Proofs.Play.Soundness

/-! # Players that go on alike

Two players that differ in the media they have cached, in what they told the front end so far, in
their backlogs and in the data chunks they know go on in the same way, until the one that knows more
passes an event chunk as data that the other one plays. -/

namespace NovelScript

/-- The event chunk that the player passes as data. -/
def Player.dataChunk? {μ : Type} (p : Player μ) : Option Nat :=
  match p.events with
  | [⟨_, _, .data _⟩] => some p.state.chunk
  | _ => none

theorem Player.dataChunk?_congr {μ : Type} {p p' : Player μ} (hevents : p.events = p'.events)
    (hchunk : p.state.chunk = p'.state.chunk) : p.dataChunk? = p'.dataChunk? := by
  simp only [dataChunk?, hevents, hchunk]

/-- Tokens of code are not passed as data. -/
theorem Player.dataChunk?_of_events {μ : Type} {p : Player μ} {script : Script} {chunk : Nat}
    (h : (script.tokenizeEvent [] chunk false).result = .ok p.events) : p.dataChunk? = none := by
  unfold dataChunk?
  split
  · rename_i offset raw view hevents
    rw [hevents] at h
    obtain ⟨_, htokens⟩ := Script.result_eq_ok h
    obtain ⟨op, hop⟩ := Script.kind_of_mem_tokenizeEvent (htokens ▸ List.mem_cons_self)
    cases hop
  · rfl

theorem Recorder.pose_congr {r r' : Recorder} (hpolicy : r.policy = r'.policy)
    (hanswered : r.answered = r'.answered) (choice : Choice) :
    (r.pose choice).1 = (r'.pose choice).1 ∧ ∃ call answered,
      (r.pose choice).2 = ⟨r.calls ++ [call], r.policy, answered⟩ ∧
      (r'.pose choice).2 = ⟨r'.calls ++ [call], r.policy, answered⟩ := by
  obtain ⟨calls, policy, answered⟩ := r
  obtain ⟨calls', policy', answered'⟩ := r'
  obtain rfl : policy = policy' := hpolicy
  obtain rfl : answered = answered' := hanswered
  have hpick (count : Nat) : (⟨calls, policy, answered⟩ : Recorder).pick? count =
      (⟨calls', policy, answered⟩ : Recorder).pick? count := rfl
  unfold pose
  simp only [hpick]
  cases (⟨calls', policy, answered⟩ : Recorder).pick? choice.options.length with
  | none => exact ⟨rfl, _, _, rfl, rfl⟩
  | some index =>
    simp only
    cases choice.choose index with
    | ok chosen => exact ⟨rfl, _, _, rfl, rfl⟩
    | error fault => exact ⟨rfl, _, _, rfl, rfl⟩

namespace Play

variable {μ : Type}

/-- Two players that differ in what does not show only: media, backlog, names of the script in upper
and lower case, what the front end was told before, and the data chunks known, of which the second
player may know fewer. -/
structure Alike (good : μ → Prop) (said said' : List FrontendCall) (p q : Player μ) : Prop where
  media : good p.media ∧ good q.media
  options : p.options = q.options
  script : p.script.anonymous = q.script.anonymous
  events : p.events = q.events
  conv : p.conv = q.conv
  state : p.state = q.state
  policy : p.recorder.policy = q.recorder.policy
  answered : p.recorder.answered = q.recorder.answered
  calls : ∃ calls, p.recorder.calls = said ++ calls ∧ q.recorder.calls = said' ++ calls
  known : ∀ i ∈ q.dataChunks, i ∈ p.dataChunks
  passing : ∀ i, q.dataChunk? = some i → i ∈ q.dataChunks

/-- Two runs with the same outcome that leave players alike. -/
structure Agree (good : μ → Prop) (said said' : List FrontendCall) {α : Type}
    (a b : Except Fault α × Player μ) : Prop where
  outcome : a.1 = b.1
  alike : Alike good said said' a.2 b.2

/-- The first player passes an event chunk as data and the second does not. -/
def Apart (p q : Player μ) : Prop :=
  ∃ i, p.dataChunk? = some i ∧ q.dataChunk? ≠ some i

/-- Operations that players alike do alike. -/
def Agrees (good : μ → Prop) (said said' : List FrontendCall) {α : Type} (op : Play μ α) : Prop :=
  ∀ p q, Alike good said said' p q → Agree good said said' (op p) (op q)

/-- Operations that players alike do alike unless it parts them. -/
def MayPart (good : μ → Prop) (said said' : List FrontendCall) {α : Type} (op : Play μ α) : Prop :=
  ∀ p q, Alike good said said' p q →
    Agree good said said' (op p) (op q) ∨ Apart (op p).2 (op q).2

variable {good : μ → Prop} {said said' : List FrontendCall} {p q : Player μ}

theorem Alike.withState (h : Alike good said said' p q) {s : PlayState}
    (hs : s.chunk = q.state.chunk) :
    Alike good said said' { p with state := s } { q with state := s } := by
  have hdata : q.dataChunk? = Player.dataChunk? { q with state := s } :=
    Player.dataChunk?_congr rfl hs.symm
  exact { h with state := rfl, passing := fun i hi => h.passing i (hdata.trans hi) }

/-- Two runs that agree both fail or both succeed. -/
theorem Agree.cases {α : Type} {a b : Except Fault α × Player μ} (h : Agree good said said' a b) :
    (∃ fault p' q', a = (.error fault, p') ∧ b = (.error fault, q') ∧
      Alike good said said' p' q') ∨
    ∃ value p' q', a = (.ok value, p') ∧ b = (.ok value, q') ∧ Alike good said said' p' q' := by
  obtain ⟨outcome, p'⟩ := a
  obtain ⟨outcome', q'⟩ := b
  obtain rfl : outcome = outcome' := h.outcome
  cases outcome with
  | error fault => exact .inl ⟨fault, p', q', rfl, rfl, h.alike⟩
  | ok value => exact .inr ⟨value, p', q', rfl, rfl, h.alike⟩

theorem Agrees.bind {α β : Type} {x : Play μ α} {f : α → Play μ β} (hx : Agrees good said said' x)
    (hf : ∀ a, Agrees good said said' (f a)) : Agrees good said said' (x >>= f) := by
  intro p q h
  rw [bind_apply, bind_apply]
  rcases (hx p q h).cases with ⟨fault, p', q', hp, hq, halike⟩ | ⟨a, p', q', hp, hq, halike⟩
  · rw [hp, hq]
    exact ⟨rfl, halike⟩
  · rw [hp, hq]
    exact hf a p' q' halike

theorem MayPart.bind {α β : Type} {x : Play μ α} {f : α → Play μ β}
    (hx : Agrees good said said' x) (hf : ∀ a, MayPart good said said' (f a)) :
    MayPart good said said' (x >>= f) := by
  intro p q h
  rw [bind_apply, bind_apply]
  rcases (hx p q h).cases with ⟨fault, p', q', hp, hq, halike⟩ | ⟨a, p', q', hp, hq, halike⟩
  · rw [hp, hq]
    exact .inl ⟨rfl, halike⟩
  · rw [hp, hq]
    exact hf a p' q' halike

theorem Agrees.lift {α : Type} (result : Except Fault α) :
    Agrees good said said' (Play.lift (μ := μ) result) :=
  fun _ _ h => ⟨rfl, h⟩

theorem Agrees.discard {α : Type} {x : Play μ α} (h : Agrees good said said' x) :
    Agrees good said said' (discard x) := by
  rw [discard_eq]
  exact h.bind fun _ => .lift (.ok ())

theorem Agrees.ask {β : Type} {f : Player μ → β} (hf : Visible f) :
    Agrees good said said' (Play.ask f) :=
  fun p q h => ⟨congrArg Except.ok (hf p q h.options h.script h.state), h⟩

theorem Agrees.state : Agrees good said said' (Play.state (μ := μ)) :=
  fun _ _ h => ⟨congrArg Except.ok h.state, h⟩

theorem Agrees.updateState {f : PlayState → PlayState} (hf : ∀ s, (f s).chunk = s.chunk) :
    Agrees good said said' (Play.updateState (μ := μ) f) := by
  intro p q h
  refine ⟨rfl, ?_⟩
  simp only [Play.updateState, update]
  rw [h.state]
  exact h.withState (hf _)

theorem Agrees.evaluating {α : Type} {e : Evaluation PlayState α} (he : e.OnCells) :
    Agrees good said said' (Play.evaluating (μ := μ) e) := by
  intro p q h
  obtain ⟨memory, rng, -, hstate⟩ := he q.state
  have hrun (p : Player μ) :
      Play.evaluating e p = ((e p.state).1, { p with state := (e p.state).2 }) := rfl
  rw [hrun, hrun, h.state]
  exact ⟨rfl, h.withState (by rw [hstate])⟩

theorem Agrees.tell (call : FrontendCall) : Agrees good said said' (Play.tell (μ := μ) call) := by
  intro p q h
  obtain ⟨calls, hp, hq⟩ := h.calls
  refine ⟨rfl, { h with calls := ⟨calls ++ [call], ?_, ?_⟩ }⟩
  · simp only [Play.tell, update, Recorder.record, hp, List.append_assoc]
  · simp only [Play.tell, update, Recorder.record, hq, List.append_assoc]

theorem Agrees.log (entry : PlayState → BacklogEntry) : Agrees good said said'
    (update (μ := μ) fun p => { p with backlog := p.backlog ++ [entry p.state] }) :=
  fun _ _ h => ⟨rfl, { h with }⟩

theorem Agrees.endConv : Agrees good said said'
    (update (μ := μ) fun p => { p with conv := none, state := { p.state with conv := none } }) := by
  intro p q h
  refine ⟨rfl, { h with conv := rfl, state := ?_ }⟩
  simp only [update, h.state]

theorem Agrees.present (choice : Choice) :
    Agrees good said said' (Play.present (μ := μ) choice) := by
  intro p q h
  obtain ⟨hchoice, call, answered, hp, hq⟩ :=
    Recorder.pose_congr h.policy h.answered choice
  obtain ⟨calls, hcalls, hcalls'⟩ := h.calls
  have hrun (p : Player μ) : (Play.present choice p).2 =
      { p with
        recorder := (p.recorder.pose choice).2
        state := { p.state with choice := some (p.recorder.pose choice).1 } } := rfl
  refine ⟨rfl, ?_⟩
  rw [hrun, hrun, hp, hq, hchoice, h.state, hcalls, hcalls', List.append_assoc, List.append_assoc]
  exact { h with
    state := rfl
    policy := rfl
    answered := rfl
    calls := ⟨calls ++ [call], rfl, rfl⟩ }

theorem Agrees.pushPosition : Agrees good said said' (Play.pushPosition (μ := μ)) := by
  refine Agrees.state.bind fun s => ?_
  cases s.callFrame with
  | some frame => exact .lift _
  | none => exact .updateState fun _ => rfl

theorem Agrees.number {α : Type} (op : OpToken α) (index : Nat) :
    Agrees good said said' (Play.number (μ := μ) op index) :=
  (Agrees.lift _).bind fun value => .evaluating value.onCells_evaluateOne

theorem Agrees.poseChoice : Agrees good said said' (Play.poseChoice (μ := μ)) := by
  refine Agrees.state.bind fun s => ?_
  cases s.choice with
  | none => exact .lift _
  | some choice =>
    simp only
    by_cases hempty : choice.options.isEmpty = true
    · rw [if_pos hempty]
      exact .bind (.updateState fun _ => rfl) fun _ => .lift _
    · rw [if_neg hempty]
      refine .bind (.updateState fun _ => rfl) fun _ => ?_
      exact (Agrees.log fun s => ⟨.choice choice, s⟩).bind fun _ => .present choice

/-! ## Moving -/

/-- Players that read the same in a chunk enter it alike. -/
theorem Alike.enterCurrent (h : Alike good said said' p q) (name : String) {chunk : Nat}
    (token : Nat) (hread : p.script.tokenizeEvent p.dataChunks chunk false =
      q.script.tokenizeEvent q.dataChunks chunk false) :
    Agree good said said' (enterCurrent name chunk token p) (enterCurrent name chunk token q) := by
  have hknown : ∀ targets : List Nat, ∀ i ∈ q.dataChunks.extend targets,
      i ∈ p.dataChunks.extend targets := by
    intro targets i hi
    rw [DataChunks.mem_extend] at hi ⊢
    exact hi.imp (h.known i) id
  rw [enterCurrent_apply, enterCurrent_apply, hread]
  simp only
  cases hresult : (q.script.tokenizeEvent q.dataChunks chunk false).result with
  | error fault =>
    refine ⟨rfl, { h with known := hknown _, passing := fun i hi => ?_ }⟩
    exact DataChunks.mem_extend.mpr (.inl (h.passing i hi))
  | ok events =>
    refine ⟨rfl, { h with events := rfl, state := ?_, known := hknown _, passing := ?_ }⟩
    · simp only [h.state]
    · intro i hi
      by_cases hmem : chunk ∈ q.dataChunks
      · obtain ⟨view, rfl⟩ := q.script.tokenizeEvent_of_mem hmem hresult
        obtain rfl : chunk = i := Option.some.inj hi
        exact DataChunks.mem_extend.mpr (.inl hmem)
      · rw [q.script.tokenizeEvent_of_not_mem hmem] at hresult
        rw [Player.dataChunk?_of_events hresult] at hi
        cases hi

/-- Entering a chunk of the current script parts players that disagree whether it holds data. -/
theorem MayPart.enterCurrent (name : String) (chunk token : Nat) :
    MayPart good said said' (Play.enterCurrent (μ := μ) name chunk token) := by
  intro p q h
  have hsame := Script.tokenizeEvent_congr h.script p.dataChunks chunk false
  by_cases hdata : chunk ∈ p.dataChunks ∧ chunk ∉ q.dataChunks
  · obtain ⟨hp, hq⟩ := hdata
    cases hchunk : q.script.eventChunk chunk with
    | error fault =>
      refine .inl (h.enterCurrent name token ?_)
      rw [hsame, q.script.tokenizeEvent_of_missing hchunk, q.script.tokenizeEvent_of_missing hchunk]
    | ok view =>
      refine .inr ⟨chunk, ?_, ?_⟩
      · rw [enterCurrent_apply, hsame, q.script.tokenizeEvent_of_data hp hchunk]
        rfl
      · rw [enterCurrent_apply, q.script.tokenizeEvent_of_not_mem hq]
        simp only
        cases hresult : (q.script.tokenizeEvent [] chunk false).result with
        | error fault => exact fun hpassing => hq (h.passing chunk hpassing)
        | ok events =>
          rw [Player.dataChunk?_of_events hresult]
          exact Option.some_ne_none chunk |>.symm
  · refine .inl (h.enterCurrent name token ?_)
    rw [hsame]
    refine q.script.tokenizeEvent_known ⟨fun hp => ?_, h.known chunk⟩ false
    exact Decidable.byContradiction fun hq => hdata ⟨hp, hq⟩

/-- A script that was just loaded is entered alike: no data chunks of it are known. -/
theorem Agrees.enterLoaded (script : Script) (name : String) (chunk token : Nat) :
    Agrees good said said' (Play.enterLoaded (μ := μ) script name chunk token) := by
  intro p q h
  rw [enterLoaded_apply, enterLoaded_apply]
  simp only
  cases hresult : (script.tokenizeEvent [] chunk false).result with
  | error fault => exact ⟨rfl, h⟩
  | ok events =>
    refine ⟨rfl, { h with
      script := rfl
      events := rfl
      state := ?_
      known := fun _ hi => hi
      passing := ?_ }⟩
    · simp only [h.state]
    · intro i hi
      rw [Player.dataChunk?_of_events hresult] at hi
      cases hi

theorem Apart.withState (h : Apart p q) {s s' : PlayState} (hs : s.chunk = p.state.chunk)
    (hs' : s'.chunk = q.state.chunk) : Apart { p with state := s } { q with state := s' } := by
  obtain ⟨i, hp, hq⟩ := h
  have hsame : Player.dataChunk? { p with state := s } = p.dataChunk? :=
    Player.dataChunk?_congr rfl hs
  have hsame' : Player.dataChunk? { q with state := s' } = q.dataChunk? :=
    Player.dataChunk?_congr rfl hs'
  exact ⟨i, hsame.trans hp, fun hi => hq (hsame'.symm.trans hi)⟩

/-- A change of the state behind a move. -/
theorem MayPart.thenUpdateState {x : Play μ Unit} {f : PlayState → PlayState}
    (hx : MayPart good said said' x) (hf : ∀ s, (f s).chunk = s.chunk) :
    MayPart good said said' (x >>= fun _ => Play.updateState f) := by
  intro p q h
  have hupdated : ∀ p : Player μ,
      ∃ s : PlayState, ((x >>= fun _ => Play.updateState f) p).2 = { (x p).2 with state := s } ∧
        s.chunk = (x p).2.state.chunk := by
    intro p
    rw [bind_apply]
    rcases x p with ⟨outcome, p'⟩
    cases outcome with
    | error fault => exact ⟨p'.state, rfl, rfl⟩
    | ok _ => exact ⟨f p'.state, rfl, hf _⟩
  rcases hx p q h with hagree | hapart
  · rw [bind_apply, bind_apply]
    rcases hagree.cases with ⟨fault, p', q', hp, hq, halike⟩ | ⟨a, p', q', hp, hq, halike⟩
    · rw [hp, hq]
      exact .inl ⟨rfl, halike⟩
    · rw [hp, hq]
      exact .inl (Agrees.updateState hf p' q' halike)
  · obtain ⟨s, hp, hs⟩ := hupdated p
    obtain ⟨s', hq, hs'⟩ := hupdated q
    rw [hp, hq]
    exact .inr (hapart.withState hs hs')

theorem MayPart.ofAgrees {α : Type} {op : Play μ α} (h : Agrees good said said' op) :
    MayPart good said said' op :=
  fun p q halike => .inl (h p q halike)

theorem MayPart.setEvent (chunk : Nat) : MayPart good said said' (Play.setEvent (μ := μ) chunk) :=
  .bind .state fun s => .enterCurrent s.script chunk 0

theorem Agrees.setConversation (chunk : Nat) :
    Agrees good said said' (Play.setConversation (μ := μ) chunk) := by
  refine Agrees.state.bind fun s => ?_
  cases s.conv with
  | some active => exact .lift _
  | none =>
    intro p q h
    have hread := Script.tokenizeConv_congr h.script chunk false
    simp only [bind_apply, player, Play.lift, hread]
    cases (q.script.tokenizeConv chunk false).result with
    | error fault => exact ⟨rfl, h⟩
    | ok tokens =>
      refine ⟨rfl, { h with conv := rfl, state := ?_ }⟩
      simp only [update, h.state]

/-! ## Loading -/

variable [MediaSource μ] {serve : MediaKind → String → Except Fault View}

theorem Agrees.load (hmedia : Serves serve good) (kind : MediaKind) (name : String) :
    Agrees good said said' (Play.load (μ := μ) kind name) := by
  intro p q h
  rw [load_apply, load_apply, hmedia.answer h.media.1, hmedia.answer h.media.2]
  exact ⟨rfl, { h with
    media := ⟨hmedia.keeps h.media.1 kind name, hmedia.keeps h.media.2 kind name⟩ }⟩

theorem Agrees.displayBackground (hmedia : Serves serve good) (name : String)
    (viewport : Viewport) :
    Agrees good said said' (Play.displayBackground (μ := μ) name viewport) := by
  refine (Agrees.load hmedia .background name).discard.bind fun _ => ?_
  have hclear : Agrees good said said' (Play.clearAllCharacters (μ := μ) .zero) :=
    (Agrees.tell _).bind fun _ => .updateState fun _ => rfl
  exact hclear.bind fun _ => (Agrees.tell _).bind fun _ => .updateState fun _ => rfl

theorem Agrees.findCharacter (hmedia : Serves serve good) (name : String) :
    Agrees good said said' (Play.findCharacter (μ := μ) name) := by
  intro p q h
  simp only [Play.findCharacter]
  rcases (Agrees.load hmedia .characterArt name p q h).cases with
    ⟨fault, p', q', hp, hq, halike⟩ | ⟨view, p', q', hp, hq, halike⟩
  · rw [hp, hq]
    simp only [halike.options]
    split
    · cases baseVariant? name with
      | none => exact ⟨rfl, halike⟩
      | some base =>
        simp only
        rcases (Agrees.load hmedia .characterArt base p' q' halike).cases with
          ⟨fault', p'', q'', hp', hq', halike'⟩ | ⟨view, p'', q'', hp', hq', halike'⟩
        · rw [hp', hq']
          exact ⟨rfl, halike'⟩
        · rw [hp', hq']
          exact ⟨rfl, halike'⟩
    · exact ⟨rfl, halike⟩
  · rw [hp, hq]
    exact ⟨rfl, halike⟩

theorem Agrees.drawCharacter (hmedia : Serves serve good) (name : String) (slot x : Int64) :
    Agrees good said said' (Play.drawCharacter (μ := μ) name slot x) := by
  refine (Agrees.findCharacter hmedia name).bind fun found => ?_
  exact (Agrees.tell _).bind fun _ => .updateState fun _ => rfl

theorem Agrees.playMovie (hmedia : Serves serve good) (name : String) :
    Agrees good said said' (Play.playMovie (μ := μ) name) := by
  intro p q h
  simp only [Play.playMovie]
  rcases (Agrees.load hmedia .movie name p q h).cases with
    ⟨fault, p', q', hp, hq, halike⟩ | ⟨view, p', q', hp, hq, halike⟩
  · rw [hp, hq]
    exact ⟨rfl, halike⟩
  · rw [hp, hq]
    exact Agrees.tell _ p' q' halike

theorem Agrees.loadScript (hmedia : Serves serve good) (name : String) :
    Agrees good said said' (Play.loadScript (μ := μ) name) := by
  intro p q h
  rw [loadScript_apply hmedia h.media.1, loadScript_apply hmedia h.media.2]
  exact ⟨by rw [h.options], { h with
    media := ⟨hmedia.keeps h.media.1 _ name, hmedia.keeps h.media.2 _ name⟩ }⟩

theorem Agrees.setScript (hmedia : Serves serve good) (name : String) :
    Agrees good said said' (Play.setScript (μ := μ) name) :=
  (Agrees.loadScript hmedia name).bind fun script => .enterLoaded script name 0 0

theorem Agrees.setScriptOrForget (hmedia : Serves serve good) (name : String) :
    Agrees good said said' (Play.setScriptOrForget (μ := μ) name) := by
  intro p q h
  simp only [Play.setScriptOrForget]
  rcases (Agrees.setScript hmedia name p q h).cases with
    ⟨fault, p', q', hp, hq, halike⟩ | ⟨_, p', q', hp, hq, halike⟩
  · rw [hp, hq]
    refine ⟨rfl, ?_⟩
    simp only [halike.state]
    exact halike.withState rfl
  · rw [hp, hq]
    exact ⟨rfl, halike⟩

theorem MayPart.returnToPosition (hmedia : Serves serve good) :
    MayPart good said said' (Play.returnToPosition (μ := μ)) := by
  refine .bind .state fun s => ?_
  cases s.callFrame with
  | none => exact .ofAgrees (.lift _)
  | some frame =>
    simp only
    by_cases hcase : Text.equalIgnoringAsciiCase frame.script s.script = true
    · rw [if_pos hcase]
      exact (MayPart.enterCurrent _ _ _).thenUpdateState fun _ => rfl
    · rw [if_neg hcase]
      refine .ofAgrees ((Agrees.loadScript hmedia _).bind fun script => ?_)
      exact (Agrees.enterLoaded _ _ _ _).bind fun _ => .updateState fun _ => rfl

/-- The laws that keep players alike. -/
theorem alikeLaws (hmedia : Serves serve good) :
    Laws (μ := μ) (Agrees good said said') (Agrees good said said') (MayPart good said said') where
  calmly h := h
  quietly := .ofAgrees
  pure _ := .lift (.ok _)
  bind := Agrees.bind
  bindLast := MayPart.bind
  lift := .lift
  ask := .ask
  number := .number
  pushPosition := .pushPosition
  evaluating := .evaluating
  updateState hf := .updateState hf.chunk
  tell := .tell
  displayBackground := .displayBackground hmedia
  drawCharacter := .drawCharacter hmedia
  playMovie := .playMovie hmedia
  setEvent := .setEvent
  setScript name := .ofAgrees (.setScript hmedia name)
  setScriptOrForget name := .ofAgrees (.setScriptOrForget hmedia name)
  returnToPosition := .returnToPosition hmedia
  setConversation chunk := .ofAgrees (.setConversation chunk)

/-! ## Playing a token -/

theorem Agrees.showTextblock (hmedia : Serves serve good) (lines : List String)
    (voice : Option String) :
    Agrees good said said' (Play.showTextblock (μ := μ) lines voice) := by
  cases voice with
  | none => exact (Agrees.lift (.ok ())).bind fun _ => .tell _
  | some name => exact (Agrees.load hmedia .voice name).discard.bind fun _ => .tell _

theorem Agrees.newTextblock (hmedia : Serves serve good) (lines : List String)
    (voice : Option String) :
    Agrees good said said' (Play.newTextblock (μ := μ) lines voice) := by
  refine (Agrees.showTextblock hmedia lines voice).bind fun _ => ?_
  refine ((alikeLaws hmedia).unfadeTextbox .fade).bind fun _ => ?_
  exact .log fun s => ⟨.textblock lines voice, s⟩

theorem MayPart.playToken (hmedia : Serves serve good) (t : Token) :
    MayPart good said said' (Play.playToken (μ := μ) t) := by
  have laws : Effects (μ := μ) (Agrees good said said') (Agrees good said said')
      (MayPart good said said') := (alikeLaws hmedia).effects
  unfold Play.playToken
  cases t.kind with
  | event op => exact laws.playEvent op
  | conv op => exact .ofAgrees (laws.playConv op)
  | text text => exact .ofAgrees (laws.unplayable t)
  | data view => exact .ofAgrees (laws.unplayable t)
  | textblock block =>
    exact .ofAgrees ((laws.takeVoice block.voice).bind fun voice =>
      .newTextblock hmedia block.lines voice)

/-- Players alike play the next token alike unless it parts them. -/
theorem MayPart.advance (hmedia : Serves serve good) :
    MayPart good said said' (Play.advance (μ := μ)) := by
  intro p q h
  have hevent (token : Token) : MayPart good said said' (do
      Play.updateState fun s => { s with token := s.token + 1 }
      Play.playToken token : Play μ Unit) :=
    .bind (.updateState fun _ => rfl) fun _ => .playToken hmedia token
  rw [Play.advance, bind_apply, bind_apply]
  simp only [player, h.conv, h.state, h.events]
  cases q.conv with
  | none =>
    simp only
    cases q.events[q.state.token]? with
    | some token => exact hevent token p q h
    | none => exact MayPart.setEvent _ p q h
  | some tokens =>
    cases q.state.conv with
    | none =>
      simp only
      cases q.events[q.state.token]? with
      | some token => exact hevent token p q h
      | none => exact MayPart.setEvent _ p q h
    | some position =>
      simp only
      cases tokens[position.token]? with
      | some token =>
        have hconv : MayPart good said said' (do
            Play.updateState fun s =>
              { s with conv := some { position with token := position.token + 1 } }
            Play.playToken token : Play μ Unit) :=
          .bind (.updateState fun _ => rfl) fun _ => .playToken hmedia token
        exact hconv p q h
      | none =>
        refine MayPart.bind .endConv (fun _ => ?_) p q h
        by_cases hpending : q.state.choicePending = true
        · rw [if_pos hpending]
          exact .ofAgrees .poseChoice
        · rw [if_neg hpending]
          exact .ofAgrees (.lift (.ok ()))

end Play

end NovelScript
