import NovelScript.Proofs.Play.Steps

/-! # Going back

A state that can be resumed at is restored without fail, with the token lists that it resumes with.
So every entry of the backlog of a sound player can be gone back to. -/

namespace NovelScript

namespace Play

variable {μ : Type} {serve : MediaKind → String → Except Fault View} {good : μ → Prop}

/-- The token lists that a state resumes with are determined by the state. -/
theorem Resumes.unique {options : RuntimeOptions} {s : PlayState} {events events' : List Token}
    {conv conv' : Option (List Token)} (h : Resumes serve options s events conv)
    (h' : Resumes serve options s events' conv') : events = events' ∧ conv = conv' := by
  obtain ⟨script, hscript, hevents, hconv⟩ := h.tokens
  obtain ⟨script', hscript', hevents', hconv'⟩ := h'.tokens
  obtain rfl := Except.ok.inj (hscript.symm.trans hscript')
  refine ⟨Except.ok.inj (hevents.symm.trans hevents'), ?_⟩
  have hinjective : Function.Injective (Option.map (Except.ok : List Token → Except Fault _)) :=
    Option.map_injective fun _ _ => Except.ok.inj
  exact hinjective (hconv.trans hconv'.symm)

/-- The player that a state is restored in: it stands at the state, with the token lists that the
state resumes with, and knows the data chunks of the chunk it stands in only. -/
structure Restored (serve : MediaKind → String → Except Fault View) (good : μ → Prop)
    (p : Player μ) (s : PlayState) (events : List Token) (conv : Option (List Token))
    (p' : Player μ) : Prop where
  media : good p'.media
  options : p'.options = p.options
  script : scriptNamed serve p.options s.script = .ok p'.script
  dataChunks : p'.dataChunks =
    DataChunks.extend [] (p'.script.tokenizeEvent [] s.chunk false).targets
  events : p'.events = events
  conv : p'.conv = conv
  state : p'.state = s
  backlog : p'.backlog = p.backlog
  front : p'.recorder.policy = p.recorder.policy ∧ p'.recorder.answered = p.recorder.answered

theorem Restored.onCode {p p' : Player μ} {s : PlayState} {events : List Token}
    {conv : Option (List Token)} (h : Restored serve good p s events conv p')
    (hs : Resumes serve p.options s events conv) : OnCode p' := by
  obtain ⟨script, hscript, hevents, _⟩ := hs.tokens
  obtain rfl := Except.ok.inj (hscript.symm.trans h.script)
  refine ⟨?_, fun i hi => ?_⟩
  · rw [h.state, h.events]
    exact hevents
  · rw [h.dataChunks]
    rw [h.state] at hi
    exact DataChunks.mem_extend.mpr (.inr hi)

/-- A restored player is sound. -/
theorem Restored.sound {p p' : Player μ} {s : PlayState} {events : List Token}
    {conv : Option (List Token)} (h : Restored serve good p s events conv p')
    (hs : Resumes serve p.options s events conv)
    (hbacklog : ∀ entry ∈ p.backlog, Restorable serve p.options entry) : Sound serve good p' := by
  have hcode := h.onCode hs
  obtain ⟨script, hscript, _, hconv⟩ := hs.tokens
  obtain rfl := Except.ok.inj (hscript.symm.trans h.script)
  refine ⟨h.media, ⟨p'.script, ?_, rfl⟩, .inl hcode, ?_, ?_, ?_⟩
  · rw [h.options, h.state]
    exact hscript
  · rw [h.conv, h.state]
    exact hconv
  · rw [h.state]
    exact hs.scene
  · rw [h.options, h.backlog]
    exact hbacklog

theorem Sound.take {p : Player μ} (hp : Sound serve good p) (count : Nat) :
    Sound serve good { p with backlog := p.backlog.take count } where
  media := hp.media
  script := hp.script
  tokens := hp.tokens.imp (fun h => ⟨h.events, h.targets⟩)
    (fun h => ⟨h.events, h.known, h.idle, h.status⟩)
  conv := hp.conv
  scene := hp.scene
  backlog := fun entry hentry => hp.backlog entry (List.mem_of_mem_take hentry)

/-- The player that going back to an entry leaves. -/
structure Rewound (serve : MediaKind → String → Except Fault View) (good : μ → Prop)
    (p : Player μ) (index : Nat) (entry : BacklogEntry) (p' : Player μ) : Prop where
  sound : Sound serve good p'
  options : p'.options = p.options
  backlog : p'.backlog = p.backlog.take (index + 1)
  shows : entry.Shows p'.state
  resumes : Resumes serve p'.options entry.state p'.events p'.conv

/-! ## Drawing again -/

/-- The player after media were loaded and the front end was told to do things. -/
def withMediaAndCalls (p : Player μ) (media : μ) (calls : List FrontendCall) : Player μ :=
  { p with media := media, recorder := { p.recorder with calls := p.recorder.calls ++ calls } }

/-- An operation succeeds and does no more than load media and tell the front end. -/
def Draws (good : μ → Prop) (op : Play μ Unit) (p : Player μ) : Prop :=
  ∃ media calls, good media ∧ op p = (.ok (), withMediaAndCalls p media calls)

theorem Draws.pure {p : Player μ} (hgood : good p.media) : Draws good (Pure.pure ()) p :=
  ⟨p.media, [], hgood, by simp [withMediaAndCalls]; rfl⟩

theorem Draws.tell {p : Player μ} (hgood : good p.media) (call : FrontendCall) :
    Draws good (Play.tell call) p :=
  ⟨p.media, [call], hgood, rfl⟩

theorem Draws.bind {p : Player μ} {x : Play μ Unit} {f : Unit → Play μ Unit} (hx : Draws good x p)
    (hf : ∀ media calls, good media → Draws good (f ()) (withMediaAndCalls p media calls)) :
    Draws good (x >>= f) p := by
  obtain ⟨media, calls, hmedia, hx⟩ := hx
  obtain ⟨media', calls', hmedia', hf⟩ := hf media calls hmedia
  refine ⟨media', calls ++ calls', hmedia', ?_⟩
  rw [bind_apply, hx]
  simp only
  rw [hf]
  simp [withMediaAndCalls]

variable [MediaSource μ]

theorem Draws.load (hmedia : Serves serve good) {p : Player μ} (hgood : good p.media)
    {kind : MediaKind} {name : String} (h : ∃ view, serve kind name = .ok view) :
    Draws good (discard (Play.load kind name)) p := by
  obtain ⟨view, h⟩ := h
  refine ⟨(MediaSource.load p.media kind name).2, [], hmedia.keeps hgood kind name, ?_⟩
  rw [discard_eq, bind_apply, load_apply, hmedia.answer hgood, h]
  simp [withMediaAndCalls]
  rfl

theorem Draws.redrawCharacters (hmedia : Serves serve good) {p : Player μ} (hgood : good p.media)
    {entries : List (Int64 × CharacterArt)}
    (h : ∀ entry ∈ entries, ∃ view, serve .characterArt entry.2.image = .ok view) :
    Draws good (Play.redrawCharacters entries) p := by
  induction entries generalizing p with
  | nil => exact .pure hgood
  | cons entry entries ih =>
    obtain ⟨slot, art⟩ := entry
    refine (Draws.load hmedia hgood (h (slot, art) List.mem_cons_self)).bind fun media calls hm => ?_
    refine (Draws.tell hm _).bind fun media calls hm => ?_
    exact ih hm fun entry hentry => h entry (List.mem_cons_of_mem _ hentry)

/-- The scene of a state whose pictures can be loaded is drawn again without fail. -/
theorem Draws.redraw (hmedia : Serves serve good) {p : Player μ} (hgood : good p.media)
    (hscene : SceneLoads serve p.state) : Draws good Play.redraw p := by
  have hrest : ∀ {p' : Player μ}, good p'.media →
      Draws good (Play.redrawCharacters p.state.characters.entries >>= fun _ =>
        if p.state.textboxFaded then Play.tell (.fadeTextbox .zero)
        else Play.tell (.unfadeTextbox .zero)) p' := by
    intro p' hgood'
    refine (Draws.redrawCharacters hmedia hgood' hscene.characters).bind fun media calls hm => ?_
    by_cases hfaded : p.state.textboxFaded = true
    · rw [if_pos hfaded]
      exact .tell hm _
    · rw [if_neg hfaded]
      exact .tell hm _
  refine (Draws.tell hgood _).bind fun media calls hm => ?_
  have hread : ∀ f : PlayState → Play μ Unit,
      (state >>= f) (withMediaAndCalls p media calls) =
        f p.state (withMediaAndCalls p media calls) := fun f => rfl
  unfold Draws
  rw [hread]
  cases hfill : p.state.background.fill with
  | some colour => exact (Draws.tell hm _).bind fun media calls hm => hrest hm
  | none =>
    cases himage : p.state.background.image with
    | none => exact hrest hm
    | some name =>
      refine (Draws.load hmedia hm (hscene.background name himage)).bind fun media calls hm => ?_
      exact (Draws.tell hm _).bind fun media calls hm => hrest hm

/-! ## Restoring -/

/-- What `restore` does once the token lists were read. -/
theorem restore_eq (hmedia : Serves serve good) {p : Player μ} (hgood : good p.media)
    {s : PlayState} {script : Script} {events : List Token} {conv : Option (List Token)}
    (hscript : scriptNamed serve p.options s.script = .ok script)
    (hevents : (script.tokenizeEvent [] s.chunk false).result = .ok events)
    (hconv : conv.map .ok = convTokens script s) :
    restore s p = redraw
      { p with
        media := (MediaSource.load p.media .script s.script).2
        script := script
        dataChunks := DataChunks.extend [] (script.tokenizeEvent [] s.chunk false).targets
        events := events
        conv := conv
        state := s } := by
  rw [restore, bind_apply, loadScript_apply hmedia hgood, hscript]
  simp only
  rw [bind_apply]
  simp only [lift, hevents]
  cases hposition : s.conv with
  | none =>
    rw [convTokens, hposition] at hconv
    obtain rfl := Option.map_eq_none_iff.mp hconv
    rfl
  | some position =>
    rw [convTokens, hposition] at hconv
    obtain ⟨tokens, rfl, hresult⟩ := Option.map_eq_some_iff.mp hconv
    simp only [← hresult]
    rfl

/-- A state that can be resumed at is restored. -/
theorem restore_spec (hmedia : Serves serve good) {p : Player μ} (hgood : good p.media)
    {s : PlayState} {events : List Token} {conv : Option (List Token)}
    (h : Resumes serve p.options s events conv) :
    ∃ p', restore s p = (.ok (), p') ∧ Restored serve good p s events conv p' := by
  obtain ⟨script, hscript, hevents, hconv⟩ := h.tokens
  rw [restore_eq hmedia hgood hscript hevents hconv]
  have hloaded : good (MediaSource.load p.media .script s.script).2 :=
    hmedia.keeps hgood .script s.script
  obtain ⟨media, calls, hgood', hrun⟩ := Draws.redraw hmedia (p := { p with
    media := (MediaSource.load p.media .script s.script).2
    script := script
    dataChunks := DataChunks.extend [] (script.tokenizeEvent [] s.chunk false).targets
    events := events
    conv := conv
    state := s }) hloaded h.scene
  exact ⟨_, hrun, hgood', rfl, hscript, rfl, rfl, rfl, rfl, rfl, rfl, rfl⟩

/-! ## Going back -/

theorem jumpBack_of_none {p : Player μ} {index : Nat} (h : p.backlog[index]? = none) :
    jumpBack index p = (.error (.state (.backlogRange index p.backlog.length)), p) := by
  rw [jumpBack, bind_apply]
  simp only [player, h]
  rfl

/-- A sound player goes back to every entry of its backlog without fail. -/
theorem jumpBack_spec (hmedia : Serves serve good) {p : Player μ} (hp : Sound serve good p)
    {index : Nat} {entry : BacklogEntry} (hentry : p.backlog[index]? = some entry) :
    ∃ p', jumpBack index p = (.ok (), p') ∧ Rewound serve good p index entry p' := by
  have hrestorable := hp.backlog entry (List.mem_of_getElem? hentry)
  obtain ⟨events, conv, hresumes⟩ := hrestorable.resumes
  obtain ⟨p₁, hrun, hrestored⟩ := restore_spec hmedia hp.media hresumes
  have hsound := (hrestored.sound hresumes hp.backlog).take (index + 1)
  have hcode := hrestored.onCode hresumes
  rw [jumpBack, bind_apply]
  simp only [player, hentry]
  rw [bind_apply, hrun]
  simp only
  rw [bind_apply]
  simp only [update]
  have hlast : ∀ {p'}, Stays serve good { p₁ with backlog := p₁.backlog.take (index + 1) } p' →
      entry.Shows p'.state → Rewound serve good p index entry p' := by
    intro p' hstays hshows
    have hoptions : p'.options = p.options := hstays.options.trans hrestored.options
    refine ⟨hstays.sound hsound ⟨hcode.events, hcode.targets⟩, hoptions, ?_, hshows, ?_⟩
    · rw [hstays.backlog, hrestored.backlog]
    · rw [hoptions, hstays.events, hstays.conv, hrestored.events, hrestored.conv]
      exact hresumes
  have hitem := hrestorable.item
  cases hkind : entry.item with
  | textblock lines voice =>
    rw [hkind] at hitem
    simp only
    rw [showTextblock_apply]
    cases voice with
    | none =>
      refine ⟨_, rfl, hlast (.recorder _ _) ?_⟩
      rw [BacklogEntry.Shows, hkind]
      exact hrestored.state
    | some name =>
      obtain ⟨view, hview⟩ := hitem name rfl
      rw [← hmedia.answer hrestored.media] at hview
      have hload := Stays.load hmedia { p₁ with backlog := p₁.backlog.take (index + 1) } .voice name
      simp only at hload ⊢
      rcases hanswer : MediaSource.load p₁.media .voice name with ⟨outcome, media⟩
      rw [hanswer] at hview hload
      obtain rfl : outcome = .ok view := hview
      refine ⟨_, rfl, hlast (hload.trans (.recorder _ _)) ?_⟩
      rw [BacklogEntry.Shows, hkind]
      exact hrestored.state
  | choice choice =>
    rw [hkind] at hitem
    refine ⟨_, rfl, hlast (present_stays choice _) ?_⟩
    rw [← hrestored.state] at hitem
    have hshows := present_shows (p := { p₁ with backlog := p₁.backlog.take (index + 1) }) hitem
    rw [BacklogEntry.Shows, hkind, ← hrestored.state]
    exact hshows

end Play

end NovelScript
