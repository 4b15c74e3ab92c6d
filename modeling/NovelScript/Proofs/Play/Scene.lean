import Mathlib.Logic.Function.Basic
import NovelScript.Proofs.Play.WellFormed

/-! # The scene on screen

A front end that does what it is told shows a scene: the fold of all calls that were recorded. The
state of playback holds a scene as well, from which it is drawn again when playback goes back. The
two are the same for every player that a new one becomes by calls, also by calls that fail. -/

namespace NovelScript

/-! ## Slots -/

namespace Slots

theorem lookup_insertInto (slot other : Int64) (art : CharacterArt)
    (list : List (Int64 × CharacterArt)) :
    (insertInto slot art list).lookup other =
      if other = slot then some art else list.lookup other := by
  induction list with
  | nil => grind [insertInto]
  | cons head rest ih =>
    obtain ⟨key, a⟩ := head
    unfold insertInto
    split
    · grind
    · split
      · grind
      · grind

theorem get?_insert (s : Slots) (slot : Int64) (art : CharacterArt) :
    (s.insert slot art).get? = Function.update s.get? slot (some art) := by
  funext other
  rw [Function.update_apply]
  exact lookup_insertInto slot other art s.entries

theorem lookup_filter_ne (slot other : Int64) (list : List (Int64 × CharacterArt)) :
    (list.filter fun entry => entry.1 != slot).lookup other =
      if other = slot then none else list.lookup other := by
  induction list with
  | nil => grind
  | cons head rest ih => grind

theorem get?_erase (s : Slots) (slot : Int64) :
    (s.erase slot).get? = Function.update s.get? slot none := by
  funext other
  rw [Function.update_apply]
  exact lookup_filter_ne slot other s.entries

/-- A slot in front of all listed ones is not listed. -/
theorem lookup_eq_none {slot : Int64} {list : List (Int64 × CharacterArt)}
    (h : ∀ entry ∈ list, slot < entry.1) : list.lookup slot = none := by
  refine List.lookup_eq_none_iff.mpr fun entry hentry => ?_
  have hlt := h entry hentry
  grind

end Slots

/-! ## Scenes -/

/-- What is seen of a background: a colour, or else a picture. -/
inductive Backdrop where
  | colour (colour : Colour)
  | picture (image : Option String) (viewport : Viewport)
deriving DecidableEq, Repr

/-- The colour hides the picture. -/
def Background.visible (b : Background) : Backdrop :=
  match b.fill with
  | some colour => .colour colour
  | none => .picture b.image b.viewport

/-- What a front end shows: a picture for some slots, the background, and whether the text box is
hidden. -/
structure Scene where
  characters : Int64 → Option CharacterArt
  background : Background
  textboxFaded : Bool

namespace Scene

/-- The scene before anything is shown. -/
def initial : Scene := ⟨fun _ => none, .initial, false⟩

/-- The scene after a call. -/
def perform (scene : Scene) : FrontendCall → Scene
  | .displayBackground name viewport _ => { scene with background := ⟨some name, none, viewport⟩ }
  | .panZoomBackground viewport _ =>
    { scene with background := { scene.background with viewport := viewport } }
  | .fadeBackgroundFill colour _ =>
    { scene with background := { scene.background with fill := some colour } }
  | .displayCharacter name slot x _ =>
    { scene with characters := Function.update scene.characters slot (some ⟨name, x⟩) }
  | .clearCharacter slot _ =>
    { scene with characters := Function.update scene.characters slot none }
  | .clearAllCharacters _ => { scene with characters := fun _ => none }
  | .fadeTextbox _ => { scene with textboxFaded := true }
  | .unfadeTextbox _ => { scene with textboxFaded := false }
  | .textblock .. | .choice .. | .movie .. => scene

/-- The scene after calls. -/
def after (scene : Scene) (calls : List FrontendCall) : Scene := calls.foldl perform scene

theorem after_append (scene : Scene) (calls more : List FrontendCall) :
    scene.after (calls ++ more) = (scene.after calls).after more :=
  List.foldl_append

/-- A scene looks as a state says: the same pictures in the same slots, the same to be seen of the
background, and the text box hidden or not. -/
structure Mirrors (scene : Scene) (s : PlayState) : Prop where
  characters : scene.characters = s.characters.get?
  background : scene.background.visible = s.background.visible
  textboxFaded : scene.textboxFaded = s.textboxFaded

end Scene

theorem Background.visible_viewport {b b' : Background} (h : b.visible = b'.visible)
    (viewport : Viewport) :
    ({ b with viewport := viewport } : Background).visible =
      ({ b' with viewport := viewport } : Background).visible := by
  unfold Background.visible at h ⊢
  grind

/-! ## Drawing again -/

namespace Scene

/-- Characters that are drawn slot by slot are on screen. -/
theorem after_characters (scene : Scene) {entries : List (Int64 × CharacterArt)}
    (h : entries.Pairwise fun a b => a.1 < b.1) :
    scene.after (CharacterArt.redrawn entries) =
      { scene with
        characters := fun slot => (entries.lookup slot).or (scene.characters slot) } := by
  induction entries generalizing scene with
  | nil => rfl
  | cons entry entries ih =>
    obtain ⟨slot, art⟩ := entry
    obtain ⟨hfirst, hrest⟩ := List.pairwise_cons.mp h
    have hnone := Slots.lookup_eq_none hfirst
    have hstep : scene.after (CharacterArt.redrawn ((slot, art) :: entries)) =
        (scene.perform (.displayCharacter art.image slot art.x .zero)).after
          (CharacterArt.redrawn entries) := rfl
    rw [hstep, ih _ hrest]
    simp only [perform, Scene.mk.injEq, and_true]
    funext other
    rw [Function.update_apply]
    by_cases hslot : other = slot
    · subst hslot
      simp [hnone]
    · have hbeq : (other == slot) = false := by simpa using hslot
      simp [hslot, List.lookup_cons, hbeq]

/-- A background that shows something is seen again when it is drawn again. -/
theorem after_background (scene : Scene) {b : Background} (h : b.WellFormed) :
    ∃ b', scene.after b.redrawn = { scene with background := b' } ∧ b'.visible = b.visible := by
  cases hfill : b.fill with
  | some colour =>
    refine ⟨{ scene.background with fill := some colour }, ?_, ?_⟩
    · simp only [Background.redrawn, hfill]
      rfl
    · simp only [Background.visible, hfill]
  | none =>
    cases himage : b.image with
    | none => exact absurd himage (h hfill)
    | some name =>
      refine ⟨⟨some name, none, b.viewport⟩, ?_, ?_⟩
      · simp only [Background.redrawn, hfill, himage]
        rfl
      · simp only [Background.visible, hfill, himage]

/-- Drawing the scene of a state again shows it, whatever was on screen before. -/
theorem after_redrawn (scene : Scene) {s : PlayState} (h : s.background.WellFormed) :
    (scene.after s.redrawn).Mirrors s := by
  obtain ⟨b, hbackground, hvisible⟩ :=
    after_background (scene.perform (.clearAllCharacters .zero)) h
  have hdrawn : scene.after s.redrawn =
      ((((scene.perform (.clearAllCharacters .zero)).after s.background.redrawn).after
        (CharacterArt.redrawn s.characters.entries)).after
          [if s.textboxFaded then .fadeTextbox .zero else .unfadeTextbox .zero]) := by
    rw [← after_append, ← after_append]
    rfl
  rw [hdrawn, hbackground, after_characters _ s.characters.ordered]
  by_cases hfaded : s.textboxFaded = true
  · rw [if_pos hfaded]
    refine ⟨?_, hvisible, hfaded.symm⟩
    funext slot
    exact Option.or_none
  · rw [if_neg hfaded]
    refine ⟨?_, hvisible, ?_⟩
    · funext slot
      exact Option.or_none
    · exact ((Bool.not_eq_true _).mp hfaded).symm

end Scene

/-! ## Playing a token -/

/-- The front end poses a choice by one call, which it may have answered. -/
theorem Recorder.pose_calls (r : Recorder) (choice : Choice) :
    ∃ texts answer, (r.pose choice).2.calls = r.calls ++ [.choice texts answer] := by
  have hcalls : ∀ pick : Option Nat,
      (if pick.isSome then { r with answered := r.answered + 1 } else r).calls = r.calls := by
    intro pick
    split
    · rfl
    · rfl
  refine ⟨choice.options.map (·.text), ?_⟩
  unfold pose
  simp only
  split
  · exact ⟨none, by rw [record, hcalls]⟩
  · rename_i index _
    split
    · exact ⟨some index, by rw [record, hcalls]⟩
    · exact ⟨none, by rw [record, hcalls]⟩

/-- Media that hold one script, and something for every other name. -/
def FixedMedia.scriptAndPictures (name : String) (bytes : Bytes) : FixedMedia where
  find kind asked :=
    if kind ≠ .script then some []
    else if Text.equalIgnoringAsciiCase asked name = true then some bytes else none

theorem FixedMedia.scriptAndPictures_serves (name : String) (bytes : Bytes) :
    Serves (fun kind asked => (MediaSource.load (scriptAndPictures name bytes) kind asked).1)
      (· = scriptAndPictures name bytes) := by
  refine serves fun hcase => ?_
  simp only [scriptAndPictures, equalIgnoringAsciiCase_congr hcase name]

namespace Play

variable {μ : Type}

/-- The scene on screen looks as the state says. -/
def Mirrored (p : Player μ) : Prop :=
  (Scene.initial.after p.recorder.calls).Mirrors p.state

/-- A player that was told nothing and holds the same scene. -/
theorem Mirrored.quietly {p p' : Player μ} (h : Mirrored p)
    (hcalls : p'.recorder.calls = p.recorder.calls)
    (hcharacters : p'.state.characters = p.state.characters)
    (hbackground : p'.state.background = p.state.background)
    (hfaded : p'.state.textboxFaded = p.state.textboxFaded) : Mirrored p' := by
  unfold Mirrored
  rw [hcalls]
  refine ⟨?_, ?_, ?_⟩
  · rw [hcharacters]
    exact h.characters
  · rw [hbackground]
    exact h.background
  · rw [hfaded]
    exact h.textboxFaded

theorem Mirrored.same {p p' : Player μ} (hsame : SameStage p p') (h : Mirrored p) : Mirrored p' :=
  h.quietly (by rw [hsame.recorder]) hsame.characters hsame.background hsame.textboxFaded

/-- A player that was told one thing more, and holds the scene after it. -/
theorem Mirrored.told {p p' : Player μ} (h : Mirrored p) {call : FrontendCall}
    (hcalls : p'.recorder.calls = p.recorder.calls ++ [call])
    (hscene : ∀ scene : Scene, scene.Mirrors p.state → (scene.perform call).Mirrors p'.state) :
    Mirrored p' := by
  unfold Mirrored
  rw [hcalls, Scene.after_append]
  exact hscene _ h

theorem Mirrored.onChoice {α : Type} {op : Play μ α} (h : OnChoice op) : Keeps Mirrored op := by
  intro p hp
  obtain ⟨choice, hrun, _⟩ := h p
  rw [hrun]
  exact hp.quietly rfl rfl rfl rfl

theorem Mirrored.unfadeTextbox (time : Duration) :
    Keeps Mirrored (unfadeTextbox (μ := μ) time) := by
  intro p hp
  rw [Play.unfadeTextbox, bind_apply]
  simp only [state]
  by_cases hfaded : p.state.textboxFaded = true
  · simp only [hfaded, if_true]
    exact hp.told rfl fun _ h => ⟨h.characters, h.background, rfl⟩
  · simp only [hfaded]
    exact hp

theorem Mirrored.clearAllCharacters (time : Duration) :
    Keeps Mirrored (clearAllCharacters (μ := μ) time) :=
  fun _ hp => hp.told rfl fun _ h => ⟨rfl, h.background, h.textboxFaded⟩

theorem Mirrored.present (choice : Choice) : Keeps Mirrored (present (μ := μ) choice) := by
  intro p hp
  obtain ⟨texts, answer, hcalls⟩ := p.recorder.pose_calls choice
  exact hp.told hcalls fun _ h => ⟨h.characters, h.background, h.textboxFaded⟩

theorem Mirrored.poseChoice : Keeps Mirrored (poseChoice (μ := μ)) := by
  intro p hp
  cases hchoice : p.state.choice with
  | none =>
    rw [Play.poseChoice, bind_apply]
    simp only [state, hchoice]
    exact hp
  | some choice =>
    rw [poseChoice_apply hchoice]
    split
    · exact hp.quietly rfl rfl rfl rfl
    · exact Mirrored.present choice _ (hp.quietly rfl rfl rfl rfl)

variable [MediaSource μ]

theorem Mirrored.displayBackground (name : String) (viewport : Viewport) :
    Keeps Mirrored (displayBackground (μ := μ) name viewport) := by
  intro p hp
  have hcleared := Mirrored.clearAllCharacters .zero p hp
  rw [displayBackground_apply]
  rcases MediaSource.load p.media .background name with ⟨outcome, media⟩
  cases outcome with
  | error fault => exact hp.quietly rfl rfl rfl rfl
  | ok view => exact hcleared.told rfl fun _ h => ⟨h.characters, rfl, h.textboxFaded⟩

theorem Mirrored.drawCharacter (name : String) (slot x : Int64) :
    Keeps Mirrored (drawCharacter (μ := μ) name slot x) := by
  intro p hp
  have hfound := hp.same (OffStage.findCharacter name p).toSameStage
  rw [drawCharacter_apply]
  rcases hrun : findCharacter name p with ⟨outcome, p'⟩
  rw [hrun] at hfound
  cases outcome with
  | error fault => exact hfound
  | ok found =>
    refine hfound.told rfl fun _ h => ⟨?_, h.background, h.textboxFaded⟩
    rw [Slots.get?_insert, ← h.characters]
    rfl

theorem Mirrored.playMovie (name : String) : Keeps Mirrored (playMovie (μ := μ) name) := by
  intro p hp
  simp only [Play.playMovie, load_apply]
  cases (MediaSource.load p.media .movie name).1 with
  | ok view => exact hp.told rfl fun _ h => h
  | error fault => exact hp.quietly rfl rfl rfl rfl

omit [MediaSource μ] in
theorem Mirrored.clearCharacter (slot : Int64) :
    Keeps Mirrored (clearCharacter (μ := μ) slot) := by
  intro p hp
  refine hp.told rfl fun _ h => ⟨?_, h.background, h.textboxFaded⟩
  rw [Scene.perform, h.characters]
  exact (p.state.characters.get?_erase slot).symm

theorem Mirrored.onStage : OnStage (μ := μ) (Keeps Mirrored) where
  stop _ hp := hp.quietly rfl rfl rfl rfl
  await _ hp := hp.quietly rfl rfl rfl rfl
  displayBackground := Mirrored.displayBackground
  panZoom viewport _ _ hp := hp.told rfl fun _ h =>
    ⟨h.characters, Background.visible_viewport h.background viewport, h.textboxFaded⟩
  fillBackground _ _ _ hp := hp.told rfl fun _ h => ⟨h.characters, rfl, h.textboxFaded⟩
  drawCharacter := Mirrored.drawCharacter
  clearCharacter := Mirrored.clearCharacter
  clearAllCharacters := Mirrored.clearAllCharacters
  fadeTextbox _ _ hp := hp.told rfl fun _ h => ⟨h.characters, h.background, rfl⟩
  unfadeTextbox := Mirrored.unfadeTextbox
  playMovie := Mirrored.playMovie
  openChoice id := Mirrored.onChoice (onChoice_openChoice id)
  addCandidate text display := Mirrored.onChoice (onChoice_addCandidate text display)
  takeChoice := Mirrored.onChoice onChoice_takeChoice

theorem Mirrored.showTextblock (lines : List String) (voice : Option String) :
    Keeps Mirrored (showTextblock (μ := μ) lines voice) := by
  intro p hp
  rw [showTextblock_apply]
  split
  · exact hp.told rfl fun _ h => h
  · split
    · exact hp.quietly rfl rfl rfl rfl
    · exact hp.told rfl fun _ h => h

theorem Mirrored.newTextblock (lines : List String) (voice : Option String) :
    Keeps Mirrored (newTextblock (μ := μ) lines voice) := by
  refine (Mirrored.showTextblock lines voice).bind fun _ => ?_
  refine (Mirrored.unfadeTextbox .fade).bind fun _ => ?_
  exact fun p hp => hp.quietly rfl rfl rfl rfl

theorem Mirrored.stageLaws : StageLaws (μ := μ) Mirrored Mirrored where
  same := Mirrored.same
  onStage := Mirrored.onStage
  done := id
  newTextblock lines voice h _ := Mirrored.newTextblock lines voice _ h
  poseChoice h _ _ := Mirrored.poseChoice _ h

/-! ## Going back -/

omit [MediaSource μ] in
/-- A player that stands at a state and has drawn it again shows it, whatever was on screen. -/
theorem Mirrored.redrawn {p q : Player μ} {s : PlayState} (hq : Resumed p s q)
    (hbackground : s.background.WellFormed) (media : μ) (backlog : List BacklogEntry) :
    Mirrored { withMediaAndCalls q media s.redrawn with backlog := backlog } := by
  obtain rfl := hq.state
  have hscene := Scene.after_redrawn (Scene.initial.after q.recorder.calls) hbackground
  rw [← Scene.after_append] at hscene
  exact hscene

/-- Going back shows the scene that it goes back to, if media still answer as they did. -/
theorem Mirrored.jumpBack {serve : MediaKind → String → Except Fault View} {good : μ → Prop}
    (hmedia : Serves serve good) {p : Player μ} (hsound : Sound serve good p)
    (hwell : p.WellFormed) (hp : Mirrored p) (index : Nat) : Mirrored (jumpBack index p).2 := by
  have hok : ∀ {entry}, p.backlog[index]? = some entry → (Play.jumpBack index p).1 = .ok () := by
    intro entry hentry
    obtain ⟨p', hrun, _⟩ := jumpBack_spec hmedia hsound hentry
    rw [hrun]
  have hstate : ∀ {entry}, p.backlog[index]? = some entry → entry.state.background.WellFormed :=
    fun hentry => (hwell.backlog _ (List.mem_of_getElem? hentry)).state.background
  have hback := jumpBack_goesBack index p
  generalize Play.jumpBack index p = run at hback hok ⊢
  cases hback with
  | refused fault media => exact hp.quietly rfl rfl rfl rfl
  | undrawn hentry hq fault media calls => cases hok hentry
  | text hentry hitem hq media =>
    exact Mirrored.showTextblock _ _ _ (Mirrored.redrawn hq (hstate hentry) media _)
  | choice hentry hitem hq media =>
    exact Mirrored.present _ _ (Mirrored.redrawn hq (hstate hentry) media _)

/-! ## Calls -/

/-- A player whose scene is on screen, and could be drawn again. -/
structure Drawn (serve : MediaKind → String → Except Fault View) (good : μ → Prop)
    (p : Player μ) : Prop where
  sound : Sound serve good p
  wellFormed : p.WellFormed
  mirrored : Mirrored p

namespace Drawn

variable {serve : MediaKind → String → Except Fault View} {good : μ → Prop}

theorem process (hmedia : Serves serve good) (budget : Nat) :
    Keeps (Drawn serve good) (process (μ := μ) budget) := by
  refine process_keeps ?_ ?_ budget
  · intro p status hp hstatus
    have hplain : PlayState.Plain fun s => { s with status := status } := .same fun _ => rfl
    have hposed : status ≠ .choice := by
      rcases hstatus with rfl | rfl
      · decide
      · decide
    exact ⟨hp.sound.updateState hplain (.inr hstatus), hp.wellFormed.setStatus hposed,
      hp.mirrored.quietly rfl rfl rfl rfl⟩
  · intro p hp hrunning
    exact ⟨(advance_runs hmedia hp.sound hrunning).sound, (hp.wellFormed.advance hrunning).1,
      Mirrored.stageLaws.advance hp.wellFormed.toLoaded hp.mirrored⟩

omit [MediaSource μ] in
theorem choose (index : Nat) : Keeps (Drawn serve good) (choose (μ := μ) index) := by
  intro p hp
  refine ⟨(choose_steps hp.sound index).sound, .choose index p hp.wellFormed, ?_⟩
  obtain ⟨choice, hchoice⟩ := choose_snd index p
  rw [hchoice]
  exact hp.mirrored.quietly rfl rfl rfl rfl

theorem jumpBack (hmedia : Serves serve good) (index : Nat) :
    Keeps (Drawn serve good) (jumpBack (μ := μ) index) :=
  fun p hp => ⟨(jumpBack_steps hmedia hp.sound index).sound, .jumpBack index p hp.wellFormed,
    hp.mirrored.jumpBack hmedia hp.sound hp.wellFormed index⟩

end Drawn

/-- The fold of everything that the front end was told is the scene of the state, for every player
that a new one becomes by calls. -/
theorem scene_mirrors_state {serve : MediaKind → String → Except Fault View} {good : μ → Prop}
    (hmedia : Serves serve good) {media : μ} (hgood : good media) {policy : ChoicePolicy}
    {options : RuntimeOptions} {start : Player μ}
    (hnew : (Player.new media (.new policy) options).1 = .ok start) (calls : List Call) :
    (Scene.initial.after (start.after calls).recorder.calls).Mirrors (start.after calls).state := by
  obtain ⟨_, hrecorder, _, hstate⟩ := new_spec hnew
  have hmirrored : Mirrored start := by
    unfold Mirrored
    rw [hrecorder, hstate]
    exact ⟨rfl, rfl, rfl⟩
  have hstart := (new_starts hmedia hgood hnew).sound
  exact (after_keeps (Drawn.process hmedia) Drawn.choose (Drawn.jumpBack hmedia)
    ⟨hstart, .new hnew, hmirrored⟩ calls).mirrored

/-- Back to a text in front of a character, after the screen was filled with a colour. -/
theorem scene_mirrors_state_before_fade :
    let media := FixedMedia.scriptAndPictures "op00" [0x53, 0x43, 0x33, 0x00, 55, 0, 0, 0,
      59, 0, 0, 0, 16, 0, 0, 0, 0x10, 0x1d, 0, 0, 0, 0, 0, 0, 0x10, 0x0f, 0x81, 0, 0, 0, 0, 0, 0,
      1, 0, 0x83, 0, 0, 0x80, 0, 0, 0xff, 0, 0, 0x10, 0x0d, 0x83, 0, 0, 0x80, 0, 0, 0x80, 0, 0,
      67, 0, 0, 0, 69, 0, 0, 0, 71, 0, 0, 0, 0x41, 0x0e, 0x62, 0, 0x63, 0]
    ∃ start, (Player.new media (.new .first) .default).1 = .ok start ∧
      let p := start.after [.process 9, .process 9, .process 9]
      let q := start.after [.process 9, .process 9, .process 9, .jumpBack 0]
      p.state.background = ⟨some "b", some .red, .full⟩ ∧
      (Scene.initial.after p.recorder.calls).Mirrors p.state ∧
      q.state.background = ⟨some "b", none, .full⟩ ∧
      q.state.characters.get? 0 = some ⟨"c", 3⟩ ∧
      (Scene.initial.after q.recorder.calls).Mirrors q.state := by
  intro media
  obtain ⟨start, hstart, hfilled, hshown, hcharacter⟩ :
      ∃ start ∈ (Player.new media (.new .first) .default).1.toOption,
        let p := start.after [.process 9, .process 9, .process 9]
        let q := start.after [.process 9, .process 9, .process 9, .jumpBack 0]
        p.state.background = ⟨some "b", some .red, .full⟩ ∧
        q.state.background = ⟨some "b", none, .full⟩ ∧
        q.state.characters.get? 0 = some ⟨"c", 3⟩ := by
    decide +kernel
  have hnew := ok_of_toOption hstart
  have hmirrors := scene_mirrors_state (FixedMedia.scriptAndPictures_serves _ _) rfl hnew
  exact ⟨start, hnew, hfilled, hmirrors _, hshown, hcharacter, hmirrors _⟩

end Play

end NovelScript
